/-
# Data.References — the references of the floating-point puzzles

`test_floatScale2`, `test_floatFloat2Int` and `test_floatPower2` of `tests.c`. A `float` is
its pattern, so `u2f` and `f2u` do nothing; `*` rounds the exact product once, and a cast to
`int` truncates, with the `0x80000000` of the x86 instructions for what is no `int`.

The references are right for every word (`references_right`), so each puzzle agrees with its
reference exactly where it is right itself (`floatScale2_agrees_iff`,
`floatFloat2Int_agrees_iff`, `floatPower2_agrees_iff`). `test_floatPower2` squares its way
through the bits of the exponent, with numbers that overflow and underflow on the way
(`powerLoop_eq`).
-/
import CsappLab.Data.Scale2
import CsappLab.Data.Float2Int
import CsappLab.Data.Power2
import CsappLab.Lib.Rounding

namespace CsappLab.Data

set_option autoImplicit false

open CsappLab.Lib

/-- `x * y` of two `float`s. -/
def floatMul (x y : BitVec 32) : BitVec 32 :=
  BitVec.ofNat 32 (single.mul x.toNat y.toNat)

/-- `(int) f`. -/
def floatToInt (f : BitVec 32) : BitVec 32 :=
  let whole := truncate (single.value f.toNat)
  if single.exponent f.toNat < single.expMax ∧ -2 ^ 31 ≤ whole ∧ whole ≤ 2 ^ 31 - 1 then
    BitVec.ofInt 32 whole
  else 0x80000000

/-- `test_floatScale2`. -/
def test_floatScale2 (uf : BitVec 32) : BitVec 32 :=
  let tf := floatMul 0x40000000 uf
  if single.IsNan uf.toNat then uf else tf

/-- `test_floatFloat2Int`. -/
def test_floatFloat2Int (uf : BitVec 32) : BitVec 32 :=
  floatToInt uf

/-- The loop of `test_floatPower2`, in at most `rounds` tests of `x`. -/
def powerLoop : Nat → BitVec 32 → BitVec 32 → BitVec 32 → Option (BitVec 32)
  | 0, _, _, _ => none
  | rounds + 1, x, p2, result =>
      if (0 : BitVec 32).slt x then
        let result := if x &&& 0x1 ≠ 0 then floatMul result p2 else result
        powerLoop rounds (x.sshiftRight 1) (floatMul p2 p2) result
      else some result

/-- `test_floatPower2`. -/
def test_floatPower2 (x : BitVec 32) : Option (BitVec 32) :=
  if x = 0x80000000 then some 0
  else if x.slt 0 then powerLoop 32 (-x) 0x3f000000 0x3f800000
  else powerLoop 32 x 0x40000000 0x3f800000

/-! ## `test_floatScale2` -/

theorem single_infinity : single.infinity false = 255 * 2 ^ 23 := by decide

theorem units_two : single.units (0x40000000 : BitVec 32).toNat = 2 ^ 150 := by decide

/-- A word from its sign and the rest. -/
theorem single_signed (x : BitVec 32) :
    single.signed (single.negative x.toNat) (x.toNat % 2 ^ 31) = x.toNat := by
  have word := x.isLt
  rw [single_negative]
  rcases show x.toNat / 2 ^ 31 % 2 = 0 ∨ x.toNat / 2 ^ 31 % 2 = 1 by omega with plus | minus
  · rw [plus]
    show 0 * 2 ^ 31 + 0 * 2 ^ 23 + x.toNat % 2 ^ 31 = x.toNat
    omega
  · rw [minus]
    show 1 * 2 ^ 31 + 0 * 2 ^ 23 + x.toNat % 2 ^ 31 = x.toNat
    omega

theorem units_mod (x : Nat) : single.units (x % 2 ^ 31) = single.units x := by
  have exponent : x % 2 ^ 31 / 2 ^ 23 % 2 ^ 8 = x / 2 ^ 23 % 2 ^ 8 := by omega
  have fraction : x % 2 ^ 31 % 2 ^ 23 = x % 2 ^ 23 := by omega
  unfold Format.units
  rw [single_exponent, single_exponent, single_fraction, single_fraction, exponent, fraction]

/-- The double in least numbers. -/
theorem units_of_double {x y : Nat} (double : single.value y = 2 * single.value x) :
    single.units y = 2 * single.units x := by
  have pos : (0 : ℚ) < 2 ^ single.scale := by positivity
  have magnitudes : |single.value y| = 2 * |single.value x| := by
    rw [double, abs_mul, abs_two]
  rw [single.abs_value, single.abs_value, mul_div_assoc', div_left_inj' pos.ne'] at magnitudes
  exact_mod_cast magnitudes

theorem test_floatScale2_double {uf : BitVec 32} (below : single.exponent uf.toNat < 254) :
    test_floatScale2 uf = floatScale2 uf := by
  obtain ⟨finite, sign, double⟩ := floatScale2_double below
  have word := (floatScale2 uf).isLt
  have notNan : ¬ single.IsNan uf.toNat := by
    rintro ⟨infinite, -⟩
    rw [single_expMax] at infinite
    omega
  have small : (floatScale2 uf).toNat % 2 ^ 31 < single.infinity false := by
    unfold Format.Finite at finite
    rw [single_expMax, single_exponent] at finite
    rw [single_infinity]
    omega
  have product : single.units (0x40000000 : BitVec 32).toNat * single.units uf.toNat =
      single.units ((floatScale2 uf).toNat % 2 ^ 31) * 2 ^ single.scale := by
    rw [units_two, units_mod, units_of_double double, single_scale]
    ring
  have exact_ := Format.mul_exact (F := single) (by decide)
    (by rw [single_expMax]; omega) small product
  have plus : single.negative (0x40000000 : BitVec 32).toNat = false := by decide
  unfold test_floatScale2 floatMul
  dsimp only
  rw [if_neg notNan, exact_, plus, Bool.false_bne, ← sign, single_signed, BitVec.ofNat_toNat,
    BitVec.setWidth_eq]

/-- From the last binade on a double is infinite. -/
theorem test_floatScale2_last {uf : BitVec 32} (last : single.exponent uf.toNat = 254) :
    (test_floatScale2 uf).toNat = single.infinity (single.negative uf.toNat) := by
  have notNan : ¬ single.IsNan uf.toNat := by
    rintro ⟨infinite, -⟩
    rw [last, single_expMax] at infinite
    omega
  have large := single.le_units (x := uf.toNat) (by omega)
  have overflow : single.round
      (single.units (0x40000000 : BitVec 32).toNat * single.units uf.toNat) single.scale =
      single.infinity false := by
    have exponents : single.fracBits + single.expMax - 1 + single.scale =
        150 + (single.fracBits + single.exponent uf.toNat - 1) := by
      rw [last]
      decide
    apply Format.round_eq_infinity
    rw [units_two, ← Nat.pow_add, exponents, Nat.pow_add]
    exact Nat.mul_le_mul_left _ large
  have plus : single.negative (0x40000000 : BitVec 32).toNat = false := by decide
  have word : single.infinity (single.negative uf.toNat) < 2 ^ 32 := by
    cases single.negative uf.toNat <;> decide
  unfold test_floatScale2 floatMul
  dsimp only
  rw [if_neg notNan, Format.mul_finite (by decide) (by rw [last]; decide), overflow, plus,
    Bool.false_bne, ← Format.infinity_eq_signed, BitVec.toNat_ofNat, Nat.mod_eq_of_lt word]

theorem test_floatScale2_special {uf : BitVec 32} (special : single.exponent uf.toNat = 255) :
    test_floatScale2 uf = uf := by
  unfold test_floatScale2 floatMul
  dsimp only
  by_cases isNan : single.IsNan uf.toNat
  · rw [if_pos isNan]
  · have zero : single.fraction uf.toNat = 0 := by
      by_contra nonzero
      exact isNan ⟨special, nonzero⟩
    have units : single.units uf.toNat ≠ 0 := by
      unfold Format.units
      rw [if_neg (by omega), zero, special]
      decide
    have plus : single.negative (0x40000000 : BitVec 32).toNat = false := by decide
    have rest : uf.toNat % 2 ^ 31 = single.infinity false := by
      rw [single_exponent] at special
      rw [single_fraction] at zero
      rw [single_infinity]
      omega
    rw [if_neg isNan, Format.mul_infinite (by decide) isNan (.inr special) (by decide) units, plus,
      Bool.false_bne, Format.infinity_eq_signed, ← rest, single_signed, BitVec.ofNat_toNat,
      BitVec.setWidth_eq]

theorem test_floatScale2_doubles (uf : BitVec 32) : Doubles uf (test_floatScale2 uf) := by
  have threshold := abs_two_mul_single_lt uf.toNat
  have top := Nat.mod_lt (uf.toNat / 2 ^ 23) (show 0 < 2 ^ 8 by decide)
  rw [← single_exponent] at top
  constructor
  · exact test_floatScale2_special
  · intro _ below
    rw [test_floatScale2_double (threshold.1 below)]
    exact floatScale2_double (threshold.1 below)
  · intro finite beyond
    rw [← not_lt, threshold] at beyond
    exact test_floatScale2_last (by omega)

/-- The puzzle and its reference differ in the last binade, but for its first number. -/
theorem floatScale2_agrees_iff (uf : BitVec 32) :
    floatScale2 uf = test_floatScale2 uf ↔
      ¬ (single.exponent uf.toNat = 254 ∧ single.fraction uf.toNat ≠ 0) := by
  have word := uf.isLt
  have top := Nat.mod_lt (uf.toNat / 2 ^ 23) (show 0 < 2 ^ 8 by decide)
  rw [← single_exponent] at top
  by_cases last : single.exponent uf.toNat = 254
  · have infinite := test_floatScale2_last last
    have exponent := last
    rw [single_exponent] at exponent
    rw [← BitVec.toNat_inj, infinite, floatScale2_normal (by omega) (by omega), single_fraction,
      single_negative]
    simp only [last, true_and, not_not]
    rcases show uf.toNat / 2 ^ 31 % 2 = 0 ∨ uf.toNat / 2 ^ 31 % 2 = 1 by omega with plus | minus
    · rw [plus]
      show uf.toNat + 2 ^ 23 = 0 * 2 ^ 31 + 255 * 2 ^ 23 + 0 ↔ _
      omega
    · rw [minus]
      show uf.toNat + 2 ^ 23 = 1 * 2 ^ 31 + 255 * 2 ^ 23 + 0 ↔ _
      omega
  · simp only [last, false_and, not_false_eq_true, iff_true]
    rcases Nat.lt_or_ge (single.exponent uf.toNat) 254 with below | above
    · exact (test_floatScale2_double below).symm
    · have special : single.exponent uf.toNat = 255 := by omega
      rw [test_floatScale2_special special, floatScale2_special special]

/-! ## `test_floatFloat2Int` -/

theorem test_floatFloat2Int_truncates (uf : BitVec 32) :
    Truncates uf (test_floatFloat2Int uf) := by
  unfold test_floatFloat2Int floatToInt
  constructor
  · intro finite low high
    dsimp only
    rw [if_pos ⟨finite, low, high⟩, BitVec.toInt_ofInt]
    exact Int.bmod_eq_of_le (by omega) (by omega)
  · intro outside
    exact if_neg outside

/-- What a pattern is truncated to is determined. -/
theorem truncates_unique {uf r s : BitVec 32} (first : Truncates uf r) (second : Truncates uf s) :
    r = s := by
  by_cases inRange : single.Finite uf.toNat ∧ -2 ^ 31 ≤ truncate (single.value uf.toNat) ∧
      truncate (single.value uf.toNat) ≤ 2 ^ 31 - 1
  · obtain ⟨finite, low, high⟩ := inRange
    apply BitVec.eq_of_toInt_eq
    rw [first.inRange finite low high, second.inRange finite low high]
  · rw [first.outOfRange inRange, second.outOfRange inRange]

/-- The puzzle and its reference differ from 2 on, as long as there is an `int`. -/
theorem floatFloat2Int_agrees_iff (uf : BitVec 32) :
    floatFloat2Int uf = test_floatFloat2Int uf ↔
      single.exponent uf.toNat ≤ 127 ∨ 158 ≤ single.exponent uf.toNat := by
  have reference := test_floatFloat2Int_truncates uf
  rw [single_exponent]
  constructor
  · intro same
    by_contra between
    exact not_truncates_middle (by omega) (by omega) (same ▸ reference)
  · rintro (small | large)
    · exact truncates_unique (truncates_small small) reference
    · exact truncates_unique (truncates_large large) reference

/-! ## `test_floatPower2` -/

/-- The word for `2 ^ e`. -/
def powerWord (e : Int) : BitVec 32 := BitVec.ofNat 32 (single.power e)

theorem powerWord_toNat (e : Int) : (powerWord e).toNat = single.power e := by
  have le := single.power_le e
  rw [single_infinity] at le
  rw [powerWord, BitVec.toNat_ofNat, Nat.mod_eq_of_lt (by omega)]

theorem floatMul_powerWord {a b : Int} (same : 0 ≤ a ∧ 0 ≤ b ∨ a ≤ 0 ∧ b ≤ 0) :
    floatMul (powerWord a) (powerWord b) = powerWord (a + b) := by
  unfold floatMul
  rw [powerWord_toNat, powerWord_toNat, Format.mul_power same]
  rfl

/-- The loop multiplies `p2` into `result` as often as `x` says. -/
theorem powerLoop_eq {rounds : Nat} {x : BitVec 32} {b r : Int}
    (same : 0 ≤ b ∧ 0 ≤ r ∨ b ≤ 0 ∧ r ≤ 0) (few : rounds ≤ 31) (enough : x.toNat < 2 ^ rounds) :
    powerLoop (rounds + 1) x (powerWord b) (powerWord r) =
      some (powerWord (r + b * x.toNat)) := by
  induction rounds generalizing x b r with
  | zero =>
      have zero : x = 0 := by
        apply BitVec.eq_of_toNat_eq
        show x.toNat = 0
        omega
      rw [zero]
      unfold powerLoop
      rw [if_neg (by decide)]
      show some (powerWord r) = some (powerWord (r + b * 0))
      rw [Int.mul_zero, Int.add_zero]
  | succ rounds ih =>
      have bound : 2 ^ (rounds + 1) ≤ 2 ^ 31 := Nat.pow_le_pow_right (by decide) few
      have positive : (0 : BitVec 32).slt x = true ↔ x.toNat ≠ 0 := by
        have zero : (0 : BitVec 32).toInt = 0 := rfl
        rw [BitVec.slt_iff_toInt_lt, zero, BitVec.toInt_eq_toNat_cond, if_pos (by omega)]
        omega
      unfold powerLoop
      by_cases nonzero : x.toNat ≠ 0
      · have half : (x.sshiftRight 1).toNat = x.toNat / 2 := by
          have sign : x.msb = false := by
            rw [BitVec.msb_eq_false_iff_two_mul_lt]
            omega
          rw [BitVec.toNat_sshiftRight_of_msb_false sign, Nat.shiftRight_eq_div_pow]
        have odd : x &&& 0x1 ≠ 0 ↔ x.toNat % 2 = 1 := by
          have bit : (x &&& 0x1).toNat = x.toNat % 2 :=
            (BitVec.toNat_and _ _).trans (Nat.and_two_pow_sub_one_eq_mod x.toNat 1)
          rw [Ne, ← BitVec.toNat_inj, bit]
          show ¬ x.toNat % 2 = 0 ↔ _
          omega
        have split_ : (x.toNat : Int) = 2 * (x.toNat / 2 : Nat) + (x.toNat % 2 : Nat) := by omega
        have rest : (x.sshiftRight 1).toNat < 2 ^ rounds := by
          rw [half]
          rw [Nat.pow_succ] at enough
          omega
        dsimp only
        rw [if_pos (positive.2 nonzero), floatMul_powerWord (by omega)]
        by_cases isOdd : x.toNat % 2 = 1
        · rw [if_pos (odd.2 isOdd), floatMul_powerWord (by omega), ih (by omega) (by omega) rest,
            half, split_, isOdd]
          congr 2
          push_cast
          ring
        · rw [if_neg fun one => isOdd (odd.1 one), ih (by omega) (by omega) rest, half, split_,
            show x.toNat % 2 = 0 by omega]
          congr 2
          push_cast
          ring
      · rw [if_neg fun less => nonzero (positive.1 less), show x.toNat = 0 by omega]
        show some (powerWord r) = some (powerWord (r + b * 0))
        rw [Int.mul_zero, Int.add_zero]

theorem isPower2_powerWord (x : Int) : IsPower2 x (powerWord x) := by
  have value := powerWord_toNat x
  by_cases large : 128 ≤ x
  · have pattern : powerWord x = 0x7f800000 := by
      apply BitVec.eq_of_toNat_eq
      rw [value, Format.power_overflow (by rw [single_bias]; omega), single_infinity]
      rfl
    rw [pattern]
    exact isPower2_infinity large
  by_cases small : x < -149
  · have pattern : powerWord x = 0 := by
      apply BitVec.eq_of_toNat_eq
      rw [value, Format.power_underflow (by rw [single_scale]; omega)]
      rfl
    rw [pattern]
    exact isPower2_zero small
  unfold Format.power at value
  rw [single_bias, single_scale, if_neg (by omega)] at value
  by_cases normal : -126 ≤ x
  · rw [if_pos (by omega)] at value
    exact isPower2_of_normal normal (by omega) value
  · rw [if_neg (by omega), if_pos (by omega)] at value
    exact isPower2_of_subnormal (by omega) (by omega) value

/-- The pattern of a power of two is determined. -/
theorem isPower2_unique {x : Int} {r s : BitVec 32} (first : IsPower2 x r)
    (second : IsPower2 x s) : r = s := by
  by_cases large : 128 ≤ x
  · rw [first.overflow large, second.overflow large]
  by_cases small : x < -149
  · rw [first.underflow small, second.underflow small]
  by_cases normal : -126 ≤ x
  · apply BitVec.eq_of_toNat_eq
    rw [first.normal normal (by omega), second.normal normal (by omega)]
  · apply BitVec.eq_of_toNat_eq
    rw [first.subnormal (by omega) (by omega), second.subnormal (by omega) (by omega)]

theorem test_floatPower2_eq (x : BitVec 32) :
    test_floatPower2 x = some (powerWord x.toInt) := by
  have word := x.isLt
  have one : powerWord 0 = 0x3f800000 := by decide
  have two : powerWord 1 = 0x40000000 := by decide
  have half : powerWord (-1) = 0x3f000000 := by decide
  unfold test_floatPower2
  by_cases least : x = 0x80000000
  · rw [if_pos least, least]
    have value : powerWord (0x80000000 : BitVec 32).toInt = 0 := by decide
    rw [value]
  · have notLeast : x.toNat ≠ 2 ^ 31 := by
      intro same
      exact least (BitVec.eq_of_toNat_eq same)
    have negative : x.slt 0 = true ↔ x.toInt < 0 := BitVec.slt_iff_toInt_lt
    have signed := BitVec.toInt_eq_toNat_cond x
    rw [if_neg least]
    by_cases below : x.toInt < 0
    · have magnitude : (-x).toNat = 2 ^ 32 - x.toNat := by
        rw [BitVec.toNat_neg]
        split_ifs at signed <;> omega
      rw [if_pos (negative.2 below), ← half, ← one,
        powerLoop_eq (by omega) (Nat.le_refl 31) (by split_ifs at signed <;> omega), magnitude]
      congr 2
      split_ifs at signed <;> omega
    · rw [if_neg fun less => below (negative.1 less), ← two, ← one,
        powerLoop_eq (by omega) (Nat.le_refl 31) (by split_ifs at signed <;> omega)]
      congr 2
      split_ifs at signed <;> omega

/-- The puzzle and its reference differ where the puzzle is wrong. -/
theorem floatPower2_agrees_iff (x : BitVec 32) :
    some (floatPower2 x) = test_floatPower2 x ↔ GoodPower x := by
  have reference := isPower2_powerWord x.toInt
  rw [test_floatPower2_eq, Option.some_inj]
  constructor
  · intro same
    exact good_of_isPower2 (same ▸ reference)
  · intro good
    exact isPower2_unique (isPower2_of_good good) reference

/-- **The references are right** for every word, and the loop of `test_floatPower2` ends. -/
theorem references_right (x : BitVec 32) :
    Doubles x (test_floatScale2 x) ∧ Truncates x (test_floatFloat2Int x) ∧
    ∃ r, test_floatPower2 x = some r ∧ IsPower2 x.toInt r :=
  ⟨test_floatScale2_doubles x, test_floatFloat2Int_truncates x, powerWord x.toInt,
    test_floatPower2_eq x, isPower2_powerWord x.toInt⟩

end CsappLab.Data
