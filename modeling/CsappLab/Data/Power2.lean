/-
# Data.Power2 — `floatPower2` is a power of two

The sign of the argument is copied to the result, and the exponent is `x + 127` cut off
below at 0, so the negative arguments give a negative number or 0, and no subnormal
number is ever returned; near `INT_MAX` the sum wraps. What is left is right
(`floatPower2_isPower2_iff`).
-/
import CsappLab.Data.Bits
import CsappLab.Lib.Ieee

namespace CsappLab.Data

set_option autoImplicit false

open CsappLab.Lib

/-- `r` is the pattern of 2 to the power `x`: infinite from 128 on, 0 below -149, and
between them a number with that value. -/
structure IsPower2 (x : Int) (r : BitVec 32) : Prop where
  overflow : 128 ≤ x → r = 0x7f800000
  normal : -126 ≤ x → x ≤ 127 → r.toNat = single.pattern false (x + 127).toNat 0
  subnormal : -149 ≤ x → x ≤ -127 → r.toNat = single.pattern false 0 (2 ^ (x + 149).toNat)
  underflow : x < -149 → r = 0
  value : -149 ≤ x → x ≤ 127 → single.value r.toNat = 2 ^ x

/-- The arguments for which the result is right. -/
def GoodPower (x : BitVec 32) : Prop :=
  0 ≤ x.toInt ∧ x.toInt ≤ 2 ^ 31 - 128 ∨ x.toInt < -149

theorem biased_toInt (x : BitVec 32) :
    (x + 127).toInt = if x.toInt < 2 ^ 31 - 127 then x.toInt + 127 else x.toInt + 127 - 2 ^ 32 := by
  have word := x.isLt
  have bias : (127 : BitVec 32).toNat = 127 := rfl
  rw [BitVec.toInt_eq_toNat_cond, BitVec.toInt_eq_toNat_cond x, BitVec.toNat_add, bias]
  split_ifs <;> omega

theorem floatPower2_eq (x : BitVec 32) :
    floatPower2 x =
      if 255 ≤ (x + 127).toInt then
        (x &&& ((1 : BitVec 32) <<< 31)) ||| ((0xff : BitVec 32) <<< 23) ||| 0
      else if (x + 127).toInt < 0 then 0
      else (x &&& ((1 : BitVec 32) <<< 31)) ||| ((x + 127) <<< 23) ||| 0 := by
  have isLarge : (255 : BitVec 32).sle (x + 127) = true ↔ 255 ≤ (x + 127).toInt :=
    BitVec.sle_iff_toInt_le
  have isNegative : (x + 127).slt 0 = true ↔ (x + 127).toInt < 0 := BitVec.slt_iff_toInt_lt
  simp only [floatPower2, isLarge, isNegative]
  split_ifs <;> rfl

theorem sign_eq_zero {x : BitVec 32} (nonneg : 0 ≤ x.toInt) :
    (x &&& ((1 : BitVec 32) <<< 31)).toNat = 0 * 2 ^ 31 := by
  have word := x.isLt
  rw [BitVec.toInt_eq_toNat_cond] at nonneg
  rw [sign_toNat]
  split_ifs at nonneg <;> omega

theorem sign_eq_one {x : BitVec 32} (negative : x.toInt < 0) :
    (x &&& ((1 : BitVec 32) <<< 31)).toNat = 1 * 2 ^ 31 := by
  have word := x.isLt
  rw [BitVec.toInt_eq_toNat_cond] at negative
  rw [sign_toNat]
  split_ifs at negative <;> omega

theorem floatPower2_overflow {x : BitVec 32} (low : 128 ≤ x.toInt)
    (high : x.toInt ≤ 2 ^ 31 - 128) : floatPower2 x = 0x7f800000 := by
  have biased := biased_toInt x
  rw [if_pos (by omega)] at biased
  have ones : (0xff : BitVec 32).toNat = 255 := rfl
  have zero : (0 : BitVec 32).toNat = 0 := rfl
  apply BitVec.eq_of_toNat_eq
  rw [floatPower2_eq, if_pos (by omega), or_toNat (sign_eq_zero (by omega)) (by rw [ones]; decide)
    (by rw [zero]; decide)]
  rfl

/-- Where the biased exponent is negative, or wraps to a negative one. -/
theorem floatPower2_zero {x : BitVec 32} (outside : x.toInt < -127 ∨ 2 ^ 31 - 128 < x.toInt) :
    floatPower2 x = 0 := by
  have biased := biased_toInt x
  have least := BitVec.le_toInt x
  have greatest := BitVec.toInt_lt (x := x)
  rw [floatPower2_eq]
  split_ifs at biased <;> rw [if_neg (by omega), if_pos (by omega)]

theorem floatPower2_between {x : BitVec 32} {s : Nat} (low : -127 ≤ x.toInt)
    (high : x.toInt ≤ 127) (sign : (x &&& ((1 : BitVec 32) <<< 31)).toNat = s * 2 ^ 31) :
    (floatPower2 x).toNat = s * 2 ^ 31 + (x.toInt + 127).toNat * 2 ^ 23 := by
  have biased := biased_toInt x
  rw [if_pos (by omega)] at biased
  have byte : (x + 127).toNat = (x.toInt + 127).toNat := by
    have word := (x + 127).isLt
    rw [BitVec.toInt_eq_toNat_cond] at biased
    split_ifs at biased <;> omega
  have zero : (0 : BitVec 32).toNat = 0 := rfl
  rw [floatPower2_eq, if_neg (by omega), if_neg (by omega),
    or_toNat sign (by omega) (by rw [zero]; decide), byte, zero, Nat.add_zero]

theorem pattern_single (e f : Nat) : single.pattern false e f = e * 2 ^ 23 + f := by
  show 0 * 2 ^ 31 + e * 2 ^ 23 + f = _
  omega

/-- From 0 to 127 the result is right. -/
theorem floatPower2_normal {x : BitVec 32} (low : 0 ≤ x.toInt) (high : x.toInt ≤ 127) :
    (floatPower2 x).toNat = (x.toInt + 127).toNat * 2 ^ 23 := by
  rw [floatPower2_between (by omega) high (sign_eq_zero low), Nat.zero_mul, Nat.zero_add]

/-- The pattern of a normal power of two. -/
theorem isPower2_of_normal {x : Int} {r : BitVec 32} (low : -126 ≤ x) (high : x ≤ 127)
    (pattern : r.toNat = (x + 127).toNat * 2 ^ 23) : IsPower2 x r := by
  have exponent : single.exponent r.toNat = (x + 127).toNat := by
    rw [single_exponent, pattern]
    omega
  have fraction : single.fraction r.toNat = 0 := by
    rw [single_fraction, pattern, Nat.mul_mod_left]
  have positive : single.negative r.toNat = false := by
    have top : (x + 127).toNat * 2 ^ 23 / 2 ^ 31 % 2 = 0 := by omega
    rw [single_negative, pattern, top]
    rfl
  constructor
  · intro large
    omega
  · intro _ _
    rw [pattern_single, pattern, Nat.add_zero]
  · intro _ small
    omega
  · intro small
    omega
  · intro _ _
    rw [single.value_normal_power positive (by omega) exponent fraction, single_bias]
    congr 1
    omega

/-- The pattern of a subnormal one. -/
theorem isPower2_of_subnormal {x : Int} {r : BitVec 32} (low : -149 ≤ x) (high : x ≤ -127)
    (pattern : r.toNat = 2 ^ (x + 149).toNat) : IsPower2 x r := by
  have power : 2 ^ (x + 149).toNat ≤ 2 ^ 22 := Nat.pow_le_pow_right (by decide) (by omega)
  have exponent : single.exponent r.toNat = 0 := by
    rw [single_exponent, pattern]
    omega
  have fraction : single.fraction r.toNat = 2 ^ (x + 149).toNat := by
    rw [single_fraction, pattern]
    omega
  have positive : single.negative r.toNat = false := by
    have top : 2 ^ (x + 149).toNat / 2 ^ 31 % 2 = 0 := by omega
    rw [single_negative, pattern, top]
    rfl
  constructor
  · intro large
    omega
  · intro normal
    omega
  · intro _ _
    rw [pattern_single, pattern, Nat.zero_mul, Nat.zero_add]
  · intro small
    omega
  · intro _ _
    rw [single.value_subnormal_power positive exponent fraction, single_scale]
    congr 1
    omega

theorem isPower2_infinity {x : Int} (large : 128 ≤ x) : IsPower2 x 0x7f800000 := by
  constructor
  case overflow => exact fun _ => rfl
  all_goals
    intros
    omega

theorem isPower2_zero {x : Int} (small : x < -149) : IsPower2 x 0 := by
  constructor
  case underflow => exact fun _ => rfl
  all_goals
    intros
    omega

/-- Every power of two has its pattern. -/
theorem exists_isPower2 (x : Int) : ∃ r, IsPower2 x r := by
  by_cases large : 128 ≤ x
  · exact ⟨0x7f800000, isPower2_infinity large⟩
  by_cases normal : -126 ≤ x
  · refine ⟨BitVec.ofNat 32 ((x + 127).toNat * 2 ^ 23), isPower2_of_normal normal (by omega) ?_⟩
    rw [BitVec.toNat_ofNat, Nat.mod_eq_of_lt (by omega)]
  by_cases subnormal : -149 ≤ x
  · have power : 2 ^ (x + 149).toNat ≤ 2 ^ 22 := Nat.pow_le_pow_right (by decide) (by omega)
    refine ⟨BitVec.ofNat 32 (2 ^ (x + 149).toNat),
      isPower2_of_subnormal subnormal (by omega) ?_⟩
    rw [BitVec.toNat_ofNat, Nat.mod_eq_of_lt (by omega)]
  · exact ⟨0, isPower2_zero (by omega)⟩

theorem isPower2_of_good {x : BitVec 32} (good : GoodPower x) :
    IsPower2 x.toInt (floatPower2 x) := by
  have greatest := BitVec.toInt_lt (x := x)
  rcases good with ⟨low, high⟩ | small
  · by_cases finite : x.toInt ≤ 127
    · exact isPower2_of_normal (by omega) finite (floatPower2_normal low finite)
    · rw [floatPower2_overflow (by omega) high]
      exact isPower2_infinity (by omega)
  · rw [floatPower2_zero (.inl (by omega))]
    exact isPower2_zero small

theorem good_of_isPower2 {x : BitVec 32} (isPower : IsPower2 x.toInt (floatPower2 x)) :
    GoodPower x := by
  have zero : (0 : BitVec 32).toNat = 0 := rfl
  by_contra bad
  unfold GoodPower at bad
  have regimes : 2 ^ 31 - 128 < x.toInt ∨ -126 ≤ x.toInt ∧ x.toInt < 0 ∨ x.toInt = -127 ∨
      -149 ≤ x.toInt ∧ x.toInt < -127 := by omega
  rcases regimes with large | ⟨low, high⟩ | edge | ⟨low, high⟩
  · -- the sum wraps
    have result := floatPower2_zero (.inr large)
    rw [isPower.overflow (by omega)] at result
    exact absurd result (by decide)
  · -- the sign is kept
    have pattern := isPower.normal low (by omega)
    rw [floatPower2_between (by omega) (by omega) (sign_eq_one high), pattern_single] at pattern
    omega
  · have pattern := isPower.subnormal (by omega) (by omega)
    rw [floatPower2_between (by omega) (by omega) (sign_eq_one (by omega)), pattern_single,
      edge] at pattern
    exact absurd pattern (by decide)
  · -- the subnormal numbers are left out
    have pattern := isPower.subnormal low (by omega)
    have pos : 0 < 2 ^ (x.toInt + 149).toNat := Nat.two_pow_pos _
    rw [floatPower2_zero (.inl high), pattern_single, zero] at pattern
    omega

theorem floatPower2_positive {x : BitVec 32} (good : GoodPower x) :
    single.negative (floatPower2 x).toNat = false := by
  rcases good with ⟨low, high⟩ | small
  · by_cases finite : x.toInt ≤ 127
    · have top : (x.toInt + 127).toNat * 2 ^ 23 / 2 ^ 31 % 2 = 0 := by omega
      rw [floatPower2_normal low finite, single_negative, top]
      rfl
    · rw [floatPower2_overflow (by omega) high]
      rfl
  · rw [floatPower2_zero (.inl (by omega))]
    rfl

theorem floatPower2_mono {x y : BitVec 32} (goodX : GoodPower x) (goodY : GoodPower y)
    (le : x.toInt ≤ y.toInt) : floatPower2 x ≤ floatPower2 y := by
  have infinite : (0x7f800000 : BitVec 32).toNat = 255 * 2 ^ 23 := rfl
  rw [BitVec.le_def]
  rcases goodX with ⟨lowX, highX⟩ | smallX
  · rcases goodY with ⟨lowY, highY⟩ | smallY
    · by_cases finiteY : y.toInt ≤ 127
      · rw [floatPower2_normal lowX (by omega), floatPower2_normal lowY finiteY]
        omega
      · rw [floatPower2_overflow (by omega) highY, infinite]
        by_cases finiteX : x.toInt ≤ 127
        · rw [floatPower2_normal lowX finiteX]
          omega
        · rw [floatPower2_overflow (by omega) highX, infinite]
    · omega
  · rw [floatPower2_zero (.inl (by omega))]
    exact Nat.zero_le _

/-- **`floatPower2` is a power of two** for the arguments from 0 on, short of the greatest
`int`s, and for those far below 0. There it gives no negative number and is monotone. -/
theorem floatPower2_isPower2_iff (x : BitVec 32) :
    (IsPower2 x.toInt (floatPower2 x) ↔ GoodPower x) ∧
    (GoodPower x → single.negative (floatPower2 x).toNat = false) ∧
    ∀ y, GoodPower x → GoodPower y → x.toInt ≤ y.toInt → floatPower2 x ≤ floatPower2 y :=
  ⟨⟨good_of_isPower2, isPower2_of_good⟩, floatPower2_positive, fun _ => floatPower2_mono⟩

/-- The pattern of -1/2 in place of 1/2. -/
theorem floatPower2_minus_one : ¬ IsPower2 (-1 : BitVec 32).toInt (floatPower2 (-1)) := by
  intro isPower
  exact absurd (isPower.normal (by decide) (by decide)) (by decide)

end CsappLab.Data
