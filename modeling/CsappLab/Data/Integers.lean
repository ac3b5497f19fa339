/-
# Data.Integers — the other integer puzzles

`bitXor`, `tmin`, `isTmax`, `allOddBits`, `negate`, `isAsciiDigit`, `conditional` and
`logicalNeg` of `bits.c` and their references in `tests.c`. Most of them are a truth value:
`!` asks whether a word is zero (`logNot_eq_truth`), and a shift by 31 copies the sign to
every bit (`sshiftRight_sign`). The reference of `allOddBits` is a loop over the odd
numbers, and the puzzle fills in the even bits and asks for all of them (`evenBits_eq`).
-/
import CsappLab.Data.LessOrEqual

namespace CsappLab.Data

set_option autoImplicit false

/-! ## The puzzles -/

def bitXor (x y : BitVec 32) : BitVec 32 :=
  ~~~(~~~x &&& ~~~y) &&& ~~~(x &&& y)

def tmin : BitVec 32 :=
  (1 : BitVec 32) <<< 31

def isTmax (x : BitVec 32) : BitVec 32 :=
  logNot (~~~(x + 1 + x) ||| logNot (x + 1))

def allOddBits (x : BitVec 32) : BitVec 32 :=
  let b3 := x ||| 0x55
  let b2 := x ||| (0x55 : BitVec 32) <<< 8
  let b1 := x ||| (0x55 : BitVec 32) <<< 16
  let b0 := x ||| (0x55 : BitVec 32) <<< 24
  logNot (~~~(b0 ||| b1 ||| b2 ||| b3))

def negate (x : BitVec 32) : BitVec 32 :=
  ~~~x + 1

def isAsciiDigit (x : BitVec 32) : BitVec 32 :=
  let checkHighByte := logNot (~~~((x ^^^ ~~~0x30).sshiftRight 4))
  let cond1 := logNot (x &&& 0x08)
  let cond2 := logNot (x &&& 0x06)
  checkHighByte &&& (cond1 ||| cond2)

def conditional (x y z : BitVec 32) : BitVec 32 :=
  let B := (logNot x <<< 31).sshiftRight 31
  let A := ~~~B
  (A &&& y) ||| (B &&& z)

def logicalNeg (x : BitVec 32) : BitVec 32 :=
  let filterPos := ((1 : BitVec 32) <<< 31 &&& ~~~x).sshiftRight 31
  let Tmax := ~~~((1 : BitVec 32) <<< 31)
  let allToNeg := x + (filterPos &&& Tmax)
  let xToBool := allToNeg.sshiftRight 31 &&& 1
  let logicalNotX := xToBool ^^^ 1
  logicalNotX

/-! ## The references -/

def test_bitXor (x y : BitVec 32) : BitVec 32 :=
  x ^^^ y

def test_tmin : BitVec 32 :=
  0x80000000

def test_isTmax (x : BitVec 32) : BitVec 32 :=
  if x = 0x7fffffff then 1 else 0

/-- `for (i = 1; i < 32; i+=2)`, in at most `rounds` tests of `i`. -/
def oddLoop (x : BitVec 32) : Nat → Nat → Option (BitVec 32)
  | 0, _ => none
  | rounds + 1, i =>
      if i < 32 then
        if x &&& (1 : BitVec 32) <<< i = 0 then some 0 else oddLoop x rounds (i + 2)
      else some 1

def test_allOddBits (x : BitVec 32) : Option (BitVec 32) :=
  oddLoop x 17 1

def test_negate (x : BitVec 32) : BitVec 32 :=
  -x

def test_isAsciiDigit (x : BitVec 32) : BitVec 32 :=
  if (0x30 : BitVec 32).sle x && x.sle 0x39 then 1 else 0

def test_conditional (x y z : BitVec 32) : BitVec 32 :=
  if x ≠ 0 then y else z

def test_logicalNeg (x : BitVec 32) : BitVec 32 :=
  if x = 0 then 1 else 0

/-! ## Truth values and signs -/

theorem logNot_eq_truth (v : BitVec 32) : logNot v = truth (v = 0) := by
  unfold logNot truth
  simp only [decide_eq_true_eq]

/-- `!(~v)`. -/
theorem logNot_not (v : BitVec 32) : logNot (~~~v) = truth (v = BitVec.allOnes 32) := by
  rw [logNot_eq_truth]
  congr 1
  rw [decide_eq_decide, BitVec.not_eq_comm]
  rfl

theorem truth_eq_zero {b : Bool} : truth b = 0 ↔ b = false := by
  cases b <;> decide

/-- `v >> 31`. -/
theorem sshiftRight_sign (v : BitVec 32) :
    v.sshiftRight 31 = if v.msb then BitVec.allOnes 32 else 0 := by
  apply BitVec.eq_of_getLsbD_eq
  intro i inside
  have bit : (v.sshiftRight 31).getLsbD i = v.msb := by
    rw [BitVec.getLsbD_sshiftRight, decide_eq_false (by omega), Bool.not_false, Bool.true_and]
    split
    next first =>
      obtain rfl : i = 0 := by omega
      rw [BitVec.msb_eq_getLsbD_last]
    next => rfl
  rw [bit]
  cases v.msb with
  | false => simp
  | true => rw [if_pos rfl, BitVec.getLsbD_allOnes, decide_eq_true inside]

/-! ## The even bits -/

theorem evenBits_eq (x : BitVec 32) :
    (x ||| (0x55 : BitVec 32) <<< 24) ||| (x ||| (0x55 : BitVec 32) <<< 16) |||
      (x ||| (0x55 : BitVec 32) <<< 8) ||| (x ||| 0x55) = x ||| 0x55555555 := by
  have bytes : (0x55 : BitVec 32) <<< 24 ||| (0x55 : BitVec 32) <<< 16 |||
      (0x55 : BitVec 32) <<< 8 ||| 0x55 = 0x55555555 := by decide
  rw [← bytes]
  apply BitVec.eq_of_getLsbD_eq
  intro i _
  simp only [BitVec.getLsbD_or]
  cases x.getLsbD i <;> simp

theorem evenBits_getLsbD {i : Nat} (inside : i < 32) :
    (0x55555555 : BitVec 32).getLsbD i = decide (i % 2 = 0) := by
  have all : ∀ i < 32, (0x55555555 : BitVec 32).getLsbD i = decide (i % 2 = 0) := by decide
  exact all i inside

/-- With the even bits filled in, all bits are set where the odd ones are. -/
theorem or_evenBits {x : BitVec 32} :
    x ||| 0x55555555 = BitVec.allOnes 32 ↔ ∀ i < 32, i % 2 = 1 → x.getLsbD i = true := by
  constructor
  · intro full i inside odd
    have bit : (x ||| 0x55555555).getLsbD i = true := by
      rw [full, BitVec.getLsbD_allOnes, decide_eq_true inside]
    rw [BitVec.getLsbD_or, evenBits_getLsbD inside, decide_eq_false (by omega),
      Bool.or_false] at bit
    exact bit
  · intro odd
    apply BitVec.eq_of_getLsbD_eq
    intro i inside
    rw [BitVec.getLsbD_or, evenBits_getLsbD inside, BitVec.getLsbD_allOnes,
      decide_eq_true inside]
    by_cases even : i % 2 = 0
    · rw [decide_eq_true even, Bool.or_true]
    · rw [odd i inside (by omega), Bool.true_or]

theorem and_bit_eq_zero {x : BitVec 32} {i : Nat} (inside : i < 32) :
    x &&& (1 : BitVec 32) <<< i = 0 ↔ x.getLsbD i = false := by
  have one : (1 : BitVec 32) <<< i = BitVec.twoPow 32 i := (BitVec.twoPow_eq 32 i).symm
  rw [one, BitVec.and_twoPow]
  cases x.getLsbD i with
  | false => simp
  | true =>
      simp only [if_true, Bool.true_eq_false, iff_false]
      intro zero
      have bit := congrArg (BitVec.getLsbD · i) zero
      simp [inside] at bit

/-- The loop of the reference, from an odd number on. -/
theorem oddLoop_eq {x : BitVec 32} {rounds i : Nat} (odd : i % 2 = 1) (last : i ≤ 33)
    (enough : 33 < i + 2 * rounds) :
    oddLoop x rounds i =
      some (truth (decide (∀ k < 32, k % 2 = 1 ∧ i ≤ k → x.getLsbD k = true))) := by
  induction rounds generalizing i with
  | zero => omega
  | succ rounds ih =>
      unfold oddLoop
      by_cases inside : i < 32
      · rw [if_pos inside]
        by_cases clear : x &&& (1 : BitVec 32) <<< i = 0
        · have bit := (and_bit_eq_zero inside).1 clear
          have missing : ¬ ∀ k < 32, k % 2 = 1 ∧ i ≤ k → x.getLsbD k = true := fun all =>
            Bool.false_ne_true (bit.symm.trans (all i inside ⟨odd, Nat.le_refl i⟩))
          rw [if_pos clear, decide_eq_false missing]
          rfl
        · have bit : x.getLsbD i = true := by
            rw [and_bit_eq_zero inside] at clear
            simpa using clear
          rw [if_neg clear, ih (by omega) (by omega) (by omega)]
          congr 2
          rw [decide_eq_decide]
          constructor
          · intro rest k below next
            by_cases here : k = i
            · rw [here, bit]
            · exact rest k below (by omega)
          · intro all k below next
            exact all k below (by omega)
      · have vacuous : ∀ k < 32, k % 2 = 1 ∧ i ≤ k → x.getLsbD k = true := by
          intro k below next
          omega
        rw [if_neg inside, decide_eq_true vacuous]
        rfl

theorem allOddBits_eq (x : BitVec 32) :
    allOddBits x = truth (decide (∀ i < 32, i % 2 = 1 → x.getLsbD i = true)) := by
  unfold allOddBits
  simp only [evenBits_eq, logNot_not, or_evenBits]

theorem test_allOddBits_eq (x : BitVec 32) :
    test_allOddBits x = some (truth (decide (∀ i < 32, i % 2 = 1 → x.getLsbD i = true))) := by
  unfold test_allOddBits
  rw [oddLoop_eq (by decide) (by decide) (by decide)]
  congr 2
  rw [decide_eq_decide]
  constructor
  · intro all i below odd
    exact all i below (by omega)
  · intro all i below next
    exact all i below next.1

/-! ## The other puzzles -/

theorem bitXor_eq (x y : BitVec 32) : bitXor x y = x ^^^ y := by
  apply BitVec.eq_of_getLsbD_eq
  intro i inside
  unfold bitXor
  simp only [BitVec.getLsbD_and, BitVec.getLsbD_not, BitVec.getLsbD_xor, decide_eq_true inside]
  cases x.getLsbD i <;> cases y.getLsbD i <;> rfl

/-- `x + 1 + x` is all ones for the greatest word and for -1, which `!(x + 1)` takes out. -/
theorem isTmax_eq (x : BitVec 32) : isTmax x = truth (x = 0x7fffffff) := by
  unfold isTmax
  rw [logNot_eq_truth, logNot_eq_truth]
  congr 1
  have both : ∀ u v : BitVec 32, u ||| v = 0 ↔ u = 0 ∧ v = 0 := fun _ _ => BitVec.or_eq_zero_iff
  rw [decide_eq_decide, both, truth_eq_zero, decide_eq_false_iff_not]
  constructor
  · rintro ⟨sum, other⟩
    rw [BitVec.not_eq_comm] at sum
    bv_omega
  · rintro rfl
    decide

/-- `(x ^ (~0x30)) >> 4` has all bits set where the digits before the last are `3`. -/
theorem highByte_eq {x : BitVec 32} :
    (x ^^^ ~~~0x30).sshiftRight 4 = BitVec.allOnes 32 ↔ x.toNat / 16 = 3 := by
  have word := x.isLt
  have top := BitVec.msb_eq_decide x
  have constant : (~~~0x30 : BitVec 32).sshiftRight 4 = BitVec.allOnes 32 ^^^ 3 := by decide
  rw [BitVec.sshiftRight_xor_distrib, constant]
  constructor
  · intro ones
    have three : x.sshiftRight 4 = 3 := by
      have cancel := congrArg (· ^^^ (BitVec.allOnes 32 ^^^ 3)) ones
      simpa [BitVec.xor_assoc] using cancel
    cases sign : x.msb with
    | false =>
        have value := BitVec.toNat_sshiftRight_of_msb_false (n := 4) sign
        rw [three, Nat.shiftRight_eq_div_pow] at value
        exact value.symm
    | true =>
        have negative := BitVec.msb_sshiftRight (x := x) (n := 4)
        rw [three, sign] at negative
        exact absurd negative (by decide)
  · intro digits
    have sign : x.msb = false := by
      rw [top]
      exact decide_eq_false (by omega)
    have three : x.sshiftRight 4 = 3 := by
      apply BitVec.eq_of_toNat_eq
      rw [BitVec.toNat_sshiftRight_of_msb_false sign, Nat.shiftRight_eq_div_pow]
      exact digits
    rw [three]
    decide

/-- `!(x & 0x08) | !(x & 0x06)`: the last digit is below 8, or 8 or 9. -/
theorem lowDigit_eq (x : BitVec 32) :
    logNot (x &&& 0x08) ||| logNot (x &&& 0x06) = truth (x.toNat % 16 < 10) := by
  have all : ∀ r < 16, logNot (BitVec.ofNat 32 r &&& 0x08) |||
      logNot (BitVec.ofNat 32 r &&& 0x06) = truth (r < 10) := by decide
  have last : x &&& 0x0f = BitVec.ofNat 32 (x.toNat % 16) := by
    apply BitVec.eq_of_toNat_eq
    rw [BitVec.toNat_and, BitVec.toNat_ofNat]
    have mask : x.toNat &&& 15 = x.toNat % 16 := Nat.and_two_pow_sub_one_eq_mod x.toNat 4
    show x.toNat &&& 15 = _
    omega
  have eight : x &&& 0x08 = (x &&& 0x0f) &&& 0x08 := by
    rw [BitVec.and_assoc]
    rfl
  have six : x &&& 0x06 = (x &&& 0x0f) &&& 0x06 := by
    rw [BitVec.and_assoc]
    rfl
  rw [eight, six, last]
  exact all _ (Nat.mod_lt _ (by decide))

theorem isAsciiDigit_eq (x : BitVec 32) : isAsciiDigit x = test_isAsciiDigit x := by
  have word := x.isLt
  have digit : (x.toNat / 16 = 3 ∧ x.toNat % 16 < 10) ↔ (48 ≤ x.toInt ∧ x.toInt ≤ 57) := by
    rw [BitVec.toInt_eq_toNat_cond]
    split <;> omega
  have lower : (0x30 : BitVec 32).sle x = decide (48 ≤ x.toInt) := BitVec.sle_eq_decide
  have upper : x.sle 0x39 = decide (x.toInt ≤ 57) := BitVec.sle_eq_decide
  unfold isAsciiDigit test_isAsciiDigit
  dsimp only
  rw [logNot_not, lowDigit_eq, truth_and, lower, upper, ← Bool.decide_and, ← Bool.decide_and]
  unfold truth
  simp only [highByte_eq, digit]

/-- A mask of all ones or of none picks one of the two words. -/
theorem conditional_eq (x y z : BitVec 32) : conditional x y z = if x ≠ 0 then y else z := by
  unfold conditional
  dsimp only
  by_cases zero : x = 0
  · have mask : (logNot x <<< 31).sshiftRight 31 = BitVec.allOnes 32 := by
      rw [zero]
      decide
    rw [mask, if_neg (not_not_intro zero), BitVec.not_allOnes, BitVec.zero_and,
      BitVec.zero_or, BitVec.allOnes_and]
  · have mask : (logNot x <<< 31).sshiftRight 31 = 0 := by
      rw [logNot, if_neg zero]
      decide
    rw [mask, if_pos zero]
    show BitVec.allOnes 32 &&& y ||| 0#32 &&& z = y
    rw [BitVec.allOnes_and, BitVec.zero_and, BitVec.or_zero]

/-- The sign that the puzzle computes is set for every word but zero. -/
theorem logicalNeg_eq (x : BitVec 32) : logicalNeg x = truth (x = 0) := by
  have bit (v : BitVec 32) : (v.sshiftRight 31 &&& 1) ^^^ 1 = truth (!v.msb) := by
    rw [sshiftRight_sign]
    cases v.msb <;> decide
  unfold logicalNeg
  dsimp only
  have sign : ((1 : BitVec 32) <<< 31 &&& ~~~x).msb = !x.msb := by
    rw [BitVec.msb_and, BitVec.msb_not]
    exact Bool.true_and _
  rw [bit, sshiftRight_sign, sign]
  congr 1
  cases negative : x.msb with
  | true =>
      have nonzero : x ≠ 0 := by
        rintro rfl
        exact absurd negative (by decide)
      rw [decide_eq_false nonzero, Bool.not_true, if_neg Bool.false_ne_true]
      show (!(x + (0#32 &&& _)).msb) = false
      rw [BitVec.zero_and, BitVec.add_zero, negative]
      rfl
  | false =>
      -- `x + Tmax` is past `Tmax` where `x` is positive
      have low : x.toNat < 2 ^ 31 := by
        have top := BitVec.msb_eq_decide x
        simpa [negative] using top
      have mask : BitVec.allOnes 32 &&& ~~~((1 : BitVec 32) <<< 31) = 0x7fffffff := by decide
      have sum : (x + 0x7fffffff).toNat = x.toNat + 0x7fffffff := by
        rw [BitVec.toNat_add]
        exact Nat.mod_eq_of_lt (by show x.toNat + 0x7fffffff < 2 ^ 32; omega)
      rw [Bool.not_false, if_pos rfl, mask, BitVec.msb_eq_decide, sum, ← decide_not,
        decide_eq_decide, ← BitVec.toNat_inj]
      show ¬ 2 ^ 31 ≤ x.toNat + 0x7fffffff ↔ x.toNat = 0
      omega

theorem isTmax_reference (x : BitVec 32) : isTmax x = test_isTmax x := by
  rw [isTmax_eq]
  unfold truth test_isTmax
  simp only [decide_eq_true_eq]

theorem allOddBits_reference (x : BitVec 32) : some (allOddBits x) = test_allOddBits x := by
  rw [allOddBits_eq, test_allOddBits_eq]

theorem negate_reference (x : BitVec 32) : negate x = test_negate x :=
  (BitVec.neg_eq_not_add x).symm

theorem logicalNeg_reference (x : BitVec 32) : logicalNeg x = test_logicalNeg x := by
  rw [logicalNeg_eq]
  unfold truth test_logicalNeg
  simp only [decide_eq_true_eq]

/-- **The integer puzzles are right**: on every word they give what their references give,
and the loop of `test_allOddBits` ends. -/
theorem integers_eq_references :
    (∀ x y, bitXor x y = test_bitXor x y) ∧
    tmin = test_tmin ∧
    (∀ x, isTmax x = test_isTmax x) ∧
    (∀ x, some (allOddBits x) = test_allOddBits x) ∧
    (∀ x, negate x = test_negate x) ∧
    (∀ x, isAsciiDigit x = test_isAsciiDigit x) ∧
    (∀ x y z, conditional x y z = test_conditional x y z) ∧
    ∀ x, logicalNeg x = test_logicalNeg x :=
  ⟨bitXor_eq, rfl, isTmax_reference, allOddBits_reference, negate_reference, isAsciiDigit_eq,
    conditional_eq, logicalNeg_reference⟩

end CsappLab.Data
