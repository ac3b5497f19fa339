/-
# Data.LessOrEqual — `isLessOrEqual` is `<=`

The puzzle takes the sign of `y - x`, where a subtraction is written `y + (~x + 1)`, and
corrects it where the difference may have wrapped, for negative `x` alone and for negative
`y` alone. Each `!` is a truth value 0 or 1 (`truth`), so the result is the truth value of
what is combined (`isLessOrEqual_eq_truth`), which is `sle_eq_signs`.
-/
import CsappLab.Data.Bits
import CsappLab.Lib.SignedOrder

namespace CsappLab.Data

set_option autoImplicit false

open CsappLab.Lib

/-! ## Truth values -/

/-- The `int` that stands for a truth value. -/
def truth (b : Bool) : BitVec 32 :=
  if b then 1 else 0

theorem truth_eq_one {b : Bool} : truth b = 1 ↔ b = true := by
  cases b <;> decide

theorem logNot_truth (b : Bool) : logNot (truth b) = truth (!b) := by
  cases b <;> rfl

theorem truth_and (a b : Bool) : truth a &&& truth b = truth (a && b) := by
  cases a <;> cases b <;> rfl

theorem truth_or (a b : Bool) : truth a ||| truth b = truth (a || b) := by
  cases a <;> cases b <;> rfl

/-- `!(v & signMask)`. -/
theorem logNot_signMask (v : BitVec 32) :
    logNot (v &&& ((1 : BitVec 32) <<< 31)) = truth (!v.msb) := by
  have sign := sign_toNat v
  have word := v.isLt
  have top := BitVec.msb_eq_decide v
  unfold logNot
  cases negative : v.msb with
  | false =>
      have zero : v &&& ((1 : BitVec 32) <<< 31) = 0 := by
        have low : v.toNat < 2 ^ 31 := by simpa [negative] using top
        apply BitVec.eq_of_toNat_eq
        rw [sign, Nat.div_eq_of_lt low]
        rfl
      rw [if_pos zero]
      rfl
  | true =>
      have nonzero : v &&& ((1 : BitVec 32) <<< 31) ≠ 0 := by
        have high : 2 ^ 31 ≤ v.toNat := by simpa [negative] using top
        intro zero
        rw [zero] at sign
        have none_ : (0 : BitVec 32).toNat = 0 := rfl
        omega
      rw [if_neg nonzero]
      rfl

/-! ## The puzzle -/

/-- `y + (~x + 1)`. -/
theorem add_not_add_one (x y : BitVec 32) : y + (~~~x + 1) = y - x := by
  have neg : ~~~x + 1 = -x := (BitVec.neg_eq_not_add x).symm
  rw [neg, BitVec.sub_eq_add_neg]

theorem isLessOrEqual_eq_truth (x y : BitVec 32) : isLessOrEqual x y = truth (x.sle y) := by
  have signNot : ∀ v : BitVec 32, (!(~~~v).msb) = v.msb := fun v => by simp
  unfold isLessOrEqual
  simp only [add_not_add_one, logNot_signMask, signNot, truth_and, logNot_truth, truth_or]
  rw [sle_eq_signs]

/-- **`isLessOrEqual` is right**: it is 1 where the first argument is at most the second as
an integer and 0 elsewhere, as the reference is, and so it orders all words. -/
theorem isLessOrEqual_isLinearOrder :
    (∀ x y, isLessOrEqual x y = if x.toInt ≤ y.toInt then 1 else 0) ∧
    (∀ x y, test_isLessOrEqual x y = isLessOrEqual x y) ∧
    IsLinearOrder (BitVec 32) fun x y => isLessOrEqual x y = 1 := by
  refine ⟨fun x y => ?_, fun x y => ?_, ?_⟩
  · rw [isLessOrEqual_eq_truth]
    unfold truth
    simp only [BitVec.sle_iff_toInt_le]
  · rw [isLessOrEqual_eq_truth]
    rfl
  · simp only [isLessOrEqual_eq_truth, truth_eq_one]
    exact isLinearOrder_sle

/-- Also where `y - x` wraps, and for the least word, whose negation does. -/
example : isLessOrEqual 4 5 = 1 ∧ isLessOrEqual 0x80000000 0x7fffffff = 1 ∧
    isLessOrEqual 0x7fffffff 0x80000000 = 0 ∧ isLessOrEqual 0x80000000 0x80000000 = 1 := by
  decide

end CsappLab.Data
