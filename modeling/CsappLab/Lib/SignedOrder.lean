/-
# Lib.SignedOrder — signed words compared by subtraction

A difference of signed words can only wrap where their signs differ. So its sign tells
which word is less where the signs agree (`sle_eq_of_msb_eq`), and where they do not, the
negative word is the less one (`sle_eq_of_msb_ne`). `sle_eq_signs` puts the two together
without a case distinction: no if `y` alone is negative, yes if `x` alone is, and what the
sign of `y - x` says otherwise.
-/
import Mathlib.Data.Int.Order.Basic
import Mathlib.Order.RelIso.Basic

namespace CsappLab.Lib

set_option autoImplicit false

variable {w : Nat} {x y : BitVec w}

/-- The difference of words with the same sign does not wrap. -/
theorem toInt_sub_of_msb_eq (same : x.msb = y.msb) : (y - x).toInt = y.toInt - x.toInt := by
  apply BitVec.toInt_sub_of_not_ssubOverflow
  rw [BitVec.ssubOverflow_eq, same]
  cases y.msb <;> simp

theorem sle_eq_of_msb_eq (same : x.msb = y.msb) : x.sle y = !(y - x).msb := by
  rw [BitVec.sle_eq_decide, BitVec.msb_eq_toInt, toInt_sub_of_msb_eq same, ← decide_not,
    decide_eq_decide]
  omega

theorem sle_eq_of_msb_ne (differ : x.msb ≠ y.msb) : x.sle y = x.msb := by
  rw [BitVec.sle_eq_decide]
  cases signX : x.msb with
  | false =>
      have signY : y.msb = true := by simpa [signX] using differ
      have nonneg := BitVec.toInt_nonneg_of_msb_false signX
      have negative := BitVec.toInt_neg_of_msb_true signY
      exact decide_eq_false (by omega)
  | true =>
      have signY : y.msb = false := by simpa [signX] using differ
      have negative := BitVec.toInt_neg_of_msb_true signX
      have nonneg := BitVec.toInt_nonneg_of_msb_false signY
      exact decide_eq_true (by omega)

/-- **Comparison by subtraction.** -/
theorem sle_eq_signs (x y : BitVec w) :
    x.sle y = (!(y.msb && !x.msb) && (!(y - x).msb || (!y.msb && x.msb))) := by
  by_cases same : x.msb = y.msb
  · rw [sle_eq_of_msb_eq same, same]
    cases y.msb <;> simp
  · have signY : y.msb = !x.msb := by
      rw [Bool.eq_not]
      exact Ne.symm same
    rw [sle_eq_of_msb_ne same, signY]
    cases x.msb <;> simp

/-- The signed words in their order as integers. -/
theorem isLinearOrder_sle : IsLinearOrder (BitVec w) fun x y => x.sle y = true :=
  RelEmbedding.isLinearOrder (s := ((· ≤ ·) : Int → Int → Prop))
    ⟨⟨BitVec.toInt, fun _ _ => BitVec.eq_of_toInt_eq⟩, BitVec.sle_iff_toInt_le.symm⟩

end CsappLab.Lib
