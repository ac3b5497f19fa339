/-
# Lib.Interrupts — masks of nested interrupt handlers

A stack of active handlers, innermost first; each entry is the signal it handles
and the mask it currently runs under. The stack is `Nested` over the mask of the
interrupted program when every handler was entered with its signal unblocked and
still runs with at least that signal and the mask it interrupted blocked.

From this alone: a handler is never entered twice, a signal the program blocks
has no handler on the stack, and a handler that blocks everything is innermost.
-/
import Mathlib.Data.Finset.Insert
import Mathlib.Data.Fintype.Defs

namespace CsappLab.Lib

set_option autoImplicit false

universe u

namespace Interrupts

variable {σ : Type u} [DecidableEq σ]

/-- The mask in force: the innermost handler's, or the program's own. -/
def current (base : Finset σ) : List (σ × Finset σ) → Finset σ
  | [] => base
  | c :: _ => c.2

def Nested (base : Finset σ) : List (σ × Finset σ) → Prop
  | [] => True
  | c :: cs => c.1 ∉ current base cs ∧ insert c.1 (current base cs) ⊆ c.2 ∧ Nested base cs

variable {base : Finset σ} {c d : σ × Finset σ} {cs : List (σ × Finset σ)}

theorem Nested.base_subset (nested : Nested base cs) : base ⊆ current base cs := by
  induction cs with
  | nil => exact Finset.Subset.refl base
  | cons c cs ih =>
      obtain ⟨-, grows, rest⟩ := nested
      exact (ih rest).trans ((Finset.subset_insert _ _).trans grows)

/-- Every active handler's mask is contained in the one in force. -/
theorem Nested.mask_subset (nested : Nested base cs) (active : d ∈ cs) :
    d.2 ⊆ current base cs := by
  induction cs with
  | nil => simp at active
  | cons c cs ih =>
      obtain ⟨-, grows, rest⟩ := nested
      rcases List.mem_cons.1 active with rfl | inRest
      · exact Finset.Subset.refl _
      · exact (ih rest inRest).trans ((Finset.subset_insert _ _).trans grows)

/-- Every active handler's own signal is blocked. -/
theorem Nested.signal_mem (nested : Nested base cs) (active : d ∈ cs) :
    d.1 ∈ current base cs := by
  induction cs with
  | nil => simp at active
  | cons c cs ih =>
      obtain ⟨-, grows, rest⟩ := nested
      rcases List.mem_cons.1 active with rfl | inRest
      · exact grows (Finset.mem_insert_self _ _)
      · exact grows (Finset.mem_insert_of_mem (ih rest inRest))

/-- A signal the interrupted program blocks has no handler on the stack. -/
theorem Nested.ne_of_blocked (nested : Nested base cs) {s : σ} (blocked : s ∈ base)
    (active : d ∈ cs) : d.1 ≠ s := by
  induction cs with
  | nil => simp at active
  | cons c cs ih =>
      obtain ⟨unblocked, -, rest⟩ := nested
      rcases List.mem_cons.1 active with rfl | inRest
      · rintro rfl
        exact unblocked (rest.base_subset blocked)
      · exact ih rest inRest

/-- The innermost handler's signal has no other handler on the stack. -/
theorem Nested.ne_innermost (nested : Nested base (c :: cs)) (active : d ∈ cs) : d.1 ≠ c.1 := by
  obtain ⟨unblocked, -, rest⟩ := nested
  intro same
  exact unblocked (same ▸ rest.signal_mem active)

/-- No two active handlers handle the same signal. -/
theorem Nested.nodup (nested : Nested base cs) : (cs.map Prod.fst).Nodup := by
  induction cs with
  | nil => exact List.nodup_nil
  | cons c cs ih =>
      rw [List.map_cons, List.nodup_cons]
      refine ⟨fun again => ?_, ih nested.2.2⟩
      obtain ⟨d, active, same⟩ := List.mem_map.1 again
      exact nested.ne_innermost active same

/-- A handler that is interrupted does not block everything. -/
theorem Nested.ne_univ [Fintype σ] (nested : Nested base (c :: cs)) (active : d ∈ cs) :
    d.2 ≠ Finset.univ := by
  obtain ⟨unblocked, -, rest⟩ := nested
  intro full
  exact unblocked (rest.mask_subset active (full ▸ Finset.mem_univ _))

/-- A program that blocks everything is not interrupted. -/
theorem Nested.eq_nil_of_univ [Fintype σ] (nested : Nested Finset.univ cs) : cs = [] := by
  cases cs with
  | nil => rfl
  | cons c cs =>
      obtain ⟨unblocked, -, rest⟩ := nested
      exact absurd (rest.base_subset (Finset.mem_univ _)) unblocked

end Interrupts

end CsappLab.Lib
