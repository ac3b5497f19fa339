/-
# Lib.Independent — actions on parts that do not share anything

A system has a part for each index, and an action looks at and changes the part it has
the key of, no other; it puts out something on the way. Actions with different keys
commute (`actOn_comm`), so an action may be done before others with different keys
(`actOn_front`, `outputs_front`).

Two sequences are in the `SameOrder` if, for each key, they have the same actions with
it, in the same order. By taking the actions of one to the front of the other, both end
in the same state and have the same outputs, apart from the order (`SameOrder.run`).
-/
import Mathlib.Data.List.Perm.Basic

namespace CsappLab.Lib

set_option autoImplicit false

universe u v w x

variable {ι : Type u} {σ : Type v} {α : Type w} {β : Type x} [DecidableEq ι] (key : α → ι)
  (act : σ → α → σ) (out : σ → α → β)

/-- An action on the part it has the key of. -/
def actOn (s : ι → σ) (a : α) : ι → σ :=
  Function.update s (key a) (act (s (key a)) a)

/-- What a sequence of actions puts out. -/
def outputs : (ι → σ) → List α → List β
  | _, [] => []
  | s, a :: as => out (s (key a)) a :: outputs (actOn key act s a) as

/-- For each key the same actions in the same order. -/
def SameOrder (as bs : List α) : Prop :=
  ∀ i, as.filter (key · = i) = bs.filter (key · = i)

variable {key act out}

theorem actOn_other (s : ι → σ) {a b : α} (ne : key b ≠ key a) :
    actOn key act s a (key b) = s (key b) :=
  Function.update_of_ne ne _ _

theorem actOn_comm (s : ι → σ) {a b : α} (ne : key b ≠ key a) :
    actOn key act (actOn key act s b) a = actOn key act (actOn key act s a) b := by
  unfold actOn
  rw [Function.update_of_ne (Ne.symm ne), Function.update_of_ne ne,
    Function.update_comm ne]

/-- An action first, or after others with other keys. -/
theorem actOn_front {a : α} {bs : List α} (apart : ∀ b ∈ bs, key b ≠ key a) (s : ι → σ) :
    bs.foldl (actOn key act) (actOn key act s a) =
      actOn key act (bs.foldl (actOn key act) s) a := by
  induction bs generalizing s with
  | nil => rfl
  | cons b bs ih =>
      rw [List.foldl_cons, List.foldl_cons, ← actOn_comm s (apart b List.mem_cons_self)]
      exact ih (fun c member => apart c (List.mem_cons_of_mem _ member)) _

theorem outputs_front {a : α} {bs : List α} (apart : ∀ b ∈ bs, key b ≠ key a) (cs : List α)
    (s : ι → σ) :
    (outputs key act out s (bs ++ a :: cs)).Perm (outputs key act out s (a :: (bs ++ cs))) := by
  induction bs generalizing s with
  | nil => exact List.Perm.refl _
  | cons b bs ih =>
      have ne := apart b List.mem_cons_self
      have rest := ih (fun c member => apart c (List.mem_cons_of_mem _ member)) (actOn key act s b)
      have swap := List.Perm.swap (out (s (key a)) a) (out (s (key b)) b)
        (outputs key act out (actOn key act (actOn key act s b) a) (bs ++ cs))
      simp only [List.cons_append, outputs, actOn_other s ne, actOn_other s (Ne.symm ne),
        actOn_comm s ne] at rest swap ⊢
      exact (rest.cons _).trans swap

/-- Neighbours with different keys may change places. -/
theorem sameOrder_swap {a b : α} (ne : key a ≠ key b) (as bs : List α) :
    SameOrder key (as ++ a :: b :: bs) (as ++ b :: a :: bs) := by
  intro i
  by_cases first : key a = i
  · have second : key b ≠ i := fun same => ne (first.trans same.symm)
    simp [first, second]
  · simp [first, List.filter_cons]

theorem SameOrder.eq_nil {bs : List α} (same : SameOrder key [] bs) : bs = [] := by
  cases bs with
  | nil => rfl
  | cons b bs =>
      have one := same (key b)
      simp at one

/-- The first action of one sequence stands in the other behind actions with other keys. -/
theorem SameOrder.split {a : α} {as bs : List α} (same : SameOrder key (a :: as) bs) :
    ∃ bs₁ bs₂, bs = bs₁ ++ a :: bs₂ ∧ (∀ b ∈ bs₁, key b ≠ key a) ∧
      SameOrder key as (bs₁ ++ bs₂) := by
  have own := same (key a)
  rw [List.filter_cons_of_pos (by simp)] at own
  obtain ⟨bs₁, bs₂, rfl, apart, -, rest⟩ := List.filter_eq_cons_iff.1 own.symm
  have apart' : ∀ b ∈ bs₁, key b ≠ key a := fun b member => by simpa using apart b member
  refine ⟨bs₁, bs₂, rfl, apart', fun i => ?_⟩
  have each := same i
  by_cases same' : key a = i
  · subst same'
    rw [List.filter_append, List.filter_eq_nil_iff.2 apart, rest, List.nil_append]
  · simpa [same'] using each

/-- **Only the order for each key matters.** -/
theorem SameOrder.run {as bs : List α} (same : SameOrder key as bs) (s : ι → σ) :
    as.foldl (actOn key act) s = bs.foldl (actOn key act) s ∧
      (outputs key act out s as).Perm (outputs key act out s bs) := by
  induction as generalizing bs s with
  | nil =>
      obtain rfl := same.eq_nil
      exact ⟨rfl, List.Perm.refl _⟩
  | cons a as ih =>
      obtain ⟨bs₁, bs₂, rfl, apart, rest⟩ := same.split
      obtain ⟨state, outs⟩ := ih rest (actOn key act s a)
      constructor
      · rw [List.foldl_cons, state, List.foldl_append, List.foldl_append, List.foldl_cons,
          actOn_front apart]
      · exact (outs.cons _).trans (outputs_front apart bs₂ s).symm

end CsappLab.Lib
