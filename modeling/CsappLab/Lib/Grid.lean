/-
# Lib.Grid — filling a grid region by region

`Fills D f g g'`: from `g` to `g'` the cells in the region `D` have been given the
values of `f`, and no other cell has changed. Regions filled one after the other
make up their union; a later fill may overwrite an earlier one (`Fills.over`).

`firstDifference` compares two grids row by row, up to the first cell in which they differ.
-/
import Mathlib.Init

namespace CsappLab.Lib

set_option autoImplicit false

universe u

namespace Grid

variable {α : Type u} {D D' : Nat → Nat → Prop} {f f' g g' g'' : Nat → Nat → α}

/-- `g[i][j] = x`. -/
def set (g : Nat → Nat → α) (i j : Nat) (x : α) : Nat → Nat → α :=
  fun r c => if r = i ∧ c = j then x else g r c

structure Fills (D : Nat → Nat → Prop) (f g g' : Nat → Nat → α) : Prop where
  inside : ∀ r c, D r c → g' r c = f r c
  outside : ∀ r c, ¬ D r c → g' r c = g r c

theorem Fills.nothing (empty : ∀ r c, ¬ D r c) : Fills D f g g :=
  ⟨fun r c filled => absurd filled (empty r c), fun _ _ _ => rfl⟩

/-- One cell. -/
theorem fills_set (g : Nat → Nat → α) (i j : Nat) (x : α) :
    Fills (fun r c => r = i ∧ c = j) (fun _ _ => x) g (set g i j x) := by
  constructor
  · intro r c here
    exact if_pos here
  · intro r c away
    exact if_neg away

/-- The same cells, and the same values there. -/
theorem Fills.congr (fills : Fills D f g g') (same : ∀ r c, D' r c ↔ D r c)
    (values : ∀ r c, D r c → f' r c = f r c) : Fills D' f' g g' := by
  constructor
  · intro r c filled
    have old := (same r c).1 filled
    rw [fills.inside r c old, values r c old]
  · intro r c away
    exact fills.outside r c fun filled => away ((same r c).2 filled)

/-- A fill after a fill: where both write, the second counts. -/
theorem Fills.over (first : Fills D f g g') (second : Fills D' f' g' g'')
    (agree : ∀ r c, D r c → ¬ D' r c → f r c = f' r c) :
    Fills (fun r c => D r c ∨ D' r c) f' g g'' := by
  constructor
  · intro r c filled
    by_cases later : D' r c
    · exact second.inside r c later
    · have earlier := filled.resolve_right later
      rw [second.outside r c later, first.inside r c earlier, agree r c earlier later]
  · intro r c away
    rw [second.outside r c fun later => away (.inr later),
      first.outside r c fun earlier => away (.inl earlier)]

/-! ## Comparing two grids -/

section Compare

variable [DecidableEq α] {rows cols r c : Nat}

/-- The cell, if the grids differ in it. -/
def differenceAt (g g' : Nat → Nat → α) (r c : Nat) : Option (Nat × Nat) :=
  if g r c = g' r c then none else some (r, c)

def firstDifference (rows cols : Nat) (g g' : Nat → Nat → α) : Option (Nat × Nat) :=
  (List.range rows).findSome? fun r => (List.range cols).findSome? (differenceAt g g' r)

@[simp] theorem differenceAt_eq_none : differenceAt g g' r c = none ↔ g r c = g' r c := by
  unfold differenceAt
  split
  next same => simp only [same]
  next differ => simp only [reduceCtorEq, differ]

theorem firstDifference_eq_none :
    firstDifference rows cols g g' = none ↔ ∀ r < rows, ∀ c < cols, g r c = g' r c := by
  unfold firstDifference
  simp only [List.findSome?_eq_none_iff, List.mem_range, differenceAt_eq_none]

/-- The first result there is: the places before it have none. -/
theorem findSome_range {β : Type} {n : Nat} {result : Nat → Option β} {b : β}
    (found : (List.range n).findSome? result = some b) :
    ∃ i < n, result i = some b ∧ ∀ k < i, result k = none := by
  induction n with
  | zero => cases found
  | succ n ih =>
      rw [List.range_succ, List.findSome?_append] at found
      cases before : (List.range n).findSome? result with
      | some b' =>
          rw [before, Option.some_or, Option.some.injEq] at found
          subst found
          obtain ⟨i, less, here, earlier⟩ := ih before
          exact ⟨i, Nat.lt_succ_of_lt less, here, earlier⟩
      | none =>
          rw [before, Option.none_or, List.findSome?_singleton] at found
          refine ⟨n, Nat.lt_succ_self n, found, fun k less => ?_⟩
          exact List.findSome?_eq_none_iff.1 before k (List.mem_range.2 less)

/-- The cell that is found differs, and no cell before it in row-major order does. -/
theorem firstDifference_eq_some (found : firstDifference rows cols g g' = some (r, c)) :
    (r < rows ∧ c < cols ∧ g r c ≠ g' r c) ∧
      ∀ r' c', r' < r ∨ r' = r ∧ c' < c → c' < cols → g r' c' = g' r' c' := by
  obtain ⟨i, inRows, row, rowsBefore⟩ := findSome_range found
  obtain ⟨j, inCols, cell, colsBefore⟩ := findSome_range row
  unfold differenceAt at cell
  split at cell
  next => cases cell
  next differ =>
    obtain ⟨rfl, rfl⟩ := Prod.mk.inj (Option.some.inj cell)
    refine ⟨⟨inRows, inCols, differ⟩, ?_⟩
    rintro r' c' (before | ⟨rfl, before⟩) inside
    · have none_ := List.findSome?_eq_none_iff.1 (rowsBefore r' before)
      exact differenceAt_eq_none.1 (none_ c' (List.mem_range.2 inside))
    · exact differenceAt_eq_none.1 (colsBefore c' before)

end Compare

end Grid

end CsappLab.Lib
