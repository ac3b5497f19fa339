/-
# Lib.Recency — lists in order of last use

`recency h` are the distinct elements of a history `h`, most recently used first.
A use moves its element to the front (`recency_concat`). A store that keeps its
`E` most recently used elements and nothing else is `touch E` at each use, and
after the history `h` it holds the first `E` elements of `recency h`
(`foldl_touch`): what it has dropped on the way it would have dropped anyway.

`mem_take_recency_iff` says when an element is among the first `E`: it has been
used, and fewer than `E` distinct others since.
-/
import Mathlib.Data.List.Dedup
import Mathlib.Data.List.Induction

namespace CsappLab.Lib

set_option autoImplicit false

universe u

variable {α : Type u} [DecidableEq α]

/-- The distinct elements of a history, most recently used first. -/
def recency (h : List α) : List α :=
  h.dedup.reverse

/-- A use of `a` by a store that keeps `E` elements. -/
def touch (E : Nat) (l : List α) (a : α) : List α :=
  (a :: l.erase a).take E

@[simp] theorem recency_nil : recency ([] : List α) = [] := rfl

@[simp] theorem mem_recency {h : List α} {a : α} : a ∈ recency h ↔ a ∈ h := by
  simp [recency]

@[simp] theorem length_recency (h : List α) : (recency h).length = h.dedup.length := by
  simp [recency]

theorem dedup_concat (h : List α) (a : α) :
    (h ++ [a]).dedup = h.dedup.erase a ++ [a] := by
  induction h with
  | nil => simp
  | cons x t ih =>
      rw [List.cons_append]
      by_cases again : x ∈ t
      · rw [List.dedup_cons_of_mem (List.mem_append_left _ again), List.dedup_cons_of_mem again, ih]
      · rw [List.dedup_cons_of_notMem again]
        by_cases same : x = a
        · subst same
          have last : x ∈ t ++ [x] := by simp
          have unused : x ∉ t.dedup := by simpa using again
          rw [List.dedup_cons_of_mem last, ih, List.erase_cons_head, List.erase_of_not_mem unused]
        · have fresh : x ∉ t ++ [a] := by simp [again, same]
          rw [List.dedup_cons_of_notMem fresh, ih, List.erase_cons_tail (by simpa using same)]
          rfl

theorem mem_touch {E : Nat} (pos : 0 < E) (l : List α) (a : α) : a ∈ touch E l a := by
  obtain ⟨n, rfl⟩ := Nat.exists_eq_add_one_of_ne_zero (Nat.ne_of_gt pos)
  simp [touch]

/-- A use moves its element to the front. -/
theorem recency_concat (h : List α) (a : α) :
    recency (h ++ [a]) = a :: (recency h).erase a := by
  unfold recency
  rw [dedup_concat, List.reverse_append, List.reverse_singleton, List.singleton_append,
    (List.nodup_dedup h).erase_eq_filter,
    (List.nodup_reverse.2 (List.nodup_dedup h)).erase_eq_filter, List.filter_reverse]

/-- What a store of `E` elements drops does not matter to its next use. -/
theorem take_erase_take (l : List α) (a : α) (n : Nat) :
    ((l.take (n + 1)).erase a).take n = (l.erase a).take n := by
  induction l generalizing n with
  | nil => rfl
  | cons x t ih =>
      rw [List.take_succ_cons]
      by_cases same : x = a
      · subst same
        rw [List.erase_cons_head, List.erase_cons_head, List.take_take, Nat.min_self]
      · rw [List.erase_cons_tail (by simpa using same), List.erase_cons_tail (by simpa using same)]
        cases n with
        | zero => rfl
        | succ n => rw [List.take_succ_cons, List.take_succ_cons, ih]

theorem touch_take (E : Nat) (l : List α) (a : α) :
    touch E (l.take E) a = (a :: l.erase a).take E := by
  unfold touch
  cases E with
  | zero => rfl
  | succ n => rw [List.take_succ_cons, List.take_succ_cons, take_erase_take]

/-- A store that keeps fewer elements holds the first of what one that keeps more holds. -/
theorem touch_inclusion {E₁ E₂ : Nat} (le : E₁ ≤ E₂) (l : List α) (a : α) :
    touch E₁ (l.take E₁) a = (touch E₂ l a).take E₁ := by
  rw [touch_take]
  unfold touch
  rw [List.take_take, Nat.min_eq_left le]

/-- **Dropping as one goes is dropping at the end.** -/
theorem foldl_touch (E : Nat) (h : List α) : h.foldl (touch E) [] = (recency h).take E := by
  induction h using List.reverseRecOn with
  | nil => simp
  | append_singleton h a ih =>
      rw [List.foldl_append, ih, recency_concat]
      exact touch_take E (recency h) a

theorem length_touch_le (E : Nat) (l : List α) (a : α) : (touch E l a).length ≤ E := by
  unfold touch
  exact List.length_take_le _ _

theorem length_touch_of_mem {E : Nat} {l : List α} {a : α} (used : a ∈ l) (fits : l.length ≤ E) :
    (touch E l a).length = l.length := by
  have pos := List.length_pos_of_mem used
  unfold touch
  rw [List.length_take, List.length_cons, List.length_erase_of_mem used]
  omega

theorem length_touch_of_notMem (E : Nat) {l : List α} {a : α} (unused : a ∉ l) :
    (touch E l a).length = min E (l.length + 1) := by
  unfold touch
  rw [List.length_take, List.length_cons, List.erase_of_not_mem unused]

/-- With room left, an unused element goes in front. -/
theorem touch_room {E : Nat} {l : List α} {a : α} (unused : a ∉ l) (room : l.length < E) :
    touch E l a = a :: l := by
  unfold touch
  rw [List.erase_of_not_mem unused, List.take_of_length_le]
  exact room

/-- With none left, the last one has to go. -/
theorem touch_full {E : Nat} {l : List α} {a b : α} (unused : a ∉ l ++ [b])
    (full : (l ++ [b]).length = E) : touch E (l ++ [b]) a = a :: l := by
  unfold touch
  rw [List.erase_of_not_mem unused, ← full, List.length_append, List.length_singleton,
    List.take_succ_cons, List.take_left]

theorem nodup_touch {E : Nat} {l : List α} (nodup : l.Nodup) (a : α) : (touch E l a).Nodup := by
  unfold touch
  apply List.Nodup.sublist (List.take_sublist _ _)
  rw [List.nodup_cons]
  exact ⟨fun member => (nodup.mem_erase_iff.1 member).1 rfl, nodup.erase a⟩

/-! ## Position in the order -/

omit [DecidableEq α] in
/-- The last use of an element. -/
theorem exists_last_use {h : List α} {a : α} (used : a ∈ h) :
    ∃ before since, h = before ++ a :: since ∧ a ∉ since := by
  obtain ⟨since, before, split_, unused⟩ := List.eq_append_cons_of_mem (List.mem_reverse.2 used)
  refine ⟨before.reverse, since.reverse, ?_, by simpa using unused⟩
  rw [← List.reverse_reverse h, split_]
  simp

/-- In front of an element are the ones used since. -/
theorem recency_split (before since : List α) {a : α} (unused : a ∉ since) :
    ∃ rest, recency (before ++ a :: since) = recency since ++ a :: rest := by
  obtain ⟨pre, same⟩ : (a :: since).dedup <:+ (before ++ a :: since).dedup := by
    rw [List.dedup_append]
    exact List.suffix_union_right _ _
  rw [List.dedup_cons_of_notMem unused] at same
  refine ⟨pre.reverse, ?_⟩
  unfold recency
  rw [← same]
  simp

/-- **Among the first `E`**: used, and fewer than `E` distinct others since. -/
theorem mem_take_recency_iff {h : List α} {a : α} {E : Nat} :
    a ∈ (recency h).take E ↔
      ∃ before since, h = before ++ a :: since ∧ a ∉ since ∧ since.dedup.length < E := by
  have position : ∀ before since : List α, a ∉ since →
      (a ∈ (recency (before ++ a :: since)).take E ↔ since.dedup.length < E) := by
    intro before since unused
    obtain ⟨rest, split_⟩ := recency_split before since unused
    have member : a ∈ recency (before ++ a :: since) := by simp
    have unused' : a ∉ recency since := by simpa using unused
    rw [List.mem_take_iff_idxOf_lt member, split_, List.idxOf_append_of_notMem unused',
      List.idxOf_cons_self, length_recency, Nat.add_zero]
  constructor
  · intro member
    have used : a ∈ h := mem_recency.1 (List.mem_of_mem_take member)
    obtain ⟨before, since, rfl, unused⟩ := exists_last_use used
    exact ⟨before, since, rfl, unused, (position before since unused).1 member⟩
  · rintro ⟨before, since, rfl, unused, few⟩
    exact (position before since unused).2 few

end CsappLab.Lib
