/-
# Lib.Slots — a fixed array of slots that stands for a finite map

A slot is free or holds a key and a value. An array of `n` slots in which no key
stands twice represents the finite map of what its slots hold, whatever the
order and wherever the holes are. Storing a new key in a free slot, clearing a
slot and rewriting a value are `insert`, `erase` and `insert` again, and there
is a free slot exactly while the map has fewer than `n` keys.
-/
import Mathlib.Data.Finmap
import Mathlib.Data.Fintype.Card

namespace CsappLab.Lib

set_option autoImplicit false

universe u v

/-- No key stands twice, and the map holds what the slots hold. -/
structure Represents {n : Nat} {κ : Type u} {ν : Type v} [DecidableEq κ]
    (slots : Fin n → Option (κ × ν)) (m : Finmap fun _ : κ => ν) : Prop where
  distinct : ∀ {i j k x y}, slots i = some (k, x) → slots j = some (k, y) → i = j
  lookup : ∀ {k x}, m.lookup k = some x ↔ ∃ i, slots i = some (k, x)

theorem update_slots_eq_some_iff {n : Nat} {κ : Type u} {ν : Type v}
    {slots : Fin n → Option (κ × ν)} {i j : Fin n} {k : κ} {x : ν} {written : Option (κ × ν)} :
    Function.update slots i written j = some (k, x) ↔
      (j = i ∧ written = some (k, x)) ∨ (j ≠ i ∧ slots j = some (k, x)) := by
  by_cases at_ : j = i
  · subst at_
    simp
  · simp [at_]

namespace Represents

variable {n : Nat} {κ : Type u} {ν : Type v} [DecidableEq κ]
variable {slots : Fin n → Option (κ × ν)} {m : Finmap fun _ : κ => ν} {i : Fin n} {k : κ} {x : ν}

theorem empty : Represents (fun _ : Fin n => none) (∅ : Finmap fun _ : κ => ν) where
  distinct held := by cases held
  lookup := by simp

theorem mem_iff (rep : Represents slots m) : k ∈ m ↔ ∃ i x, slots i = some (k, x) := by
  rw [Finmap.mem_iff]
  constructor
  · intro found
    obtain ⟨x, found⟩ := found
    obtain ⟨i, held⟩ := rep.lookup.1 found
    exact ⟨i, x, held⟩
  · intro held
    obtain ⟨i, x, held⟩ := held
    exact ⟨x, rep.lookup.2 ⟨i, held⟩⟩

theorem lookup_of_held (rep : Represents slots m) (held : slots i = some (k, x)) :
    m.lookup k = some x :=
  rep.lookup.2 ⟨i, held⟩

/-- A new key in a free slot. -/
theorem store (rep : Represents slots m) (free : slots i = none) (fresh : k ∉ m) (x : ν) :
    Represents (Function.update slots i (some (k, x))) (m.insert k x) := by
  have elsewhere : ∀ j y, slots j ≠ some (k, y) :=
    fun j y held => fresh (rep.mem_iff.2 ⟨j, y, held⟩)
  constructor
  · intro a b k' y z heldA heldB
    rcases update_slots_eq_some_iff.1 heldA with ⟨rfl, newA⟩ | ⟨-, oldA⟩ <;>
      rcases update_slots_eq_some_iff.1 heldB with ⟨rfl, newB⟩ | ⟨-, oldB⟩
    · rfl
    · cases newA
      exact absurd oldB (elsewhere b z)
    · cases newB
      exact absurd oldA (elsewhere a y)
    · exact rep.distinct oldA oldB
  · intro k' y
    simp only [update_slots_eq_some_iff]
    by_cases same : k' = k
    · subst same
      rw [Finmap.lookup_insert, Option.some.injEq]
      constructor
      · rintro rfl
        exact ⟨i, .inl ⟨rfl, rfl⟩⟩
      · intro held
        obtain ⟨j, ⟨-, new⟩ | ⟨-, old⟩⟩ := held
        · cases new
          rfl
        · exact absurd old (elsewhere j y)
    · rw [Finmap.lookup_insert_of_ne m same, rep.lookup]
      constructor
      · intro held
        obtain ⟨j, held⟩ := held
        have ne : j ≠ i := by
          rintro rfl
          rw [free] at held
          cases held
        exact ⟨j, .inr ⟨ne, held⟩⟩
      · intro held
        obtain ⟨j, ⟨-, new⟩ | ⟨-, old⟩⟩ := held
        · cases new
          exact absurd rfl same
        · exact ⟨j, old⟩

/-- The slot of a key cleared. -/
theorem clear (rep : Represents slots m) (held : slots i = some (k, x)) :
    Represents (Function.update slots i none) (m.erase k) := by
  have kept : ∀ {j k' y}, Function.update slots i none j = some (k', y) ↔
      j ≠ i ∧ slots j = some (k', y) := by
    simp [update_slots_eq_some_iff]
  constructor
  · intro a b k' y z heldA heldB
    exact rep.distinct (kept.1 heldA).2 (kept.1 heldB).2
  · intro k' y
    simp only [kept]
    by_cases same : k' = k
    · subst same
      rw [Finmap.lookup_erase]
      constructor
      · intro none_
        cases none_
      · intro held'
        obtain ⟨j, ne, held'⟩ := held'
        exact absurd (rep.distinct held' held) ne
    · rw [Finmap.lookup_erase_ne same, rep.lookup]
      constructor
      · intro held'
        obtain ⟨j, held'⟩ := held'
        have ne : j ≠ i := by
          rintro rfl
          rw [held] at held'
          cases held'
          exact same rfl
        exact ⟨j, ne, held'⟩
      · intro held'
        obtain ⟨j, -, held'⟩ := held'
        exact ⟨j, held'⟩

/-- The value of a key rewritten where it stands. -/
theorem rewrite (rep : Represents slots m) (held : slots i = some (k, x)) (y : ν) :
    Represents (Function.update slots i (some (k, y))) (m.insert k y) := by
  have cleared := rep.clear held
  have stored := cleared.store (i := i) (Function.update_self ..) Finmap.notMem_erase_self y
  have same : (m.erase k).insert k y = m.insert k y := by
    apply Finmap.ext_lookup
    intro k'
    by_cases at_ : k' = k
    · rw [at_, Finmap.lookup_insert, Finmap.lookup_insert]
    · rw [Finmap.lookup_insert_of_ne _ at_, Finmap.lookup_insert_of_ne _ at_,
        Finmap.lookup_erase_ne at_]
  rwa [Function.update_idem, same] at stored

/-- There is a free slot exactly while the map has fewer keys than there are slots. -/
theorem card_lt_iff (rep : Represents slots m) : m.keys.card < n ↔ ∃ i, slots i = none := by
  let taken := Finset.univ.filter fun i => (slots i).isSome
  have keys : taken.image (fun i => (slots i).map Prod.fst) = m.keys.map .some := by
    ext key
    simp only [taken, Finset.mem_image, Finset.mem_filter, Finset.mem_univ, true_and,
      Finset.mem_map, Finmap.mem_keys, rep.mem_iff]
    constructor
    · intro image
      obtain ⟨i, isSome, rfl⟩ := image
      obtain ⟨⟨k, x⟩, held⟩ := Option.isSome_iff_exists.1 isSome
      exact ⟨k, ⟨i, x, held⟩, by rw [held]; rfl⟩
    · intro listed
      obtain ⟨k, ⟨i, x, held⟩, rfl⟩ := listed
      exact ⟨i, by rw [held]; rfl, by rw [held]; rfl⟩
  have apart : Set.InjOn (fun i => (slots i).map Prod.fst) taken := by
    intro i memI j memJ same
    obtain ⟨⟨k, x⟩, heldI⟩ := Option.isSome_iff_exists.1 (Finset.mem_filter.1 memI).2
    obtain ⟨⟨k', y⟩, heldJ⟩ := Option.isSome_iff_exists.1 (Finset.mem_filter.1 memJ).2
    simp only [heldI, heldJ, Option.map_some, Option.some.injEq] at same
    exact rep.distinct heldI (same ▸ heldJ)
  have count : m.keys.card = taken.card := by
    rw [← Finset.card_map, ← keys, Finset.card_image_of_injOn apart]
  have full : taken.card < Fintype.card (Fin n) ↔ taken ≠ Finset.univ :=
    Finset.card_lt_iff_ne_univ taken
  rw [Fintype.card_fin] at full
  rw [count, full, Ne, Finset.eq_univ_iff_forall, not_forall]
  simp [taken]

end Represents

end CsappLab.Lib
