/-
# Lib.Settling — machines that come to rest

Where every step of a machine lowers a rank, no run is longer than the rank of
the state it starts in, and some run ends where no step is left. The steps need to
lower it only from states that satisfy an invariant `inv`.

A rank is often a sum over a finite map, one weight for each value. `weigh` is
that sum; `weigh_insert` and `weigh_erase` say what writing and removing one
entry does to it.
-/
import CsappLab.Lib.Transition
import Mathlib.Data.List.AList

namespace CsappLab.Lib

set_option autoImplicit false

universe u v

namespace Machine

variable {σ : Type u} {α : Type v} {M : Machine σ α} {rank : σ → Nat} {inv : σ → Prop}

/-- A run is paid for by the rank it uses up. -/
theorem exec_length_le (keeps : ∀ s a t, inv s → M.step s a = some t → inv t)
    (lowers : ∀ s a t, inv s → M.step s a = some t → rank t < rank s) {s t : σ} {as : List α}
    (ok : inv s) (ran : M.exec s as = some t) : as.length + rank t ≤ rank s := by
  induction as generalizing s with
  | nil =>
      cases ran
      simp
  | cons a as ih =>
      obtain ⟨u, stepped, rest⟩ := Option.bind_eq_some_iff.1 ran
      have lower := lowers s a u ok stepped
      have shorter := ih (keeps s a u ok stepped) rest
      rw [List.length_cons]
      omega

/-- **Every state can be run to rest.** -/
theorem exists_stuck (keeps : ∀ s a t, inv s → M.step s a = some t → inv t)
    (lowers : ∀ s a t, inv s → M.step s a = some t → rank t < rank s) {s : σ} (ok : inv s) :
    ∃ as t, M.exec s as = some t ∧ ∀ a, M.step t a = none := by
  induction high : rank s using Nat.strong_induction_on generalizing s with
  | h n ih =>
      by_cases stuck : ∀ a, M.step s a = none
      · exact ⟨[], s, rfl, stuck⟩
      · obtain ⟨a, goes⟩ := not_forall.1 stuck
        obtain ⟨u, stepped⟩ := Option.ne_none_iff_exists'.1 goes
        obtain ⟨as, t, ran, rests⟩ := ih (rank u) (high ▸ lowers s a u ok stepped)
          (keeps s a u ok stepped) rfl
        exact ⟨a :: as, t, Option.bind_eq_some_iff.2 ⟨u, stepped, ran⟩, rests⟩

end Machine

/-! ## Weights of finite maps -/

section Weights

variable {κ : Type u} {β : Type v} (w : β → Nat)

/-- The weights of the values, added up. -/
def weigh (m : AList fun _ : κ => β) : Nat :=
  m.entries.foldr (fun e n => w e.2 + n) 0

theorem weigh_le {c : Nat} {m : AList fun _ : κ => β} (bounded : ∀ e ∈ m.entries, w e.2 ≤ c) :
    weigh w m ≤ c * m.entries.length := by
  unfold weigh
  generalize m.entries = es at bounded ⊢
  induction es with
  | nil => exact Nat.le_refl 0
  | cons e es ih =>
      have head := bounded e List.mem_cons_self
      have tail := ih fun e' member => bounded e' (List.mem_cons_of_mem _ member)
      rw [List.foldr_cons, List.length_cons, Nat.mul_add]
      omega

variable [DecidableEq κ]

/-- The weight of the value at a key, nothing where there is none. -/
def weighAt (m : AList fun _ : κ => β) (k : κ) : Nat :=
  (m.lookup k).elim 0 w

theorem weighAt_of_lookup {m : AList fun _ : κ => β} {k : κ} {b : β}
    (found : m.lookup k = some b) : weighAt w m k = w b := by
  rw [weighAt, found]
  rfl

theorem weighAt_of_notMem {m : AList fun _ : κ => β} {k : κ} (absent : k ∉ m) :
    weighAt w m k = 0 := by
  rw [weighAt, AList.lookup_eq_none.2 absent]
  rfl

theorem weigh_erase (m : AList fun _ : κ => β) (k : κ) :
    weigh w (m.erase k) + weighAt w m k = weigh w m := by
  show (m.entries.kerase k).foldr _ 0 + (m.entries.dlookup k).elim 0 w = m.entries.foldr _ 0
  induction m.entries with
  | nil => rfl
  | cons e es ih =>
      obtain ⟨k', b⟩ := e
      by_cases same : k = k'
      · have gone : (⟨k', b⟩ :: es : List (Sigma fun _ : κ => β)).kerase k = es :=
          List.kerase_cons_eq same
        subst same
        rw [gone, List.dlookup_cons_eq]
        exact Nat.add_comm _ _
      · have stays : (⟨k', b⟩ :: es : List (Sigma fun _ : κ => β)).kerase k =
            ⟨k', b⟩ :: es.kerase k := List.kerase_cons_ne same
        have further : (⟨k', b⟩ :: es : List (Sigma fun _ : κ => β)).dlookup k = es.dlookup k :=
          @List.dlookup_cons_ne κ (fun _ => β) _ es k ⟨k', b⟩ same
        rw [stays, further, List.foldr_cons, List.foldr_cons]
        omega

theorem weigh_insert (m : AList fun _ : κ => β) (k : κ) (b : β) :
    weigh w (m.insert k b) + weighAt w m k = weigh w m + w b := by
  have rest := weigh_erase w m k
  have first : weigh w (m.insert k b) = w b + weigh w (m.erase k) := rfl
  omega

end Weights

end CsappLab.Lib
