/-
# Lib.Loop — loops that count up and may break

A statement takes a state to the state after it, or to `none` where it is
undefined. `Ends r Q` says that the result `r` is a state with `Q`: the statement
is defined, terminates and establishes `Q`.

`forLoop_ends` is the rule of `for (i = lo; i < hi; i = next i)` with an invariant
`I i`, which each iteration moves to the next count, unless it breaks. The bound on
the rounds is not seen by a user of the rule: counting up needs no more than
`hi - lo` of them.
-/
import Mathlib.Init

namespace CsappLab.Lib

set_option autoImplicit false

/-- The result is a state with `Q`. -/
def Ends {σ : Type} (r : Option σ) (Q : σ → Prop) : Prop :=
  ∃ s, r = some s ∧ Q s

/-- How an iteration ends: the loop goes on from a state, or breaks in it. -/
inductive Flow (σ : Type) where
  | next (s : σ)
  | stop (s : σ)

/-- `P` where the loop goes on and `Q` where it breaks. -/
def Flow.Post {σ : Type} (P Q : σ → Prop) : Flow σ → Prop
  | .next s => P s
  | .stop s => Q s

section

variable {σ τ : Type} {Q : σ → Prop}

theorem ends_some {s : σ} (post : Q s) : Ends (some s) Q :=
  ⟨s, rfl, post⟩

theorem Ends.mono {P : σ → Prop} {r : Option σ} (ends : Ends r P) (weaker : ∀ s, P s → Q s) :
    Ends r Q := by
  obtain ⟨s, rfl, post⟩ := ends
  exact ⟨s, rfl, weaker s post⟩

/-- One statement after the other. -/
theorem Ends.bind {R : τ → Prop} {r : Option σ} {f : σ → Option τ} (first : Ends r Q)
    (second : ∀ s, Q s → Ends (f s) R) : Ends (r.bind f) R := by
  obtain ⟨s, rfl, post⟩ := first
  exact second s post

/-- A loop body that does not break. -/
def always (body : Nat → σ → Option σ) (i : Nat) (s : σ) : Option (Flow σ) :=
  (body i s).map .next

/-- `for (i = lo; i < hi; i = next i)`, in at most `rounds` rounds. -/
def forRounds (next : Nat → Option Nat) (hi : Nat) (body : Nat → σ → Option (Flow σ)) :
    Nat → Nat → σ → Option σ
  | 0, i, s => if i < hi then none else some s
  | rounds + 1, i, s =>
      if i < hi then do
        match ← body i s with
        | .stop s => some s
        | .next s => do
            let i ← next i
            forRounds next hi body rounds i s
      else some s

def forLoop (next : Nat → Option Nat) (lo hi : Nat) (body : Nat → σ → Option (Flow σ)) (s : σ) :
    Option σ :=
  forRounds next hi body (hi - lo) lo s

variable {next : Nat → Option Nat} {lo hi : Nat} {I : Nat → σ → Prop} {s : σ}

theorem forRounds_ends {body : Nat → σ → Option (Flow σ)}
    (step : ∀ i s, i < hi → I i s →
      Ends (body i s) (Flow.Post (fun s => ∃ j, next i = some j ∧ i < j ∧ I j s) Q))
    (exit : ∀ i s, hi ≤ i → I i s → Q s) (rounds i : Nat) (s : σ) (enough : hi ≤ i + rounds)
    (inv : I i s) : Ends (forRounds next hi body rounds i s) Q := by
  induction rounds generalizing i s with
  | zero =>
      unfold forRounds
      rw [if_neg (by omega)]
      exact ends_some (exit i s (by omega) inv)
  | succ rounds ih =>
      unfold forRounds
      by_cases more : i < hi
      · rw [if_pos more]
        obtain ⟨flow, ran, post⟩ := step i s more inv
        rw [ran]
        cases flow with
        | stop s => exact ends_some post
        | next s =>
            obtain ⟨j, counted, up, inv'⟩ := post
            show Ends ((next i).bind fun i => forRounds next hi body rounds i s) Q
            rw [counted]
            exact ih j s (by omega) inv'
      · rw [if_neg more]
        exact ends_some (exit i s (by omega) inv)

/-- **The rule of a counting loop.** -/
theorem forLoop_ends {body : Nat → σ → Option (Flow σ)}
    (step : ∀ i s, i < hi → I i s →
      Ends (body i s) (Flow.Post (fun s => ∃ j, next i = some j ∧ i < j ∧ I j s) Q))
    (exit : ∀ i s, hi ≤ i → I i s → Q s) (inv : I lo s) :
    Ends (forLoop next lo hi body s) Q :=
  forRounds_ends step exit (hi - lo) lo s (by omega) inv

/-! ## Loops that count by one -/

theorem forRounds_always {body : Nat → σ → Option σ} (rounds i : Nat) (s : σ)
    (counts : ∀ j, i ≤ j → j < i + rounds → next j = some (j + 1)) :
    forRounds next (i + rounds) (always body) rounds i s =
      (List.range' i rounds).foldlM (fun s j => body j s) s := by
  induction rounds generalizing i s with
  | zero => simp [forRounds]
  | succ rounds ih =>
      unfold forRounds always
      rw [if_pos (by omega), List.range'_succ, List.foldlM_cons]
      cases body i s with
      | none => rfl
      | some s' =>
          have rest := ih (i + 1) s' fun j low high => counts j (by omega) (by omega)
          rw [Nat.add_right_comm i 1 rounds] at rest
          show (next i).bind _ = _
          rw [counts i (Nat.le_refl i) (by omega)]
          exact rest

/-- A loop without a break runs its body for one count after the other. -/
theorem forLoop_always {body : Nat → σ → Option σ} (le : lo ≤ hi) (s : σ)
    (counts : ∀ i, lo ≤ i → i < hi → next i = some (i + 1)) :
    forLoop next lo hi (always body) s =
      (List.range' lo (hi - lo)).foldlM (fun s i => body i s) s := by
  obtain ⟨rounds, rfl⟩ := Nat.exists_eq_add_of_le le
  unfold forLoop
  rw [Nat.add_sub_cancel_left]
  exact forRounds_always rounds lo s counts

/-- Through the states `s lo`, ..., `s hi`. -/
theorem forLoop_states {body : Nat → σ → Option σ} {s : Nat → σ} (le : lo ≤ hi)
    (counts : ∀ i, lo ≤ i → i < hi → next i = some (i + 1))
    (each : ∀ i, lo ≤ i → i < hi → body i (s i) = some (s (i + 1))) :
    forLoop next lo hi (always body) (s lo) = some (s hi) := by
  have fold : ∀ rounds i, lo ≤ i → i + rounds ≤ hi →
      (List.range' i rounds).foldlM (fun s i => body i s) (s i) = some (s (i + rounds)) := by
    intro rounds
    induction rounds with
    | zero => exact fun _ _ _ => rfl
    | succ rounds ih =>
        intro i low high
        have rest := ih (i + 1) (by omega) (by omega)
        rw [Nat.add_right_comm i 1 rounds] at rest
        rw [List.range'_succ, List.foldlM_cons, each i low (by omega)]
        exact rest
  rw [forLoop_always le (s lo) counts, fold (hi - lo) lo (Nat.le_refl lo) (by omega),
    Nat.add_sub_cancel' le]

end

end CsappLab.Lib
