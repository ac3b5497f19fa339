/-
# Lib.Transition — partial transition machines and what holds along their runs

A `Machine` has one start state and a partial step that reads an action; the
action carries every choice the step leaves open. `exec` runs a list of actions.
`Reaches ok` are the states reached by runs all of whose steps satisfy `ok`, a
condition on the state before the step and the action; `Reachable` puts no
condition.

`invariant` is the induction over runs, packaged once. `holds_along_iff` is its
two-way form: where one step preserves `P` exactly when a guard holds, a run
keeps `P` at every point exactly when each of its steps meets the guard.
-/
import Mathlib.Data.List.Induction

namespace CsappLab.Lib

set_option autoImplicit false

universe u v w

/-- A start state and a partial step. -/
structure Machine (σ : Type u) (α : Type v) where
  start : σ
  step : σ → α → Option σ

namespace Machine

variable {σ : Type u} {α : Type v} (M : Machine σ α)

/-- Run a list of actions; `none` as soon as one of them has no step. -/
def exec (s : σ) : List α → Option σ
  | [] => some s
  | a :: as => (M.step s a).bind fun t => exec t as

/-- The states reached by runs whose steps all meet `ok`. -/
inductive Reaches (ok : σ → α → Prop) : σ → Prop where
  | start : Reaches ok M.start
  | step {s t : σ} {a : α} : Reaches ok s → ok s a → M.step s a = some t → Reaches ok t

/-- The states reached by any run. -/
abbrev Reachable : σ → Prop := M.Reaches fun _ _ => True

variable {M}

theorem Reaches.mono {ok ok' : σ → α → Prop} (weaker : ∀ s a, ok s a → ok' s a) {s : σ}
    (reached : M.Reaches ok s) : M.Reaches ok' s := by
  induction reached with
  | start => exact .start
  | step _ meets step ih => exact .step ih (weaker _ _ meets) step

theorem Reaches.reachable {ok : σ → α → Prop} {s : σ} (reached : M.Reaches ok s) :
    M.Reachable s :=
  reached.mono fun _ _ _ => trivial

/-- **Induction over runs.** A property of the start state that every step
meeting `ok` preserves holds of every state such runs reach. The states stepped
from may be taken to be reachable. -/
theorem invariant {ok : σ → α → Prop} {P : σ → Prop} (base : P M.start)
    (preserved : ∀ s a t, M.Reaches ok s → P s → ok s a → M.step s a = some t → P t) {s : σ}
    (reached : M.Reaches ok s) : P s := by
  induction reached with
  | start => exact base
  | step before meets step ih => exact preserved _ _ _ before ih meets step

theorem exec_append (s : σ) (as bs : List α) :
    M.exec s (as ++ bs) = (M.exec s as).bind fun t => M.exec t bs := by
  induction as generalizing s with
  | nil => rfl
  | cons a as ih =>
      simp only [List.cons_append, exec]
      cases M.step s a with
      | none => rfl
      | some t => exact ih t

theorem exec_snoc (s : σ) (as : List α) (a : α) :
    M.exec s (as ++ [a]) = (M.exec s as).bind fun t => M.step t a := by
  rw [exec_append]
  congr 1
  funext t
  simp only [exec]
  cases M.step t a <;> rfl

theorem Reaches.exec {s t : σ} (reached : M.Reachable s) {as : List α}
    (ran : M.exec s as = some t) : M.Reachable t := by
  induction as generalizing s with
  | nil => cases ran; exact reached
  | cons a as ih =>
      obtain ⟨u, stepped, rest⟩ := Option.bind_eq_some_iff.1 ran
      exact ih (.step reached trivial stepped) rest

/-- The state after a run from the start is reachable. -/
theorem reachable_of_exec {t : σ} {as : List α} (ran : M.exec M.start as = some t) :
    M.Reachable t :=
  Reaches.exec .start ran

/-- The machine that takes only the steps meeting `ok`. -/
def restrict (M : Machine σ α) (ok : σ → α → Prop) [∀ s a, Decidable (ok s a)] :
    Machine σ α where
  start := M.start
  step s a := if ok s a then M.step s a else none

theorem reaches_of_restrict {ok : σ → α → Prop} [∀ s a, Decidable (ok s a)] {s : σ}
    (reached : (M.restrict ok).Reachable s) : M.Reaches ok s := by
  induction reached with
  | start => exact .start
  | step _ _ stepped ih =>
      simp only [restrict, Option.ite_none_right_eq_some] at stepped
      exact .step ih stepped.1 stepped.2

theorem exec_of_restrict {ok : σ → α → Prop} [∀ s a, Decidable (ok s a)] {s t : σ}
    {as : List α} (ran : (M.restrict ok).exec s as = some t) : M.exec s as = some t := by
  induction as generalizing s with
  | nil => exact ran
  | cons a as ih =>
      obtain ⟨u, stepped, rest⟩ := Option.bind_eq_some_iff.1 ran
      simp only [restrict, Option.ite_none_right_eq_some] at stepped
      exact Option.bind_eq_some_iff.2 ⟨u, stepped.2, ih rest⟩

/-- **Forward simulation.** Where each step of one machine is matched by another on the
same action, so is each run. -/
theorem exec_of_simulation {τ : Type w} {N : Machine τ α} {R : σ → τ → Prop}
    (matched : ∀ s u a t, R s u → M.step s a = some t → ∃ v, N.step u a = some v ∧ R t v)
    {s t : σ} {u : τ} (related : R s u) {as : List α} (ran : M.exec s as = some t) :
    ∃ v, N.exec u as = some v ∧ R t v := by
  induction as generalizing s u with
  | nil =>
      cases ran
      exact ⟨u, rfl, related⟩
  | cons a as ih =>
      obtain ⟨mid, stepped, rest⟩ := Option.bind_eq_some_iff.1 ran
      obtain ⟨v, stepped', related'⟩ := matched s u a mid related stepped
      obtain ⟨v', rest', related''⟩ := ih related' rest
      exact ⟨v', Option.bind_eq_some_iff.2 ⟨v, stepped', rest'⟩, related''⟩

/-- What a run computes about its last state. -/
theorem exec_map {γ : Type w} {s t : σ} {as : List α} (ran : M.exec s as = some t) {f : σ → γ}
    {c : γ} (computed : (M.exec s as).map f = some c) : f t = c := by
  rw [ran] at computed
  exact Option.some.inj computed

/-- **Guards along a run.** If, from states satisfying `P`, a step leads to `P`
exactly when `guard` holds before it, then a run stays within `P` exactly when
each of its steps meets `guard`. -/
theorem holds_along_iff {P : σ → Prop} {guard : σ → α → Prop} (base : P M.start)
    (exact_ : ∀ s a t, M.Reachable s → P s → M.step s a = some t → (P t ↔ guard s a))
    {as : List α} {final : σ} (ran : M.exec M.start as = some final) :
    (∀ pre post mid, as = pre ++ post → M.exec M.start pre = some mid → P mid) ↔
      ∀ pre a post mid, as = pre ++ a :: post → M.exec M.start pre = some mid →
        guard mid a := by
  constructor
  · intro holds pre a post mid split_ before
    have whole : M.exec M.start (pre ++ [a] ++ post) = some final := by
      rw [← ran, split_, List.append_assoc]
      rfl
    rw [exec_append] at whole
    obtain ⟨next, after, -⟩ := Option.bind_eq_some_iff.1 whole
    have stepped : M.step mid a = some next := by
      rw [exec_snoc, before] at after
      exact after
    have now : P mid := holds pre (a :: post) mid split_ before
    have then_ : P next := holds (pre ++ [a]) post next (by simp [split_]) after
    exact (exact_ mid a next (reachable_of_exec before) now stepped).1 then_
  · intro guards pre
    induction pre using List.reverseRecOn with
    | nil =>
        intro post mid _ before
        cases before
        exact base
    | append_singleton pre a ih =>
        intro post mid split_ before
        rw [exec_snoc] at before
        obtain ⟨prev, ranPrev, stepped⟩ := Option.bind_eq_some_iff.1 before
        have split' : as = pre ++ a :: post := by simpa using split_
        exact (exact_ prev a mid (reachable_of_exec ranPrev) (ih _ _ split' ranPrev) stepped).2
          (guards pre a post prev split' ranPrev)

end Machine

end CsappLab.Lib
