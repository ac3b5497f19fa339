/-
# Tsh.Masks — which signals are blocked where

The shell saves and restores its mask by hand on every path. `MasksOk b` says
what that amounts to for a shell whose `main` loop runs with mask `b`: at each
control point of `main` the mask is the one written at `Main.mask`, each saved
mask is the one that was in force where it was saved, and the same for every
active handler with the mask it was entered under. `masksOk_step` is the step
lemma, over every step of the machine.

From it the stack of handlers is properly nested over the mask `main` was
interrupted under (`MasksOk.nested`), so `Lib.Interrupts` applies: while `main`
blocks SIGCHLD there is no `sigchld_handler` on the stack, and while anything
blocks every signal nothing runs on top of it.
-/
import CsappLab.Lib.Interrupts
import CsappLab.Tsh.Moves

namespace CsappLab.Tsh

set_option autoImplicit false

open CsappLab.Lib

/-- The mask `waitfg` was called with. -/
def WaitRet.mask (b : SigSet) : WaitRet → SigSet
  | .eval => b
  | .bgfg _ => Finset.univ

def WaitRet.SavedOk (b : SigSet) : WaitRet → Prop
  | .eval => True
  | .bgfg prev => prev = b

/-- The mask at a control point of `main`. -/
def Main.mask (b : SigSet) : Main → SigSet
  | .readLine | .jobsBlock | .evalBlock _ | .bgfgBlock _ _ => b
  | .jobsList _ => Finset.univ
  | .evalFork _ _ | .addjob _ _ _ | .addState _ _ _ _ | .addJid _ _ _ _ | .added _ _ _ =>
      insert .sigchld b
  | .waitfg _ .top ret => ret.mask b
  | .waitfg _ (.suspended _ _) _ => ∅
  | .waitfg _ (.check _) _ | .waitfg _ (.resumed _) _ | .waitfg _ (.done _) _ => Finset.univ
  | .bgfgLook _ _ _ | .bgfgKill _ _ _ | .bgfgSet _ _ _ | .bgfgDone _ => Finset.univ

/-- The mask `main` is interrupted under. It differs from the one its handlers
return to inside `sigsuspend`. -/
def Main.openMask (b : SigSet) : Main → SigSet
  | .waitfg _ (.resumed _) _ => ∅
  | pc => pc.mask b

/-- The masks saved in the locals of `main` are the ones in force at the save. -/
def Main.SavedOk (b : SigSet) : Main → Prop
  | .jobsList prev | .evalFork _ prev | .addjob _ prev _ | .addState _ prev _ _
  | .addJid _ prev _ _ | .added _ prev _ | .bgfgLook _ _ prev | .bgfgKill _ _ prev
  | .bgfgSet _ _ prev | .bgfgDone prev => prev = b
  | .waitfg _ .top ret => ret.SavedOk b
  | .waitfg _ (.check prev) ret | .waitfg _ (.resumed prev) ret | .waitfg _ (.done prev) ret =>
      prev = ret.mask b ∧ ret.SavedOk b
  | .waitfg _ (.suspended prev orig) ret =>
      prev = ret.mask b ∧ orig = Finset.univ ∧ ret.SavedOk b
  | _ => True

/-- The mask at a control point of a handler entered with mask `e`. -/
def Handler.mask (e : SigSet) : Handler → SigSet
  | .sigint .enter | .sigint .leave | .sigtstp .enter | .sigtstp .leave => e
  | .sigchld .wait | .sigchld (.got _ _) | .sigchld .leave => e
  | _ => Finset.univ

def Handler.SavedOk (e : SigSet) : Handler → Prop
  | .sigint (.look prev) | .sigint (.kill prev _) | .sigint (.restore prev) => prev = e
  | .sigtstp (.look prev) | .sigtstp (.kill prev _) | .sigtstp (.restore prev) => prev = e
  | .sigchld (.handle _ _ prev) | .sigchld (.restore prev) => prev = e
  | _ => True

/-- The mask a handler interrupted, given the frames below it. -/
def under (b : SigSet) (main : Main) (f : Frame) : List Frame → SigSet
  | [] => main.openMask b
  | _ :: _ => f.saved

/-- Every frame runs under the mask its control point asks for, and what it will
restore is the mask of what it interrupted. -/
def StackOk (b : SigSet) (main : Main) : SigSet → List Frame → Prop
  | m, [] => m = main.mask b
  | m, f :: fs =>
      f.handler.sig ∉ under b main f fs ∧
        m = f.handler.mask (insert f.handler.sig (under b main f fs)) ∧
        f.handler.SavedOk (insert f.handler.sig (under b main f fs)) ∧
        StackOk b main f.saved fs

/-- `main` is blocked in `sigsuspend`. -/
def Main.Suspended : Main → Prop
  | .waitfg _ (.suspended _ _) _ => True
  | _ => False

/-- The masks of a state whose `main` loop runs with mask `b`. -/
structure MasksOk (b : SigSet) (s : St) : Prop where
  saved : s.main.SavedOk b
  stack : StackOk b s.main s.mask s.frames
  awake : s.frames ≠ [] → ¬ s.main.Suspended

theorem Handler.subset_mask (e : SigSet) (h : Handler) : e ⊆ h.mask e := by
  unfold Handler.mask
  split <;> first | exact Finset.Subset.refl e | exact Finset.subset_univ e

/-! ## The stack is nested -/

/-- Each frame's signal with the mask it runs under. -/
def contexts : SigSet → List Frame → List (Signal × SigSet)
  | _, [] => []
  | m, f :: fs => (f.handler.sig, m) :: contexts f.saved fs

theorem mem_contexts {m : SigSet} {fs : List Frame} {f : Frame} (active : f ∈ fs) :
    ∃ m', (f.handler.sig, m') ∈ contexts m fs := by
  induction fs generalizing m with
  | nil => simp at active
  | cons g fs ih =>
      rcases List.mem_cons.1 active with rfl | inRest
      · exact ⟨m, by simp [contexts]⟩
      · obtain ⟨m', found⟩ := ih (m := g.saved) inRest
        exact ⟨m', by simp [contexts, found]⟩

theorem StackOk.nested {b : SigSet} {main : Main} {m : SigSet} {fs : List Frame}
    (ok : StackOk b main m fs) : Interrupts.Nested (main.openMask b) (contexts m fs) := by
  induction fs generalizing m with
  | nil => trivial
  | cons f fs ih =>
      obtain ⟨unblocked, rfl, -, rest⟩ := ok
      have below : Interrupts.current (main.openMask b) (contexts f.saved fs) =
          under b main f fs := by
        cases fs <;> rfl
      refine ⟨?_, ?_, ih rest⟩
      · rw [below]; exact unblocked
      · rw [below]; exact Handler.subset_mask _ _

/-- The frames below the top one carry the mask their own control point asks for. -/
theorem StackOk.mem_context {b : SigSet} {main : Main} {m : SigSet} {fs : List Frame}
    (ok : StackOk b main m fs) {f : Frame} (active : f ∈ fs) :
    ∃ e, (f.handler.sig, f.handler.mask e) ∈ contexts m fs := by
  induction fs generalizing m with
  | nil => simp at active
  | cons g fs ih =>
      obtain ⟨-, rfl, -, rest⟩ := ok
      rcases List.mem_cons.1 active with rfl | inRest
      · exact ⟨_, List.mem_cons_self⟩
      · obtain ⟨e, found⟩ := ih rest inRest
        exact ⟨e, List.mem_cons_of_mem _ found⟩

namespace MasksOk

variable {b : SigSet} {s : St} {f : Frame} {fs : List Frame}

theorem nested (ok : MasksOk b s) :
    Interrupts.Nested (s.main.openMask b) (contexts s.mask s.frames) :=
  ok.stack.nested

/-- While `main` blocks a signal, its handler is not active. -/
theorem no_handler (ok : MasksOk b s) {sig : Signal} (blocked : sig ∈ s.main.openMask b) :
    ∀ f ∈ s.frames, f.handler.sig ≠ sig := by
  intro f active
  obtain ⟨m', found⟩ := mem_contexts (m := s.mask) active
  exact ok.nested.ne_of_blocked blocked found

/-- There is one activation of a handler at most. -/
theorem no_other (ok : MasksOk b s) (top : s.frames = f :: fs) :
    ∀ g ∈ fs, g.handler.sig ≠ f.handler.sig := by
  intro g active
  have nested := ok.nested
  rw [top] at nested
  obtain ⟨m', found⟩ := mem_contexts (m := f.saved) active
  exact nested.ne_innermost found

/-- A handler that has blocked every signal is the top one. -/
theorem blocked_top (ok : MasksOk b s) (top : s.frames = f :: fs) {g : Frame} (active : g ∈ fs)
    (full : ∀ e, g.handler.mask e = Finset.univ) : False := by
  have nested := ok.nested
  have stack := ok.stack
  rw [top] at nested stack
  obtain ⟨e, found⟩ := StackOk.mem_context stack.2.2.2 active
  exact nested.ne_univ found (full e)

/-- While `main` blocks every signal no handler is active. -/
theorem frames_nil (ok : MasksOk b s) (full : s.main.openMask b = Finset.univ) :
    s.frames = [] := by
  have nested := ok.nested
  rw [full] at nested
  have none_ := nested.eq_nil_of_univ
  cases h : s.frames with
  | nil => rfl
  | cons f fs => rw [h] at none_; simp [contexts] at none_

/-- With no handler active the mask is the one of `main`'s control point. -/
theorem mask_main (ok : MasksOk b s) (idle : s.frames = []) : s.mask = s.main.mask b := by
  have stack := ok.stack
  rw [idle] at stack
  exact stack

end MasksOk

/-! ## The step lemma -/

section Step

variable {b : SigSet} {s : St}

theorem masksOk_mainCtl {pc : Main} {mask : SigSet} (saved : s.main.SavedOk b)
    (now : s.mask = s.main.mask b) (ctl : MainCtl s pc mask) :
    pc.SavedOk b ∧ mask = pc.mask b := by
  cases ctl with
  | dispatch at_ fresh =>
      rw [at_] at now
      rw [now]
      rcases fresh.cases with rfl | rfl | ⟨cmd, arg, rfl⟩ | ⟨l, rfl⟩ <;> exact ⟨trivial, rfl⟩
  | jobsBlock at_ => rw [at_] at now; exact ⟨now, rfl⟩
  | jobsList at_ => rw [at_] at saved; exact ⟨trivial, saved⟩
  | evalBlock at_ => rw [at_] at now; rw [now]; exact ⟨rfl, rfl⟩
  | addjobFails at_ full => rw [at_] at saved now; exact ⟨saved, now⟩
  | addedBg at_ isBg => rw [at_] at saved; exact ⟨trivial, saved⟩
  | addedFg at_ isFg => rw [at_] at saved; exact ⟨trivial, saved⟩
  | waitTop at_ => rw [at_] at saved now; exact ⟨⟨now, saved⟩, rfl⟩
  | waitSuspend at_ isFg => rw [at_] at saved now; exact ⟨⟨saved.1, now, saved.2⟩, rfl⟩
  | waitBreak at_ notFg => rw [at_] at saved now; exact ⟨saved, now⟩
  | waitResume at_ => rw [at_] at saved; exact ⟨saved.2, saved.1⟩
  | waitDoneEval at_ => rw [at_] at saved; exact ⟨trivial, saved.1⟩
  | waitDoneBgfg at_ => rw [at_] at saved; exact ⟨saved.2, saved.1⟩
  | bgfgBlock at_ => rw [at_] at now; exact ⟨now, rfl⟩
  | bgfgNone at_ => rw [at_] at saved now; exact ⟨saved, now⟩
  | bgfgStopped at_ found stopped => rw [at_] at saved now; exact ⟨saved, now⟩
  | bgfgRunning at_ found running => rw [at_] at saved now; exact ⟨saved, now⟩
  | bgfgDone at_ => rw [at_] at saved; exact ⟨trivial, saved⟩

/-- A step of `main` leads to the mask and the saved masks of where it goes. -/
theorem masksOk_main {t : St} {inp : Input} (ok : MasksOk b s) (idle : s.frames = [])
    (move : MainMove s inp t) : MasksOk b t := by
  have now := ok.mask_main idle
  have saved := ok.saved
  have fromMain : ∀ {u : St}, u.frames = [] → u.main.SavedOk b → u.mask = u.main.mask b →
      MasksOk b u := fun {u} idle saved mask =>
    ⟨saved, by rw [idle]; exact mask, fun active => absurd idle active⟩
  cases move with
  | halt status => exact ⟨ok.saved, ok.stack, ok.awake⟩
  | ctl out ctl =>
      obtain ⟨saved', mask'⟩ := masksOk_mainCtl saved now ctl
      exact fromMain idle saved' mask'
  | fork at_ returned pos fresh => rw [at_] at saved now; exact fromMain idle saved now
  | storePid at_ free => rw [at_] at saved now; exact fromMain idle saved now
  | storeState at_ => rw [at_] at saved now; exact fromMain idle saved now
  | storeJid at_ => rw [at_] at saved now; exact fromMain idle saved now
  | kill at_ sent => rw [at_] at saved now; exact fromMain idle saved now
  | setFg at_ => rw [at_] at saved now; exact fromMain idle saved now
  | setBg at_ out => rw [at_] at saved now; exact fromMain idle saved now

/-- A handler's control move keeps its signal and leads to the mask of where it
goes; `e` is the mask it was entered under. -/
theorem masksOk_handlerCtl {e : SigSet} {h h' : Handler} {mask : SigSet}
    (now : s.mask = h.mask e) (saved : h.SavedOk e) (ctl : HandlerCtl s h h' mask) :
    h'.sig = h.sig ∧ mask = h'.mask e ∧ h'.SavedOk e := by
  cases ctl with
  | intEnter => exact ⟨rfl, rfl, now⟩
  | intNone none_ => exact ⟨rfl, now, saved⟩
  | intSome some_ => exact ⟨rfl, now, saved⟩
  | intRestore => exact ⟨rfl, saved, trivial⟩
  | tstpEnter => exact ⟨rfl, rfl, now⟩
  | tstpNone none_ => exact ⟨rfl, now, saved⟩
  | tstpRestore => exact ⟨rfl, saved, trivial⟩
  | chldNothing nothing => exact ⟨rfl, now, trivial⟩
  | chldGot => exact ⟨rfl, rfl, now⟩
  | chldRestore => exact ⟨rfl, saved, trivial⟩

/-- A step of the top handler. -/
theorem masksOk_handler {t : St} {f : Frame} {fs : List Frame} {inp : Input} (ok : MasksOk b s)
    (top : s.frames = f :: fs) (move : HandlerMove s f fs inp t) : MasksOk b t := by
  have awake : ¬ s.main.Suspended := ok.awake (by simp [top])
  have stack := ok.stack
  rw [top] at stack
  obtain ⟨unblocked, now, saved, rest⟩ := stack
  obtain ⟨e, entered⟩ : ∃ e, insert f.handler.sig (under b s.main f fs) = e := ⟨_, rfl⟩
  rw [entered] at now saved
  -- the frames below do not change, so neither does the mask interrupted
  have moved : ∀ {u : St} {h : Handler}, u.main = s.main →
      u.frames = { f with handler := h } :: fs → h.sig = f.handler.sig →
      u.mask = h.mask e → h.SavedOk e → MasksOk b u := by
    intro u h main frames sig mask saved'
    have same : under b s.main { f with handler := h } fs = under b s.main f fs := by
      cases fs <;> rfl
    rw [← entered] at mask saved'
    refine ⟨main ▸ ok.saved, ?_, fun _ => main ▸ awake⟩
    rw [frames, main]
    simp only [StackOk, same, sig]
    exact ⟨unblocked, mask, saved', rest⟩
  cases move with
  | halt status => exact ⟨ok.saved, ok.stack, ok.awake⟩
  | ctl ctl =>
      obtain ⟨sig, mask', saved'⟩ := masksOk_handlerCtl now saved ctl
      exact moved rfl rfl sig mask' saved'
  | intKill at_ sent => rw [at_] at now saved; exact moved rfl rfl (by rw [at_]; rfl) now saved
  | tstpSet at_ some_ found =>
      rw [at_] at now saved
      exact moved rfl rfl (by rw [at_]; rfl) now saved
  | tstpKill at_ sent => rw [at_] at now saved; exact moved rfl rfl (by rw [at_]; rfl) now saved
  | waitpid at_ reported =>
      rw [at_] at now
      exact moved rfl rfl (by rw [at_]; rfl) now trivial
  | delete at_ out => rw [at_] at now saved; exact moved rfl rfl (by rw [at_]; rfl) now saved
  | stop at_ found out => rw [at_] at now saved; exact moved rfl rfl (by rw [at_]; rfl) now saved
  | pop leaves => exact ⟨ok.saved, rest, fun _ => awake⟩

theorem entryPoint_spec {sig : Signal} {h : Handler} (entry : entryPoint sig = some h) :
    h.sig = sig ∧ (∀ e, h.mask e = e) ∧ ∀ e, h.SavedOk e := by
  cases sig <;> cases entry <;> exact ⟨rfl, fun _ => rfl, fun _ => trivial⟩

/-- Entering a handler: the mask interrupted is the one in force, and it is what
the frame will restore, except out of `sigsuspend`. -/
theorem masksOk_deliver {sig : Signal} {h : Handler} (ok : MasksOk b s)
    (unblocked : sig ∉ s.mask) (entry : entryPoint sig = some h) :
    MasksOk b { s with
      kern := { s.kern with pending := s.kern.pending.erase sig }
      mask := insert sig s.mask
      main := (interrupted s).2
      frames := ⟨h, (interrupted s).1⟩ :: s.frames } := by
  obtain ⟨isSig, maskId, savedOk⟩ := entryPoint_spec entry
  have saved := ok.saved
  cases frames : s.frames with
  | cons f fs =>
      have stack := ok.stack
      have awake : ¬ s.main.Suspended := ok.awake (by simp [frames])
      rw [frames] at stack
      have same : interrupted s = (s.mask, s.main) := by simp only [interrupted, frames]
      refine ⟨by rw [same]; exact saved, ?_, fun _ => by rw [same]; exact awake⟩
      simp only [same, StackOk, under, isSig, maskId]
      exact ⟨unblocked, trivial, savedOk _, stack⟩
  | nil =>
      have now := ok.mask_main frames
      by_cases suspended : s.main.Suspended
      · -- the empty mask is interrupted, the one from before the call is saved
        unfold Main.Suspended at suspended
        split at suspended
        · rename_i pid prev orig ret at_
          have same : interrupted s = (orig, .waitfg pid (.resumed prev) ret) := by
            simp only [interrupted, frames, at_]
          rw [at_] at saved now
          obtain ⟨prevOk, rfl, retOk⟩ := saved
          simp only [same]
          refine ⟨⟨prevOk, retOk⟩, ?_, fun _ => id⟩
          simp only [StackOk, under, isSig, maskId, now]
          exact ⟨Finset.notMem_empty _, rfl, savedOk _, rfl⟩
        · exact suspended.elim
      · have same : interrupted s = (s.mask, s.main) := by
          unfold interrupted
          split
          · rename_i at_
            rw [at_] at suspended
            exact absurd trivial suspended
          · rfl
        -- at the return from `sigsuspend` everything is blocked
        have open_ : s.main.openMask b = s.mask := by
          rw [now]
          unfold Main.openMask
          split
          · rename_i at_
            rw [at_] at now
            rw [now] at unblocked
            exact absurd (Finset.mem_univ _) unblocked
          · rfl
        refine ⟨by rw [same]; exact saved, ?_, fun _ => by rw [same]; exact suspended⟩
        simp only [same, StackOk, under, isSig, maskId, open_]
        exact ⟨unblocked, trivial, savedOk _, now⟩

/-- **Masks are kept by every step.** -/
theorem masksOk_step {t : St} {a : Act} (ok : MasksOk b s) (step_ : step s a = some t) :
    MasksOk b t := by
  cases step_move step_ with
  | arrive sig handled => exact ⟨ok.saved, ok.stack, ok.awake⟩
  | quit => exact ⟨ok.saved, ok.stack, ok.awake⟩
  | deliver pending unblocked entry => exact masksOk_deliver ok unblocked entry
  | child alive moved => exact ⟨ok.saved, ok.stack, ok.awake⟩
  | main idle move => exact masksOk_main ok idle move
  | handler top move => exact masksOk_handler ok top move

end Step

theorem masksOk_start : MasksOk ∅ .start :=
  ⟨trivial, rfl, fun active => absurd rfl active⟩

/-- In every reachable state the masks are in order over the empty mask. -/
theorem masksOk_reachable {s : St} (reached : tsh.Reachable s) : MasksOk ∅ s :=
  Machine.invariant (P := MasksOk ∅) masksOk_start
    (fun _ _ _ _ ok _ step_ => masksOk_step ok step_) reached

end CsappLab.Tsh
