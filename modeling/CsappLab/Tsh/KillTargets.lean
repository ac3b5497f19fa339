/-
# Tsh.KillTargets — whom the shell signals

`Kill` is called in three places: `sigint_handler` and `sigtstp_handler` signal
the foreground job, `do_bgfg` continues a stopped one. Each picks its target
with every signal blocked, so at the call the job is still listed. That its
process is still there depends on the lookup: a handler that interrupts
`sigchld_handler` between `waitpid` and `Sigprocmask` finds the job of a process
that has just been reaped. `kills_along_iff` says that this is the only way to
signal a process group that is gone.
-/
import CsappLab.Tsh.Listing

namespace CsappLab.Tsh

set_option autoImplicit false

open CsappLab.Lib

/-- The call `Kill(target, sig)` the shell's code is at. -/
def St.issued (s : St) : Option (Int × Signal) :=
  match s.frames with
  | [] =>
      match s.main with
      | .bgfgKill _ i _ => some (-(s.jobs i).pid, .sigcont)
      | _ => none
  | f :: _ =>
      match f.handler with
      | .sigint (.kill _ pid) => some (-pid, .sigint)
      | .sigtstp (.kill _ pid) => some (-pid, .sigtstp)
      | _ => none

/-- The call is for the group of a listed job whose process has not been reaped.
`sigtstp_handler` has set the job's state by then. -/
def KillOk (s : St) : Prop :=
  ∀ target sig, s.issued = some (target, sig) →
    ∃ i, target = -(s.jobs i).pid ∧ 2 ≤ (s.jobs i).pid ∧ (s.jobs i).pid ∈ s.kern.procs ∧
      (s.jobs i).state = if sig = .sigint then .fg else .st

/-- A step that decides on a call picks a foreground job to interrupt or to stop,
a stopped job to continue. -/
def PicksOk (s t : St) : Prop :=
  ∀ target sig, t.issued = some (target, sig) → s.issued = none →
    ∃ i, target = -(s.jobs i).pid ∧ (s.jobs i).state = if sig = .sigcont then .st else .fg

/-- The control points at which a handler looks for the foreground job. -/
def Handler.Looks : Handler → Prop
  | .sigint (.look _) | .sigtstp (.look _) => True
  | _ => False

instance : DecidablePred Handler.Looks := fun h => by
  unfold Handler.Looks
  split <;> infer_instance

/-- Where a handler looks for the foreground job, the job's process has not been
reaped by a `sigchld_handler` it interrupts. -/
def LooksAtLive (s : St) : Act → Prop
  | .shell _ =>
      match s.frames with
      | [] => True
      | f :: fs => f.handler.Looks → fgpid s.jobs ≠ 0 → ¬ Reaped fs (fgpid s.jobs)
  | _ => True

theorem issued_nil {s : St} {target : Int} {sig : Signal}
    (call : s.issued = some (target, sig)) (idle : s.frames = []) :
    ∃ cmd i prev, s.main = .bgfgKill cmd i prev ∧ target = -(s.jobs i).pid ∧ sig = .sigcont := by
  unfold St.issued at call
  rw [idle] at call
  simp only at call
  split at call
  · rename_i at_
    cases call
    exact ⟨_, _, _, at_, rfl, rfl⟩
  · cases call

theorem issued_cons {s : St} {f : Frame} {fs : List Frame} (top : s.frames = f :: fs)
    {target : Int} {sig : Signal} (call : s.issued = some (target, sig)) :
    ∃ prev pid, target = -pid ∧
      ((f.handler = .sigint (.kill prev pid) ∧ sig = .sigint) ∨
        (f.handler = .sigtstp (.kill prev pid) ∧ sig = .sigtstp)) := by
  unfold St.issued at call
  rw [top] at call
  simp only at call
  split at call
  · rename_i at_
    cases call
    exact ⟨_, _, rfl, Or.inl ⟨at_, rfl⟩⟩
  · rename_i at_
    cases call
    exact ⟨_, _, rfl, Or.inr ⟨at_, rfl⟩⟩
  · cases call

/-- A handler that is not at its call issues none. -/
theorem issued_none {s : St} {f : Frame} {fs : List Frame} (top : s.frames = f :: fs)
    (int : ∀ prev pid, f.handler ≠ .sigint (.kill prev pid))
    (tstp : ∀ prev pid, f.handler ≠ .sigtstp (.kill prev pid)) : s.issued = none := by
  cases call : s.issued with
  | none => rfl
  | some c =>
      obtain ⟨prev, pid, -, ⟨at_, -⟩ | ⟨at_, -⟩⟩ := issued_cons top call
      · exact absurd at_ (int prev pid)
      · exact absurd at_ (tstp prev pid)

/-- Under an active handler nothing is at a call: a call is made with every
signal blocked. -/
theorem MasksOk.issued_below {s t : St} {f : Frame} {fs : List Frame} (ok : MasksOk ∅ s)
    (top : s.frames = f :: fs) (frames : t.frames = fs) (main : t.main = s.main) :
    t.issued = none := by
  cases fs with
  | nil =>
      cases call : t.issued with
      | none => rfl
      | some c =>
          obtain ⟨cmd, i, prev, at_, -, -⟩ := issued_nil call frames
          have idle := ok.frames_nil (by rw [← main, at_]; rfl)
          rw [top] at idle
          cases idle
  | cons g gs =>
      apply issued_none frames
      · intro prev pid at_
        exact ok.blocked_top top List.mem_cons_self fun e => by rw [at_]; rfl
      · intro prev pid at_
        exact ok.blocked_top top List.mem_cons_self fun e => by rw [at_]; rfl

theorem KillOk.of_none {s : St} (none_ : s.issued = none) : KillOk s := by
  intro target sig call
  rw [none_] at call
  cases call

/-- The call in progress does not change when only children and output do. -/
theorem KillOk.keep {s t : St} (ok : KillOk s) (jobs : t.jobs = s.jobs)
    (frames : t.frames = s.frames) (main : t.main = s.main)
    (alive : ∀ p, p ∈ s.kern.procs → p ∈ t.kern.procs) : KillOk t := by
  have same : t.issued = s.issued := by
    simp only [St.issued, frames, main, jobs]
  intro target sig call
  rw [same] at call
  obtain ⟨i, target_, pos, there, state⟩ := ok target sig call
  exact ⟨i, by rw [jobs]; exact target_, by rw [jobs]; exact pos,
    by rw [jobs]; exact alive _ there, by rw [jobs]; exact state⟩

/-- `do_bgfg` decides to continue a job. -/
theorem killOk_main {s t : St} {inp : Input} (ok : KillOk s) (tracking : Tracking s)
    (idle : s.frames = []) (move : MainMove s inp t) : KillOk t := by
  cases move with
  | halt status => exact ok.keep rfl rfl rfl fun _ => id
  | ctl out ctl =>
      intro target sig call
      obtain ⟨cmd, i, prev, at_, rfl, rfl⟩ := issued_nil call idle
      simp only at at_
      subst at_
      have addOk := addOk_mainCtl tracking ctl
      have occupied : (s.jobs i).pid ≠ 0 := addOk.1
      have there := tracking.child (not_holds_of_idle idle) occupied
      exact ⟨i, rfl, tracking.pids _ there, there, addOk.2⟩
  | fork at_ returned pos fresh =>
      apply KillOk.of_none
      simp only [St.issued, idle]
  | storePid at_ free => apply KillOk.of_none; simp only [St.issued, idle]
  | storeState at_ => apply KillOk.of_none; simp only [St.issued, idle]
  | storeJid at_ => apply KillOk.of_none; simp only [St.issued, idle]
  | kill at_ sent => apply KillOk.of_none; simp only [St.issued, idle]
  | setFg at_ => apply KillOk.of_none; simp only [St.issued, idle]
  | setBg at_ out => apply KillOk.of_none; simp only [St.issued, idle]

/-- A handler that is not looking for the foreground job does not decide on a call. -/
theorem killOk_handler {s t : St} {f : Frame} {fs : List Frame} {inp : Input} (ok : KillOk s)
    (masks : MasksOk ∅ s) (top : s.frames = f :: fs) (elsewhere : ¬ f.handler.Looks)
    (move : HandlerMove s f fs inp t) : KillOk t := by
  cases move with
  | halt status => exact ok.keep rfl rfl rfl fun _ => id
  | ctl ctl =>
      apply KillOk.of_none
      generalize f.handler = h' at ctl elsewhere
      cases ctl with
      | intSome some_ => exact absurd trivial elsewhere
      | _ => rfl
  | intKill at_ sent => exact .of_none rfl
  | tstpSet at_ some_ found => rw [at_] at elsewhere; exact absurd trivial elsewhere
  | tstpKill at_ sent => exact .of_none rfl
  | waitpid at_ reported => exact .of_none rfl
  | delete at_ out => exact .of_none rfl
  | stop at_ found out => exact .of_none rfl
  | pop leaves => exact .of_none (masks.issued_below top rfl rfl)

/-- Where a handler looks for it, the foreground job's process has been reaped
or is still there. -/
theorem fg_live_iff {s : St} {f : Frame} {fs : List Frame} (tracking : Tracking s)
    (top : s.frames = f :: fs) (looks : f.handler.current = none) (some_ : fgpid s.jobs ≠ 0) :
    ¬ Reaped fs (fgpid s.jobs) ↔ fgpid s.jobs ∈ s.kern.procs := by
  have same : ∀ c, Holds s.frames c ↔ Holds fs c := by
    intro c
    rw [top, holds_cons, looks]
    simp
  constructor
  · intro notReaped
    obtain ⟨i, -, pid⟩ := fgpid_entry some_
    rcases tracking.listed i (by omega) with there | ⟨ending, holds⟩
    · rw [pid] at there
      exact there
    · rw [pid] at holds
      exact absurd ⟨ending, (same _).1 holds⟩ notReaped
  · rintro there ⟨ending, holds⟩
    exact tracking.got _ _ ((same _).2 holds) there

theorem Handler.Looks.cases {h : Handler} (looks : h.Looks) :
    (∃ prev, h = .sigint (.look prev)) ∨ ∃ prev, h = .sigtstp (.look prev) := by
  unfold Handler.Looks at looks
  split at looks
  · exact Or.inl ⟨_, rfl⟩
  · exact Or.inr ⟨_, rfl⟩
  · exact looks.elim

/-- A call for the group of a job in the state that goes with the signal is in order
if the job's process is there. -/
theorem killOk_call_iff {s t : St} (tracking : Tracking s) {i : Fin MAXJOBS} {pid : Int}
    {sig : Signal} (call : t.issued = some (-pid, sig)) (kern : t.kern = s.kern)
    (listed : (t.jobs i).pid = pid)
    (state : (t.jobs i).state = if sig = .sigint then .fg else .st) :
    KillOk t ↔ pid ∈ s.kern.procs := by
  constructor
  · intro ok
    obtain ⟨j, target, -, there, -⟩ := ok _ _ call
    have samePid : (t.jobs j).pid = pid := by omega
    rw [samePid, kern] at there
    exact there
  · intro there target sig' call'
    rw [call] at call'
    cases call'
    exact ⟨i, by rw [listed], listed ▸ tracking.pids _ there, by rw [listed, kern]; exact there,
      state⟩

/-- **A handler looks for the foreground job.** Its call will be in order exactly
when the process has not been reaped. -/
theorem killOk_look_iff {s t : St} {f : Frame} {fs : List Frame} (tracking : Tracking s)
    (top : s.frames = f :: fs) (looks : f.handler.Looks)
    (step_ : step s (.shell .go) = some t) :
    KillOk t ↔ (fgpid s.jobs ≠ 0 → ¬ Reaped fs (fgpid s.jobs)) := by
  have running := step_running step_
  have free : f.handler.current = none := by
    rcases looks.cases with ⟨prev, at_⟩ | ⟨prev, at_⟩
    · rw [at_]; rfl
    · rw [at_]; rfl
  by_cases some_ : fgpid s.jobs = 0
  · -- no foreground job, no call
    have quiet : t.issued = none := by
      rcases looks.cases with ⟨prev, at_⟩ | ⟨prev, at_⟩
      · simp only [step, running, if_true, top, handlerStep, at_, sigintStep, some_, St.handler,
          Option.some.injEq] at step_
        rw [← step_]
        rfl
      · simp only [step, running, if_true, top, handlerStep, at_, sigtstpStep, some_, St.handler,
          Option.some.injEq] at step_
        rw [← step_]
        rfl
    exact ⟨fun _ some_' => absurd some_ some_', fun _ => .of_none quiet⟩
  · obtain ⟨i, isFg, pid⟩ := fgpid_entry some_
    have occupied := tracking.wf.occupied (i := i) (by rw [isFg]; rintro ⟨⟩)
    have found := tracking.wf.getjobpid (by omega) pid
    have goal : KillOk t ↔ fgpid s.jobs ∈ s.kern.procs := by
      rcases looks.cases with ⟨prev, at_⟩ | ⟨prev, at_⟩
      · simp only [step, running, if_true, top, handlerStep, at_, sigintStep, some_, if_false,
          St.handler, Option.some.injEq] at step_
        subst step_
        exact killOk_call_iff tracking rfl rfl pid isFg
      · simp only [step, running, if_true, top, handlerStep, at_, sigtstpStep, some_, if_false,
          found, St.handler, St.setJobs, Option.some.injEq] at step_
        subst step_
        exact killOk_call_iff tracking rfl rfl
          ((setState_pid _ _ _ _).trans pid) (setState_st.2 (.inl rfl))
    rw [goal, ← fg_live_iff tracking top free some_]
    exact ⟨fun notReaped _ => notReaped, fun guard => guard some_⟩

theorem look_go {s t : St} {f : Frame} {fs : List Frame} {inp : Input}
    (top : s.frames = f :: fs) (looks : f.handler.Looks)
    (step_ : step s (.shell inp) = some t) : inp = .go := by
  simp only [step, step_running step_, if_true, top] at step_
  rcases looks.cases with ⟨prev, at_⟩ | ⟨prev, at_⟩
  · cases inp with
    | go => rfl
    | _ => simp [handlerStep, at_, sigintStep] at step_
  · cases inp with
    | go => rfl
    | _ => simp [handlerStep, at_, sigtstpStep] at step_

/-- **One step.** From calls that are in order, a step leads to calls in order
exactly when it does not look at a job whose process is gone. -/
theorem killOk_step_iff {s t : St} {a : Act} (reached : tsh.Reachable s) (ok : KillOk s)
    (step_ : step s a = some t) : KillOk t ↔ LooksAtLive s a := by
  have tracking := tracking_reachable reached
  have masks := masksOk_reachable reached
  cases step_move step_ with
  | arrive sig handled =>
      exact ⟨fun _ => trivial, fun _ => ok.keep rfl rfl rfl fun _ => id⟩
  | quit => exact ⟨fun _ => trivial, fun _ => ok.keep rfl rfl rfl fun _ => id⟩
  | @deliver sig h pending unblocked entry =>
      refine ⟨fun _ => trivial, fun _ => .of_none ?_⟩
      cases sig <;> cases entry <;> rfl
  | child alive moved =>
      refine ⟨fun _ => trivial, fun _ => ok.keep rfl rfl rfl fun p => ?_⟩
      exact ((Kern.evolves_child alive moved).alive p).2
  | main idle move =>
      refine ⟨fun _ => ?_, fun _ => killOk_main ok tracking idle move⟩
      simp only [LooksAtLive, idle]
  | @handler inp _ f fs top move =>
      have unfolded : LooksAtLive s (.shell inp) ↔
          (f.handler.Looks → fgpid s.jobs ≠ 0 → ¬ Reaped fs (fgpid s.jobs)) := by
        simp only [LooksAtLive, top]
      rw [unfolded]
      by_cases looks : f.handler.Looks
      · have go := look_go top looks step_
        subst go
        rw [killOk_look_iff tracking top looks step_]
        exact ⟨fun guard _ => guard, fun guard => guard looks⟩
      · exact ⟨fun _ looks' => absurd looks' looks,
          fun _ => killOk_handler ok masks top looks move⟩

theorem picksOk_step {s t : St} {a : Act} (reached : tsh.Reachable s)
    (step_ : step s a = some t) : PicksOk s t := by
  have masks := masksOk_reachable reached
  have tracking := tracking_reachable reached
  intro target sig call before
  have same : ∀ {u : St}, u.frames = s.frames → u.main = s.main → u.jobs = s.jobs →
      u.issued ≠ some (target, sig) := by
    intro u frames main jobs call'
    have unchanged : u.issued = s.issued := by simp only [St.issued, frames, main, jobs]
    rw [unchanged, before] at call'
    cases call'
  cases step_move step_ with
  | arrive sig handled => exact absurd call (same rfl rfl rfl)
  | quit => exact absurd call (same rfl rfl rfl)
  | @deliver sig h pending unblocked entry => cases sig <;> cases entry <;> cases call
  | child alive moved => exact absurd call (same rfl rfl rfl)
  | main idle move =>
      cases move with
      | halt status => exact absurd call (same rfl rfl rfl)
      | ctl out ctl =>
          obtain ⟨cmd, i, prev, at_, rfl, rfl⟩ := issued_nil call idle
          simp only at at_
          subst at_
          have addOk := addOk_mainCtl tracking ctl
          exact ⟨i, rfl, addOk.2⟩
      | fork at_ returned pos fresh => simp [St.issued, idle] at call
      | storePid at_ free => simp [St.issued, idle] at call
      | storeState at_ => simp [St.issued, idle] at call
      | storeJid at_ => simp [St.issued, idle] at call
      | kill at_ sent => simp [St.issued, idle] at call
      | setFg at_ => simp [St.issued, idle] at call
      | setBg at_ out => simp [St.issued, idle] at call
  | @handler inp _ f fs top move =>
      cases move with
      | halt status => exact absurd call (same rfl rfl rfl)
      | @ctl h mask ctl =>
          generalize f.handler = h' at ctl
          cases ctl with
          | intSome some_ =>
              cases call
              obtain ⟨i, isFg, pid⟩ := fgpid_entry some_
              exact ⟨i, by rw [pid], isFg⟩
          | _ => cases call
      | intKill at_ sent => cases call
      | @tstpSet prev i at_ some_ found =>
          cases call
          have pid := (getjobpid_eq_some found).2
          exact ⟨i, by rw [pid], tracking.wf.fg_slot some_ found⟩
      | tstpKill at_ sent => cases call
      | waitpid at_ reported => cases call
      | delete at_ out => cases call
      | stop at_ found out => cases call
      | pop leaves =>
          have quiet := masks.issued_below (t := { s with frames := fs, mask := f.saved }) top
            rfl rfl
          rw [quiet] at call
          cases call

/-- **Whom the shell signals.** Along any run, the shell picks a foreground job
for SIGINT and SIGTSTP and a stopped job for SIGCONT; and each call is for the
group of a listed job whose process has not been reaped, exactly when no handler
looks for the foreground job while an interrupted `sigchld_handler` holds the
status of its reaped process. -/
theorem kills_along_iff {as : List Act} {final : St} (ran : tsh.exec .start as = some final) :
    (∀ pre a post mid next, as = pre ++ a :: post → tsh.exec .start pre = some mid →
      step mid a = some next → PicksOk mid next) ∧
    ((∀ pre post mid, as = pre ++ post → tsh.exec .start pre = some mid → KillOk mid) ↔
      ∀ pre a post mid, as = pre ++ a :: post → tsh.exec .start pre = some mid →
        LooksAtLive mid a) := by
  constructor
  · intro pre a post mid next _ before step_
    exact picksOk_step (Machine.reachable_of_exec before) step_
  · exact Machine.holds_along_iff (M := tsh) (P := KillOk) (.of_none rfl)
      (fun s a t reached ok step_ => killOk_step_iff reached ok step_) ran

/-! ## Runs -/

/-- Ctrl-c for a foreground job, up to the call of `Kill`. -/
def interruptsJob : List Act :=
  foreground 2 ++ [.arrive .sigint, .deliver .sigint, .shell .go, .shell .go]

/-- The call is for the job. -/
theorem kills_along_interrupt :
    ∃ final, tsh.exec .start interruptsJob = some final ∧
      final.issued = some (-2, .sigint) ∧
      ∃ mid, tsh.exec .start (interruptsJob.dropLast) = some mid ∧ PicksOk mid final := by
  obtain ⟨final, ran⟩ : ∃ s, tsh.exec .start interruptsJob = some s :=
    Option.isSome_iff_exists.1 (by decide +kernel)
  obtain ⟨mid, before⟩ : ∃ s, tsh.exec .start interruptsJob.dropLast = some s :=
    Option.isSome_iff_exists.1 (by decide +kernel)
  have split_ : interruptsJob = interruptsJob.dropLast ++ [.shell .go] := by decide
  have stepped : step mid (.shell .go) = some final := by
    rw [split_, Machine.exec_snoc, before] at ran
    exact ran
  exact ⟨final, ran, Machine.exec_map ran (f := St.issued) (by decide +kernel), mid, before,
    (kills_along_iff ran).1 _ _ _ mid final split_ before stepped⟩

/-- The job exits; `sigchld_handler` has reaped it when ctrl-c comes in. -/
def interruptsReaped : List Act :=
  foreground 2 ++ [.child 2 (.exit 0), .deliver .sigchld, .shell (.waited 2), .arrive .sigint,
    .deliver .sigint, .shell .go, .shell .go]

/-- **The shell signals a group whose process has been reaped.** -/
theorem kill_after_reaping :
    ∃ s, tsh.exec .start interruptsReaped = some s ∧ s.issued = some (-2, .sigint) ∧
      2 ∉ s.kern.procs ∧ ¬ KillOk s := by
  obtain ⟨s, ran⟩ : ∃ s, tsh.exec .start interruptsReaped = some s :=
    Option.isSome_iff_exists.1 (by decide +kernel)
  have call : s.issued = some (-2, .sigint) :=
    Machine.exec_map ran (f := St.issued) (by decide +kernel)
  have gone : decide (2 ∉ s.kern.procs) = true :=
    Machine.exec_map ran (f := fun s => decide (2 ∉ s.kern.procs)) (by decide +kernel)
  refine ⟨s, ran, call, of_decide_eq_true gone, fun ok => ?_⟩
  obtain ⟨i, target, -, there, -⟩ := ok _ _ call
  have pid : (s.jobs i).pid = 2 := by omega
  rw [pid] at there
  exact of_decide_eq_true gone there

end CsappLab.Tsh
