/-
# Tsh.Reaping — every child is accounted for

`waitfg` decides to suspend with every signal blocked, so nothing can come
between its look at the job list and the `sigsuspend`: while `main` is suspended
the job it waits for is still the foreground job (`Main.WaitOk`). With `Tracking`
and `Told` this gives the main result, `children_accounted`: no job is added
after its child was reaped, no status is lost, and a `waitfg` that sleeps on a
job that has ended has a SIGCHLD to wake it up.
-/
import CsappLab.Tsh.Tracking

namespace CsappLab.Tsh

set_option autoImplicit false

open CsappLab.Lib

/-- What `waitfg` knows about the pid it waits for. -/
def Main.WaitOk (jobs : Jobs) : Main → Prop
  | .added _ _ pid => 2 ≤ pid
  | .waitfg pid pc ret => 2 ≤ pid ∧ ((Main.waitfg pid pc ret).Suspended → fgpid jobs = pid)
  | _ => True

/-- Unless `main` is suspended, what it knows does not depend on the list. -/
theorem Main.WaitOk.awake {jobs jobs' : Jobs} {main : Main} (ok : main.WaitOk jobs)
    (awake : ¬ main.Suspended) : main.WaitOk jobs' := by
  cases main with
  | added l prev pid => exact ok
  | waitfg pid pc ret => exact ⟨ok.1, fun suspended => absurd suspended awake⟩
  | _ => trivial

theorem waitOk_mainCtl {s : St} {pc : Main} {mask : SigSet} (tracking : Tracking s)
    (ok : s.main.WaitOk s.jobs) (ctl : MainCtl s pc mask) : pc.WaitOk s.jobs := by
  cases ctl with
  | dispatch at_ fresh =>
      rcases fresh.cases with rfl | rfl | ⟨cmd, arg, rfl⟩ | ⟨l, rfl⟩ <;> trivial
  | addjobFails at_ full =>
      have adding := tracking.adding
      rw [at_] at adding
      exact tracking.pids _ adding.1
  | addedFg at_ isFg => rw [at_] at ok; exact ⟨ok, False.elim⟩
  | waitTop at_ => rw [at_] at ok; exact ⟨ok.1, False.elim⟩
  | waitSuspend at_ isFg => rw [at_] at ok; exact ⟨ok.1, fun _ => isFg⟩
  | waitBreak at_ notFg => rw [at_] at ok; exact ⟨ok.1, False.elim⟩
  | waitResume at_ => rw [at_] at ok; exact ⟨ok.1, False.elim⟩
  | _ => trivial

theorem waitOk_main {s t : St} {inp : Input} (tracking : Tracking s) (ok : s.main.WaitOk s.jobs)
    (idle : s.frames = []) (move : MainMove s inp t) : t.main.WaitOk t.jobs := by
  have adding := tracking.adding
  cases move with
  | halt status => exact ok
  | ctl out ctl =>
      have pcOk := waitOk_mainCtl tracking ok ctl
      exact pcOk
  | storeJid at_ =>
      rw [at_] at adding
      exact tracking.pids _ adding.1
  | setFg at_ =>
      rw [at_] at adding
      have there := tracking.child (not_holds_of_idle idle) adding
      exact ⟨tracking.pids _ there, False.elim⟩
  | _ => trivial

theorem HandlerMove.main_eq {s t : St} {f : Frame} {fs : List Frame} {inp : Input}
    (move : HandlerMove s f fs inp t) : t.main = s.main := by
  cases move <;> rfl

/-- **Every step keeps `WaitOk`.** -/
theorem waitOk_step {s t : St} {a : Act} (masks : MasksOk ∅ s) (tracking : Tracking s)
    (ok : s.main.WaitOk s.jobs) (step_ : step s a = some t) : t.main.WaitOk t.jobs := by
  cases step_move step_ with
  | arrive sig handled => exact ok
  | quit => exact ok
  | deliver pending unblocked entry =>
      show (interrupted s).2.WaitOk s.jobs
      rcases interrupted_cases s with same | ⟨pid, prev, orig, ret, at_, resumed⟩
      · rw [same]; exact ok
      · rw [at_] at ok
        rw [resumed]
        exact ⟨ok.1, False.elim⟩
  | child alive moved => exact ok
  | main idle move => exact waitOk_main tracking ok idle move
  | handler top move =>
      rw [move.main_eq]
      exact ok.awake (masks.awake (by simp [top]))

theorem waitOk_reachable {s : St} (reached : tsh.Reachable s) : s.main.WaitOk s.jobs :=
  Machine.invariant (P := fun s => s.main.WaitOk s.jobs) trivial
    (fun _ _ _ before ok _ step_ =>
      waitOk_step (masksOk_reachable before) (tracking_reachable before) ok step_) reached

/-- A `waitfg` that is suspended waits for a child that has not been reaped, and
if the child has a status to report, SIGCHLD is about to be delivered. -/
theorem suspended_wakes {s : St} (reached : tsh.Reachable s) (running : s.status = .running)
    {pid : Int} {prev orig : SigSet} {ret : WaitRet}
    (at_ : s.main = .waitfg pid (.suspended prev orig) ret) :
    ∃ pr, s.kern.procs.lookup pid = some pr ∧
      (pr.unreported = true → ∃ t, step s (.deliver .sigchld) = some t) := by
  have masks := masksOk_reachable reached
  have tracking := tracking_reachable reached
  have waiting := waitOk_reachable reached
  rw [at_] at waiting
  have pos : 2 ≤ pid := waiting.1
  have isFg : fgpid s.jobs = pid := waiting.2 trivial
  have idle : s.frames = [] := by
    by_contra active
    exact masks.awake active (by rw [at_]; trivial)
  have open_ : s.mask = ∅ := by rw [masks.mask_main idle, at_]; rfl
  have some_ : fgpid s.jobs ≠ 0 := by omega
  obtain ⟨i, -, same⟩ := fgpid_entry some_
  rw [isFg] at same
  have there := tracking.child (not_holds_of_idle idle) (i := i) (by omega)
  obtain ⟨pr, found⟩ := lookup_of_mem (same ▸ there)
  refine ⟨pr, found, fun unreported => ?_⟩
  have pending : .sigchld ∈ s.kern.pending := by
    rcases told_reachable reached pid pr found unreported with pending | ⟨f, active, -⟩
    · exact pending
    · rw [idle] at active; cases active
  have unblocked : .sigchld ∉ s.mask := by rw [open_]; exact Finset.notMem_empty _
  simp only [step, running, if_true, deliver, pending, unblocked, not_false_eq_true, and_self,
    entryPoint, Option.map_some, Option.some.injEq, exists_eq']

/-- **Every child is accounted for.** Every listed pid is a child that has not
been reaped, but for the time between its `waitpid` and its `deletejob`; the
child `eval` is adding to the list has not been reaped either, and no
`sigchld_handler` is active that could; a child with a status to report has
SIGCHLD pending or a handler that will still ask for it; and a suspended
`waitfg` cannot miss the end of its job. -/
theorem children_accounted {s : St} (reached : tsh.Reachable s) :
    (∀ i, (s.jobs i).pid ≠ 0 →
      (s.jobs i).pid ∈ s.kern.procs ∨ Reaped s.frames (s.jobs i).pid) ∧
    (∀ pid, s.main.adding = some pid →
      pid ∈ s.kern.procs ∧ ∀ f ∈ s.frames, f.handler.sig ≠ .sigchld) ∧
    (∀ pid pr, s.kern.procs.lookup pid = some pr → pr.unreported = true →
      .sigchld ∈ s.kern.pending ∨ ∃ f ∈ s.frames, f.handler.WillWait) ∧
    ∀ pid prev orig ret, s.main = .waitfg pid (.suspended prev orig) ret → s.status = .running →
      ∃ pr, s.kern.procs.lookup pid = some pr ∧
        (pr.unreported = true → ∃ t, step s (.deliver .sigchld) = some t) := by
  have tracking := tracking_reachable reached
  refine ⟨tracking.listed, fun pid adding => ?_, told_reachable reached,
    fun pid prev orig ret at_ running => suspended_wakes reached running at_⟩
  refine ⟨?_, (masksOk_reachable reached).not_sigchld adding⟩
  have addOk := tracking.adding
  unfold Main.adding at adding
  split at adding
  · rename_i at_; cases adding; rw [at_] at addOk; exact addOk.1
  · rename_i at_; cases adding; rw [at_] at addOk; exact addOk.1
  · rename_i at_; cases adding; rw [at_] at addOk; exact addOk.1
  · cases adding

/-- A foreground job is started, `waitfg` suspends, and the job exits. -/
def endsWhileWaiting : List Act :=
  foreground 2 ++ [.child 2 (.exit 0)]

/-- There SIGCHLD is delivered to the suspended `waitfg`. -/
theorem children_accounted_ended :
    ∃ s t, tsh.exec .start endsWhileWaiting = some s ∧ step s (.deliver .sigchld) = some t := by
  obtain ⟨s, ran⟩ : ∃ s, tsh.exec .start endsWhileWaiting = some s :=
    Option.isSome_iff_exists.1 (by decide +kernel)
  have at_ : s.main = .waitfg 2 (.suspended ∅ Finset.univ) .eval :=
    Machine.exec_map ran (f := St.main) (by decide +kernel)
  have running : s.status = .running :=
    Machine.exec_map ran (f := St.status) (by decide +kernel)
  have ended : (s.kern.procs.lookup 2).map Proc.unreported = some true :=
    Machine.exec_map ran (f := fun s => (s.kern.procs.lookup 2).map Proc.unreported)
      (by decide +kernel)
  obtain ⟨-, -, -, wakes⟩ := children_accounted (Machine.reachable_of_exec ran)
  obtain ⟨pr, found, wake⟩ := wakes 2 ∅ Finset.univ .eval at_ running
  rw [found] at ended
  obtain ⟨t, delivered⟩ := wake (Option.some.inj ended)
  exact ⟨s, t, ran, delivered⟩

end CsappLab.Tsh
