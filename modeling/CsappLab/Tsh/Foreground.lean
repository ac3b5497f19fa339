/-
# Tsh.Foreground — one foreground job at most

At each control point of `main` at most one pid may be in state `FG`: the job
`eval` has just added, or the one `waitfg` waits for (`Main.owner`). Handlers
only take jobs out of `FG`; `main` puts one in only where it owns none. So
`waitfg`, which leaves its loop when `fgpid` is not its own pid, leaves it with
no foreground job at all.

So a child starts without a foreground job in its copy of the job list, and the
handlers it inherits send nothing on.

The same case analysis gives the state changes an entry can go through while it
lives: those the source lists for its job states, and `BG` to `ST`.
-/
import CsappLab.Tsh.Reaping

namespace CsappLab.Tsh

set_option autoImplicit false

open CsappLab.Lib

/-- The pid that may be in the foreground. -/
def Main.owner : Main → Option Int
  | .addJid l _ pid _ | .added l _ pid => if l.isBg then none else some pid
  | .waitfg _ (.done _) _ => none
  | .waitfg pid _ _ => some pid
  | _ => none

/-- Only the owner is in state `FG`. -/
def FgOk (s : St) : Prop :=
  ∀ i, (s.jobs i).state = .fg → s.main.owner = some (s.jobs i).pid

/-- The state changes of a listed job, with the command or signal behind them. -/
inductive StateChange : JobState → JobState → Prop where
  | none (state : JobState) : StateChange state state
  | ctrlz : StateChange .fg .st
  | stopped : StateChange .bg .st
  | fg : StateChange .st .fg
  | bg : StateChange .st .bg
  | raised : StateChange .bg .fg

theorem FgOk.none {s : St} (ok : FgOk s) (free : s.main.owner = none) (i : Fin MAXJOBS) :
    (s.jobs i).state ≠ .fg := by
  intro isFg
  have owned := ok i isFg
  rw [free] at owned
  cases owned

theorem FgOk.of_none {s : St} (none_ : ∀ i, (s.jobs i).state ≠ .fg) : FgOk s :=
  fun i isFg => absurd isFg (none_ i)

/-- The owner is the answer of `fgpid`, if anything is in the foreground. -/
theorem FgOk.fgpid {s : St} (ok : FgOk s) (tracking : Tracking s) {pid : Int}
    (owner : s.main.owner = some pid) {i : Fin MAXJOBS} (isFg : (s.jobs i).state = .fg) :
    fgpid s.jobs = pid := by
  have some_ : Tsh.fgpid s.jobs ≠ 0 := by
    unfold Tsh.fgpid
    split
    · rename_i k found
      have occupied := tracking.wf.occupied (i := k)
        (by rw [show (s.jobs k).state = .fg by simpa using (Fin.find?_eq_some_iff.1 found).1]
            rintro ⟨⟩)
      omega
    · rename_i none_
      have := Fin.find?_eq_none_iff.1 none_ i
      simp [isFg] at this
  obtain ⟨k, isFg', same⟩ := fgpid_entry some_
  have owned := ok k isFg'
  rw [owner] at owned
  have := Option.some.inj owned
  omega

/-- A step of a handler, of the kernel or of a child: nothing comes into the
foreground, and nothing changes its owner. -/
theorem FgOk.keep {s t : St} (ok : FgOk s)
    (fewer : ∀ i, (t.jobs i).state = .fg →
      (s.jobs i).state = .fg ∧ (t.jobs i).pid = (s.jobs i).pid)
    (owner : ∀ pid, s.main.owner = some pid → t.main.owner = some pid) : FgOk t := by
  intro i isFg
  obtain ⟨before, same⟩ := fewer i isFg
  rw [same]
  exact owner _ (ok i before)

theorem setState_fg {jobs : Jobs} {i j : Fin MAXJOBS} {state : JobState} (out : state ≠ .fg)
    (isFg : (setState jobs i state j).state = .fg) :
    (jobs j).state = .fg ∧ (setState jobs i state j).pid = (jobs j).pid := by
  refine ⟨?_, setState_pid _ _ _ _⟩
  by_cases same : j = i
  · subst same
    simp only [setState, Function.update_self] at isFg
    exact absurd isFg out
  · simpa only [setState, Function.update_of_ne same] using isFg

theorem fgOk_mainCtl {s : St} {pc : Main} {mask : SigSet} (ok : FgOk s) (tracking : Tracking s)
    (ctl : MainCtl s pc mask) (i : Fin MAXJOBS) (isFg : (s.jobs i).state = .fg) :
    pc.owner = some (s.jobs i).pid := by
  have owned := ok i isFg
  cases ctl with
  | addedBg at_ isBg => rw [at_] at owned; simp [Main.owner, isBg] at owned
  | addedFg at_ notBg => rw [at_] at owned; simpa [Main.owner, notBg] using owned
  | waitTop at_ => rw [at_] at owned; exact owned
  | waitSuspend at_ waits => rw [at_] at owned; exact owned
  | @waitBreak pid ret prev at_ notFg =>
      exact absurd (ok.fgpid tracking (by rw [at_]; rfl) isFg) notFg
  | waitResume at_ => rw [at_] at owned; exact owned
  | dispatch at_ fresh => rw [at_] at owned; cases owned
  | jobsBlock at_ => rw [at_] at owned; cases owned
  | jobsList at_ => rw [at_] at owned; cases owned
  | evalBlock at_ => rw [at_] at owned; cases owned
  | addjobFails at_ full => rw [at_] at owned; cases owned
  | waitDoneEval at_ => rw [at_] at owned; cases owned
  | waitDoneBgfg at_ => rw [at_] at owned; cases owned
  | bgfgBlock at_ => rw [at_] at owned; cases owned
  | bgfgNone at_ => rw [at_] at owned; cases owned
  | bgfgStopped at_ found stopped => rw [at_] at owned; cases owned
  | bgfgRunning at_ found running => rw [at_] at owned; cases owned
  | bgfgDone at_ => rw [at_] at owned; cases owned

theorem fgOk_main {s t : St} {inp : Input} (ok : FgOk s) (tracking : Tracking s)
    (move : MainMove s inp t) : FgOk t := by
  have adding := tracking.adding
  cases move with
  | halt status => exact ok
  | ctl out ctl =>
      intro i isFg
      exact fgOk_mainCtl ok tracking ctl i isFg
  | fork at_ returned pos fresh => exact .of_none (ok.none (by rw [at_]; rfl))
  | @storePid l prev pid i at_ free =>
      apply FgOk.of_none
      intro j isFg
      apply ok.none (by rw [at_]; rfl) j
      by_cases same : j = i
      · subst same; simpa [St.jobs, JobList.storePid] using isFg
      · simpa [St.jobs, JobList.storePid, same] using isFg
  | @storeState l prev pid i at_ =>
      rw [at_] at adding
      intro j isFg
      by_cases same : j = i
      · subst same
        have mine : (s.jobs j).pid = pid := by rw [adding.2]
        have foreground : l.isBg = false := by
          cases isBg : l.isBg with
          | false => rfl
          | true => simp [St.jobs, JobList.storeState, setState, isBg] at isFg
        show Main.owner (.addJid l prev pid j) = _
        rw [show (St.jobs _ j).pid = (s.jobs j).pid from setState_pid _ _ _ _, mine]
        simp [Main.owner, foreground]
      · refine absurd ?_ (ok.none (by rw [at_]; rfl) j)
        simpa [St.jobs, JobList.storeState, setState, same] using isFg
  | @storeJid l prev pid i at_ =>
      refine ok.keep (fun j isFg => ?_) (fun p owner => ?_)
      · exact ⟨(storeJid_state _ _ _ _).symm.trans isFg, storeJid_pid _ _ _ _⟩
      · rw [at_] at owner
        exact owner
  | kill at_ sent => exact .of_none (ok.none (by rw [at_]; rfl))
  | @setFg i prev at_ =>
      intro j isFg
      by_cases same : j = i
      · subst same
        show some (s.jobs j).pid = some (setState s.jobs j .fg j).pid
        rw [setState_pid]
      · refine absurd ?_ (ok.none (by rw [at_]; rfl) j)
        simpa [St.jobs, setState, same] using isFg
  | @setBg i prev at_ out =>
      apply FgOk.of_none
      intro j isFg
      have notFg : JobState.bg ≠ .fg := by rintro ⟨⟩
      exact ok.none (by rw [at_]; rfl) j (setState_fg notFg isFg).1

theorem fgOk_handler {s t : St} {f : Frame} {fs : List Frame} {inp : Input} (ok : FgOk s)
    (tracking : Tracking s) (move : HandlerMove s f fs inp t) : FgOk t := by
  cases move with
  | halt status => exact ok
  | ctl ctl => exact ok
  | intKill at_ sent => exact ok
  | tstpSet at_ some_ found => exact ok.keep (fun j => setState_fg (by rintro ⟨⟩)) fun _ => id
  | tstpKill at_ sent => exact ok
  | waitpid at_ reported => exact ok
  | @delete pid ending prev at_ out =>
      refine ok.keep (fun j isFg => ?_) fun _ => id
      have same : (deletejob s.list pid).2.jobs j = s.list.jobs j :=
        deletejob_live tracking.wf (by rw [isFg]; rintro ⟨⟩)
      have state := congrArg Job.state same
      exact ⟨state.symm.trans isFg, congrArg Job.pid same⟩
  | stop at_ found out => exact ok.keep (fun j => setState_fg (by rintro ⟨⟩)) fun _ => id
  | pop leaves => exact ok

/-- **Every step keeps `FgOk`.** -/
theorem fgOk_step {s t : St} {a : Act} (ok : FgOk s) (tracking : Tracking s)
    (step_ : step s a = some t) : FgOk t := by
  cases step_move step_ with
  | arrive sig handled => exact ok
  | quit => exact ok
  | deliver pending unblocked entry =>
      refine ok.keep (fun _ isFg => ⟨isFg, rfl⟩) fun pid owner => ?_
      show (interrupted s).2.owner = some pid
      rcases interrupted_cases s with same | ⟨p, prev, orig, ret, at_, resumed⟩
      · rw [same]; exact owner
      · rw [at_] at owner
        rw [resumed]
        exact owner
  | child alive moved => exact ok
  | main idle move => exact fgOk_main ok tracking move
  | handler top move => exact fgOk_handler ok tracking move

theorem fgOk_reachable {s : St} (reached : tsh.Reachable s) : FgOk s :=
  Machine.invariant (P := FgOk) (.of_none fun _ isFg => by cases isFg)
    (fun _ _ _ before ok _ step_ => fgOk_step ok (tracking_reachable before) step_) reached

/-- The foreground job is the answer of `fgpid`. -/
theorem FgOk.listed_iff {s : St} (ok : FgOk s) (tracking : Tracking s) {pid : Int} :
    (∃ i, (s.jobs i).pid = pid ∧ (s.jobs i).state = .fg) ↔
      Tsh.fgpid s.jobs ≠ 0 ∧ pid = Tsh.fgpid s.jobs := by
  constructor
  · rintro ⟨i, rfl, isFg⟩
    have answer := ok.fgpid tracking (ok i isFg) isFg
    have occupied := tracking.wf.occupied (i := i) (by rw [isFg]; rintro ⟨⟩)
    omega
  · rintro ⟨some_, rfl⟩
    obtain ⟨i, isFg, same⟩ := fgpid_entry some_
    exact ⟨i, same, isFg⟩

/-! ## The children -/

/-- A child finds no foreground job in its own copy of the job list, and what it has
been sent are the signals the handlers send. -/
structure Proc.Plain (pr : Proc) : Prop where
  copy : fgpid pr.jobs = 0
  sent : pr.pending ⊆ {.sigint, .sigtstp}

/-- Every child is so. -/
def ChildrenOk (procs : Procs) : Prop :=
  ∀ pid pr, procs.lookup pid = some pr → pr.Plain

namespace ChildrenOk

variable {k k' : Kern} {pid : Int} {pr : Proc}

theorem insert {procs : Procs} (ok : ChildrenOk procs) {pr' : Proc} (plain : pr'.Plain) :
    ChildrenOk (procs.insert pid pr') := by
  intro p pr found
  rcases lookup_insert_cases found with ⟨-, rfl⟩ | ⟨-, there⟩
  · exact plain
  · exact ok p pr there

/-- A child's pending signals become fewer. -/
theorem erase {procs : Procs} (ok : ChildrenOk procs) (found : procs.lookup pid = some pr)
    {pr' : Proc} (same : pr'.jobs = pr.jobs) (fewer : pr'.pending ⊆ pr.pending) :
    ChildrenOk (procs.insert pid pr') := by
  obtain ⟨copy, sent⟩ := ok pid pr found
  exact ok.insert ⟨same ▸ copy, fewer.trans sent⟩

theorem sends (ok : ChildrenOk k.procs) {sig : Signal} (sends : k.Sends sig k')
    (ours : sig ∈ ({.sigint, .sigtstp, .sigcont} : SigSet)) : ChildrenOk k'.procs := by
  cases sends with
  | nothing => exact ok
  | @pending pid pr found alive other =>
      obtain ⟨copy, sent⟩ := ok pid pr found
      refine ok.insert ⟨copy, Finset.insert_subset ?_ sent⟩
      cases sig <;> simp at ours other ⊢
  | continues found alive isCont => exact ok.erase found rfl (Finset.erase_subset _ _)

theorem child (ok : ChildrenOk k.procs) {act : ChildAct} (found : k.procs.lookup pid = some pr)
    (moved : k.child pid pr act = some k') : ChildrenOk k'.procs := by
  cases Kern.child_move moved with
  | take running pending unblocked takes =>
      cases takes with
      | ends started isInt default_ => exact ok.erase found rfl (Finset.erase_subset _ _)
      | stops started isTstp default_ => exact ok.erase found rfl (Finset.erase_subset _ _)
      | handled survives => exact ok.erase found rfl (Finset.erase_subset _ _)
      | forwards inherited listed sends other => exact absurd (ok pid pr found).copy listed
  | setpgid running at_ => exact ok.erase found rfl (Finset.Subset.refl _)
  | unmask running at_ => exact ok.erase found rfl (Finset.Subset.refl _)
  | execve running at_ => exact ok.erase found rfl (Finset.Subset.refl _)
  | @sigaction sig d _ _ running at_ =>
      refine ok.erase found rfl ?_
      show (if d = .ignored then pr.pending.erase sig else pr.pending) ⊆ pr.pending
      split
      · exact Finset.erase_subset _ _
      · exact Finset.Subset.refl _
  | sigprocmask running at_ => exact ok.erase found rfl (Finset.Subset.refl _)
  | ends ending alive by_ => exact ok.erase found rfl (Finset.Subset.refl _)
  | stop running => exact ok.erase found rfl (Finset.Subset.refl _)
  | cont alive => exact ok.erase found rfl (Finset.erase_subset _ _)

theorem waitpid (ok : ChildrenOk k.procs) {status : ChStatus}
    (reported : k.waitpid pid = some (status, k')) : ChildrenOk k'.procs := by
  obtain ⟨pr, found, ⟨ending, -, -, rfl⟩ | ⟨sig, -, -, rfl⟩⟩ := Kern.waitpid_cases reported
  · exact fun p pr found => ok p pr (lookup_erase_cases found).2
  · exact ok.erase found rfl (Finset.Subset.refl _)

end ChildrenOk

theorem childrenOk_step {s t : St} {a : Act} (ok : ChildrenOk s.kern.procs) (fg : FgOk s)
    (step_ : step s a = some t) : ChildrenOk t.kern.procs := by
  cases step_move step_ with
  | child alive moved => exact ok.child alive moved
  | main idle move =>
      cases move with
      | fork at_ returned pos fresh =>
          -- `eval` forks with no job in the foreground
          have none_ := fgpid_eq_zero (fg.none (by rw [at_]; rfl))
          exact ok.insert ⟨none_, Finset.empty_subset _⟩
      | kill at_ sent => exact ok.sends (Kern.kill_sends _ _ _) (by simp)
      | _ => exact ok
  | handler top move =>
      cases move with
      | intKill at_ sent => exact ok.sends (Kern.kill_sends _ _ _) (by simp)
      | tstpKill at_ sent => exact ok.sends (Kern.kill_sends _ _ _) (by simp)
      | waitpid at_ reported => exact ok.waitpid reported
      | _ => exact ok
  | _ => exact ok

theorem childrenOk_reachable {s : St} (reached : tsh.Reachable s) : ChildrenOk s.kern.procs :=
  Machine.invariant (P := fun s => ChildrenOk s.kern.procs) (fun _ _ found => by cases found)
    (fun _ _ _ before ok _ step_ => childrenOk_step ok (fgOk_reachable before) step_) reached

/-! ## The life of an entry -/

/-- An entry written with a state it may change to, or left alone. -/
theorem stateChange_setState {jobs : Jobs} {i j : Fin MAXJOBS} {state : JobState}
    (changes : j = i → StateChange (jobs j).state state) :
    StateChange (jobs j).state (setState jobs i state j).state := by
  by_cases same : j = i
  · have change := changes same
    subst same
    simpa only [setState, Function.update_self] using change
  · simp only [setState, Function.update_of_ne same]
    exact .none _

/-- A live entry goes to `ST` from any state. -/
theorem StateChange.to_st {state : JobState} (live : state ≠ .undef) :
    StateChange state .st := by
  cases state with
  | undef => exact absurd rfl live
  | fg => exact .ctrlz
  | bg => exact .stopped
  | st => exact .none _

/-- `main` changes the state of a live entry in `fg` and `bg` only. -/
theorem stateChange_main {s t : St} {inp : Input} (ok : FgOk s) (tracking : Tracking s)
    (move : MainMove s inp t) (i : Fin MAXJOBS) (live : (s.jobs i).state ≠ .undef) :
    StateChange (s.jobs i).state (t.jobs i).state := by
  have occupied := tracking.wf.occupied live
  have adding := tracking.adding
  cases move with
  | halt status => exact .none _
  | ctl out ctl => exact .none _
  | fork at_ returned pos fresh => exact .none _
  | @storePid l prev pid k at_ free =>
      have ne : i ≠ k := by
        rintro rfl
        have := freeSlot_eq_some free
        omega
      simp only [St.jobs, JobList.storePid, Function.update_of_ne ne]
      exact .none _
  | @storeState l prev pid k at_ =>
      rw [at_] at adding
      have ne : i ≠ k := by
        rintro rfl
        rw [adding.2] at live
        exact live rfl
      simp only [St.jobs, JobList.storeState, setState, Function.update_of_ne ne]
      exact .none _
  | @storeJid l prev pid k at_ =>
      show StateChange _ ((s.list.storeJid k l.cmdline).jobs i).state
      rw [storeJid_state]
      exact .none _
  | kill at_ sent => exact .none _
  | @setFg k prev at_ =>
      apply stateChange_setState
      intro _
      cases state : (s.jobs i).state with
      | undef => exact absurd state live
      | fg => exact .none _
      | bg => exact .raised
      | st => exact .fg
  | @setBg k prev at_ out =>
      apply stateChange_setState
      intro _
      have notFg := ok.none (by rw [at_]; rfl) i
      cases state : (s.jobs i).state with
      | undef => exact absurd state live
      | fg => exact absurd state notFg
      | bg => exact .none _
      | st => exact .bg

/-- A handler stops entries or deletes them. -/
theorem stateChange_handler {s t : St} {f : Frame} {fs : List Frame} {inp : Input}
    (tracking : Tracking s) (move : HandlerMove s f fs inp t) (i : Fin MAXJOBS)
    (live : (s.jobs i).state ≠ .undef) (survives : (t.jobs i).pid = (s.jobs i).pid) :
    StateChange (s.jobs i).state (t.jobs i).state := by
  have occupied := tracking.wf.occupied live
  cases move with
  | halt status => exact .none _
  | ctl ctl => exact .none _
  | intKill at_ sent => exact .none _
  | tstpSet at_ some_ found =>
      apply stateChange_setState
      rintro rfl
      rw [tracking.wf.fg_slot some_ found]
      exact .ctrlz
  | tstpKill at_ sent => exact .none _
  | waitpid at_ reported => exact .none _
  | @delete pid ending prev at_ out =>
      have there : ((deletejob s.list pid).2.jobs i).pid = (s.jobs i).pid := survives
      have entry : ((deletejob s.list pid).2.jobs i).pid ≠ 0 := by omega
      obtain ⟨same, -⟩ := deletejob_entry tracking.wf entry
      show StateChange (s.jobs i).state ((deletejob s.list pid).2.jobs i).state
      rw [same]
      exact .none _
  | stop at_ found out =>
      apply stateChange_setState
      intro _
      exact .to_st live
  | pop leaves => exact .none _

theorem stateChange_step {s t : St} {a : Act} (reached : tsh.Reachable s)
    (step_ : step s a = some t) (i : Fin MAXJOBS) (live : (s.jobs i).state ≠ .undef)
    (survives : (t.jobs i).pid = (s.jobs i).pid) :
    StateChange (s.jobs i).state (t.jobs i).state := by
  have tracking := tracking_reachable reached
  cases step_move step_ with
  | arrive sig handled => exact .none _
  | quit => exact .none _
  | deliver pending unblocked entry => exact .none _
  | child alive moved => exact .none _
  | main idle move => exact stateChange_main (fgOk_reachable reached) tracking move i live
  | handler top move => exact stateChange_handler tracking move i live survives

/-- **One foreground job at most, and only where the shell waits for it.** -/
theorem foreground_exclusive {s : St} (reached : tsh.Reachable s) :
    (∀ i j, (s.jobs i).state = .fg → (s.jobs j).state = .fg → i = j) ∧
    (s.main = .readLine → ∀ i, (s.jobs i).state ≠ .fg) ∧
    (∀ pid pc ret, s.main = .waitfg pid pc ret →
      ∀ i, (s.jobs i).state = .fg → (s.jobs i).pid = pid) ∧
    (∀ pid prev ret, s.main = .waitfg pid (.done prev) ret → ∀ i, (s.jobs i).state ≠ .fg) ∧
    ∀ a t, step s a = some t → ∀ i, (s.jobs i).state ≠ .undef →
      (t.jobs i).pid = (s.jobs i).pid → StateChange (s.jobs i).state (t.jobs i).state := by
  have ok := fgOk_reachable reached
  have tracking := tracking_reachable reached
  refine ⟨?_, ?_, ?_, ?_, ?_⟩
  · intro i j fg_i fg_j
    have owner := ok i fg_i
    rw [ok j fg_j] at owner
    have occupied := tracking.wf.occupied (i := i) (by rw [fg_i]; rintro ⟨⟩)
    exact tracking.wf.distinct i j (by omega) (Option.some.inj owner).symm
  · intro at_
    exact ok.none (by rw [at_]; rfl)
  · intro pid pc ret at_ i isFg
    have owner := ok i isFg
    rw [at_] at owner
    cases pc with
    | done prev => cases owner
    | top => exact (Option.some.inj owner).symm
    | check prev => exact (Option.some.inj owner).symm
    | suspended prev orig => exact (Option.some.inj owner).symm
    | resumed prev => exact (Option.some.inj owner).symm
  · intro pid prev ret at_
    exact ok.none (by rw [at_]; rfl)
  · intro a t step_ i live survives
    exact stateChange_step reached step_ i live survives

/-- A job in the foreground is the one waited for. -/
theorem foreground_exclusive_waiting :
    ∃ s, tsh.exec .start (foreground 2) = some s ∧ (s.jobs 0).state = .fg ∧
      (s.jobs 0).pid = 2 := by
  obtain ⟨s, ran⟩ : ∃ s, tsh.exec .start (foreground 2) = some s :=
    Option.isSome_iff_exists.1 (by decide +kernel)
  have at_ : s.main = .waitfg 2 (.suspended ∅ Finset.univ) .eval :=
    Machine.exec_map ran (f := St.main) (by decide +kernel)
  have isFg : (s.jobs 0).state = .fg :=
    Machine.exec_map ran (f := fun s => (s.jobs 0).state) (by decide +kernel)
  obtain ⟨-, -, waited, -⟩ := foreground_exclusive (Machine.reachable_of_exec ran)
  exact ⟨s, ran, isFg, waited _ _ _ at_ 0 isFg⟩

end CsappLab.Tsh
