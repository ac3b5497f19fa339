/-
# Tsh.StatesMatch — job states and processes

`ST` is written in two places: by `sigchld_handler` after the kernel has reported
a stop, and by `sigtstp_handler` before it sends the signal that is to cause one.
`do_bgfg` takes it back after sending SIGCONT. `Agree` says how far a job's state
and its process can be apart in between: a reported stop is in the table or with
the handler that is about to put it there (`reported`), and a job in `ST` whose
process runs is one the SIGTSTP is still to be sent to, one that has not taken it,
or one that has just been continued (`running`).

The signals must do what the shell takes for granted (`SignalsWork`): SIGTSTP must
find a process in its own group that does not ignore it, the started program must
take it, by its default action and before the shell is back at its prompt, and
SIGCONT must find a process in its own group. `statesMatch_of_obedient` is the
result for a quiet shell; `ignored_stop_reported` is a program that ignores
SIGTSTP.
-/
import CsappLab.Tsh.Foreground

namespace CsappLab.Tsh

set_option autoImplicit false

open CsappLab.Lib

/-- `main` waits for a command line, no handler is active and no signal pending. -/
def Quiet (s : St) : Prop :=
  s.main = .readLine ∧ s.frames = [] ∧ s.kern.pending = ∅

/-- Jobs in `ST` are stopped, jobs in `BG` run. -/
def StatesMatch (s : St) : Prop :=
  ∀ i,
    ((s.jobs i).state = .st → ∃ pr sig reported,
      s.kern.procs.lookup (s.jobs i).pid = some pr ∧ pr.run = .stopped sig reported) ∧
    ((s.jobs i).state = .bg → ∃ pr,
      s.kern.procs.lookup (s.jobs i).pid = some pr ∧ pr.run = .running)

/-- Only the shell sends SIGCONT. -/
def OnlyShellContinues : Act → Prop
  | .child _ .cont => False
  | _ => True

/-- SIGTSTP finds the process stopped or ended, or comes to be pending there. -/
def Proc.KeepsTstp (pr : Proc) : Prop :=
  pr.run = .running → pr.phase ≠ .forked ∧ ¬ pr.Discards .sigtstp

/-- SIGTSTP stops the process when it takes it. -/
def Proc.StopsOnTstp (pr : Proc) : Prop :=
  pr.phase = .started ∧ pr.onTstp = .default_

/-- SIGCONT reaches the process if it is stopped. -/
def Proc.ContinuesOnCont (pr : Proc) : Prop :=
  match pr.run with
  | .stopped _ _ => pr.phase ≠ .forked
  | _ => True

/-- The control points from which `main` goes back to the prompt. -/
def Main.Returns : Main → Prop
  | .jobsList _ | .waitfg _ (.done _) .eval | .bgfgDone _ => True
  | .added l _ _ => l.isBg = true
  | _ => False

/-- Every SIGTSTP sent to a process that runs has been taken. -/
def Kern.TstpTaken (k : Kern) : Prop :=
  ∀ e ∈ k.procs.entries, e.2.run = .running → .sigtstp ∉ e.2.pending

/-- The signals of `sigtstp_handler` and `do_bgfg` take effect. -/
def SignalsWork (s : St) : Act → Prop
  | .shell .go =>
      match s.frames with
      | [] =>
          match s.main with
          | .bgfgKill _ i _ =>
              ∀ pr ∈ s.kern.procs.lookup (s.jobs i).pid, pr.ContinuesOnCont
          | pc => pc.Returns → s.kern.TstpTaken
      | f :: _ =>
          match f.handler with
          | .sigtstp (.kill _ pid) => ∀ pr ∈ s.kern.procs.lookup pid, pr.KeepsTstp
          | _ => True
  | .child pid (.take .sigtstp) => ∀ pr ∈ s.kern.procs.lookup pid, pr.StopsOnTstp
  | .child pid (.sigaction .sigtstp .ignored) =>
      ∀ pr ∈ s.kern.procs.lookup pid, .sigtstp ∉ pr.pending
  | _ => True

instance (pr : Proc) : Decidable pr.KeepsTstp :=
  inferInstanceAs (Decidable (_ → _))

instance (pr : Proc) : Decidable pr.StopsOnTstp :=
  inferInstanceAs (Decidable (_ ∧ _))

instance (pr : Proc) : Decidable pr.ContinuesOnCont := by
  unfold Proc.ContinuesOnCont
  split <;> infer_instance

instance : DecidablePred Main.Returns := fun pc => by
  unfold Main.Returns
  split <;> infer_instance

instance (k : Kern) : Decidable k.TstpTaken :=
  inferInstanceAs (Decidable (∀ e ∈ k.procs.entries, _))

instance : DecidablePred OnlyShellContinues := fun a => by
  unfold OnlyShellContinues
  split <;> infer_instance

instance (s : St) : DecidablePred (SignalsWork s) := fun a => by
  unfold SignalsWork
  split
  · split
    · split <;> infer_instance
    · split <;> infer_instance
  · infer_instance
  · infer_instance
  · infer_instance

theorem SignalsWork.taken {s : St} (works : SignalsWork s (.shell .go)) (idle : s.frames = [])
    (returns : s.main.Returns) : s.kern.TstpTaken := by
  simp only [SignalsWork, idle] at works
  split at works
  · rename_i at_
    rw [at_] at returns
    exact returns.elim
  · exact works returns

/-- The steps back to the prompt need no input. -/
theorem Main.Returns.go {s t : St} {inp : Input} (returns : s.main.Returns)
    (step_ : mainStep s inp = some t) : inp = .go := by
  unfold Main.Returns at returns
  split at returns
  · rename_i at_
    cases inp <;> simp [mainStep, at_] at step_ ⊢
  · rename_i at_
    cases inp <;> simp [mainStep, at_] at step_ ⊢
  · rename_i at_
    cases inp <;> simp [mainStep, at_] at step_ ⊢
  · rename_i at_
    cases inp <;> simp [mainStep, at_] at step_ ⊢
  · exact returns.elim

theorem MainCtl.prompt {s : St} {mask : SigSet} (ctl : MainCtl s .readLine mask) :
    s.main = .readLine ∨ s.main.Returns := by
  cases ctl with
  | dispatch at_ fresh => exact .inl at_
  | jobsList at_ => rw [at_]; exact .inr trivial
  | addedBg at_ isBg => rw [at_]; exact .inr isBg
  | waitDoneEval at_ => rw [at_]; exact .inr trivial
  | bgfgDone at_ => rw [at_]; exact .inr trivial

/-! ## What the two signals do -/

namespace Kern

variable {k k' : Kern} {pid p : Int} {pr pr' : Proc} {sig : Signal}

theorem kill_lookup_ne (ne : p ≠ pid) :
    (k.kill pid sig).procs.lookup p = k.procs.lookup p := by
  unfold kill
  split
  · rfl
  · unfold post
    split_ifs
    · rfl
    · exact AList.lookup_insert_ne ne
    · rfl
    · exact AList.lookup_insert_ne ne

/-- After SIGCONT the process is not stopped. -/
theorem kill_sigcont_run {reported : Bool} {n : Int}
    (works : ∀ pr ∈ k.procs.lookup pid, pr.ContinuesOnCont)
    (found : (k.kill pid .sigcont).procs.lookup pid = some pr') :
    pr'.run ≠ .stopped n reported := by
  intro stopped
  unfold kill at found
  split at found
  · rename_i none_
    have inGroup := works pr' found
    simp only [Proc.ContinuesOnCont, stopped] at inGroup
    simp [member, found, inGroup] at none_
  · rename_i pr isMember
    simp only [post, if_true] at found
    split_ifs at found with ended
    · rw [member_lookup isMember] at found
      cases found
      simp [Proc.ended, stopped] at ended
    · rw [put, AList.lookup_insert] at found
      cases found
      cases stopped

/-- After SIGTSTP the process does not run, or the signal is pending. -/
theorem kill_sigtstp_run (works : ∀ pr ∈ k.procs.lookup pid, pr.KeepsTstp)
    (found : (k.kill pid .sigtstp).procs.lookup pid = some pr') (running : pr'.run = .running) :
    .sigtstp ∈ pr'.pending := by
  unfold kill at found
  split at found
  · rename_i none_
    have inGroup := (works pr' found running).1
    simp [member, found, inGroup] at none_
  · rename_i pr isMember
    have there := member_lookup isMember
    simp only [post, reduceCtorEq, if_false] at found
    split_ifs at found with ended discards
    · rw [there] at found
      cases found
      simp [Proc.ended, running] at ended
    · rw [there] at found
      cases found
      exact absurd discards (works pr' there running).2
    · rw [put, AList.lookup_insert] at found
      cases found
      exact Finset.mem_insert_self _ _

/-- Reported stops and running processes are none that were not before, and a running
process keeps a pending SIGTSTP. -/
structure Settled (k k' : Kern) : Prop where
  reported : ∀ p pr' sig, k'.procs.lookup p = some pr' → pr'.run = .stopped sig true →
    ∃ pr, k.procs.lookup p = some pr ∧ pr.run = .stopped sig true
  running : ∀ p pr', k'.procs.lookup p = some pr' → pr'.run = .running →
    ∃ pr, k.procs.lookup p = some pr ∧ pr.run = .running ∧
      (.sigtstp ∈ pr.pending → .sigtstp ∈ pr'.pending)

theorem Evolves.reported {cont : Prop} (evolves : Evolves cont k k') {n : Int}
    (found : k'.procs.lookup p = some pr') (stopped : pr'.run = .stopped n true) :
    ∃ pr, k.procs.lookup p = some pr ∧ pr.run = .stopped n true := by
  obtain ⟨pr, there, move⟩ := evolves.moves p pr' found
  refine ⟨pr, there, ?_⟩
  rw [stopped] at move
  generalize pr.run = r at move ⊢
  cases move
  rfl

theorem Settled.of_procs (same : k'.procs = k.procs) : Settled k k' where
  reported _ pr' _ found stopped := ⟨pr', same ▸ found, stopped⟩
  running _ pr' found running := ⟨pr', same ▸ found, running, id⟩

/-- A process is replaced. -/
theorem settled_insert {pending : SigSet} (found : k.procs.lookup pid = some pr)
    (reported : ∀ n, pr'.run = .stopped n true → pr.run = .stopped n true)
    (running : pr'.run = .running → pr.run = .running ∧
      (.sigtstp ∈ pr.pending → .sigtstp ∈ pr'.pending)) :
    Settled k ⟨k.procs.insert pid pr', pending⟩ := by
  constructor
  · intro p q n found' stopped
    rcases lookup_insert_cases found' with ⟨rfl, rfl⟩ | ⟨-, there⟩
    · exact ⟨pr, found, reported n stopped⟩
    · exact ⟨q, there, stopped⟩
  · intro p q found' runs
    rcases lookup_insert_cases found' with ⟨rfl, rfl⟩ | ⟨-, there⟩
    · exact ⟨pr, found, running runs⟩
    · exact ⟨q, there, runs, id⟩

/-- One whose run state stays. -/
theorem settled_put (found : k.procs.lookup pid = some pr) (same : pr'.run = pr.run)
    (keeps : .sigtstp ∈ pr.pending → .sigtstp ∈ pr'.pending) : Settled k (k.put pid pr') :=
  settled_insert found (fun _ stopped => same ▸ stopped) fun running => ⟨same ▸ running, keeps⟩

theorem Sends.settled (sends : k.Sends sig k') (other : sig ≠ .sigcont) : Settled k k' := by
  cases sends with
  | nothing => exact .of_procs rfl
  | pending found alive other => exact settled_put found rfl Finset.mem_insert_of_mem
  | continues found alive isCont => exact absurd isCont other

theorem Takes.settled (takes : k.Takes pid pr sig k') (found : k.procs.lookup pid = some pr)
    (copy : fgpid pr.jobs = 0) (stops : sig = .sigtstp → pr.StopsOnTstp) : Settled k k' := by
  cases takes with
  | ends started isInt default_ =>
      exact settled_insert found (fun _ stopped => by cases stopped) (fun runs => by cases runs)
  | stops started isTstp default_ =>
      exact settled_insert found (fun _ stopped => by cases stopped) (fun runs => by cases runs)
  | handled survives =>
      refine settled_put found rfl fun pending => Finset.mem_erase.2 ⟨?_, pending⟩
      rintro rfl
      obtain ⟨started, default_⟩ := stops rfl
      exact (survives started default_).2 rfl
  | forwards inherited listed sends other => exact absurd copy listed

/-- A step of a child that SIGTSTP works on. -/
theorem settled_child {s : St} {act : ChildAct} (children : ChildrenOk s.kern.procs)
    (found : s.kern.procs.lookup pid = some pr) (moved : s.kern.child pid pr act = some k')
    (only : OnlyShellContinues (.child pid act)) (works : SignalsWork s (.child pid act)) :
    Settled s.kern k' := by
  cases child_move moved with
  | setpgid running at_ => exact settled_put found rfl id
  | unmask running at_ => exact settled_put found rfl id
  | execve running at_ => exact settled_put found rfl id
  | take running pending unblocked takes =>
      refine takes.settled found (children pid pr found).copy ?_
      rintro rfl
      exact works pr found
  | @sigaction sig d _ _ running at_ =>
      refine settled_put found rfl fun pending => ?_
      show Signal.sigtstp ∈ if d = .ignored then pr.pending.erase sig else pr.pending
      split
      · rename_i ignored
        subst ignored
        refine Finset.mem_erase.2 ⟨?_, pending⟩
        rintro rfl
        exact works pr found pending
      · exact pending
  | sigprocmask running at_ => exact settled_put found rfl id
  | ends ending alive by_ =>
      exact settled_insert found (fun _ stopped => by cases stopped) (fun runs => by cases runs)
  | stop running =>
      exact settled_insert found (fun _ stopped => by cases stopped) (fun runs => by cases runs)
  | cont alive => exact only.elim

end Kern

/-! ## How far a state and its process are apart -/

/-- The job `do_bgfg` is about to take out of `ST`. -/
def Main.setting : Main → Option (Fin MAXJOBS)
  | .bgfgSet _ i _ => some i
  | _ => none

/-- `sigtstp_handler` has still to send the signal to `pid`. -/
def Stopping (frames : List Frame) (pid : Int) : Prop :=
  ∃ f ∈ frames, ∃ prev, f.handler = .sigtstp (.kill prev pid)

/-- The stop that the table reports of the running process `pr` is still to come. -/
def Coming (s : St) (pid : Int) (pr : Proc) : Prop :=
  s.main ≠ .readLine ∧ (Stopping s.frames pid ∨ .sigtstp ∈ pr.pending)

structure Agree (s : St) : Prop where
  reported : ∀ p pr sig, s.kern.procs.lookup p = some pr → pr.run = .stopped sig true →
    (∃ i, (s.jobs i).pid = p ∧ (s.jobs i).state = .st ∧ s.main.setting ≠ some i) ∨
      ∃ sig', Holds s.frames (p, .stopped sig')
  running : ∀ i pr, (s.jobs i).state = .st → s.kern.procs.lookup (s.jobs i).pid = some pr →
    pr.run = .running → Coming s (s.jobs i).pid pr ∨ s.main.setting = some i
  held : ∀ p sig pr, Holds s.frames (p, .stopped sig) → s.kern.procs.lookup p = some pr →
    pr.run ≠ .running

/-- A step that leaves the list alone, does not come to a `bgfgSet` or to the prompt,
and leaves SIGTSTP pending for the process it sends it to. -/
theorem Agree.keep {s t : St} (ok : Agree s) (jobs : t.jobs = s.jobs)
    (settled : s.kern.Settled t.kern) (held : ∀ c, Holds t.frames c ↔ Holds s.frames c)
    (stopping : ∀ pid pr, t.kern.procs.lookup pid = some pr → pr.run = .running →
      Stopping s.frames pid → Stopping t.frames pid ∨ .sigtstp ∈ pr.pending)
    (setting : t.main.setting = s.main.setting)
    (busy : s.main ≠ .readLine → t.main ≠ .readLine) : Agree t := by
  constructor
  · intro p pr sig found stopped
    obtain ⟨pr', found', stopped'⟩ := settled.reported p pr sig found stopped
    rw [jobs, setting]
    rcases ok.reported p pr' sig found' stopped' with entry | ⟨sig', holds⟩
    · exact Or.inl entry
    · exact Or.inr ⟨sig', (held _).2 holds⟩
  · intro i pr state found running
    rw [jobs] at state found ⊢
    obtain ⟨pr', found', running', keeps⟩ := settled.running _ pr found running
    rw [setting]
    refine (ok.running i pr' state found' running').imp_left ?_
    rintro ⟨waits, sends | pending⟩
    · exact ⟨busy waits, stopping _ pr found running sends⟩
    · exact ⟨busy waits, .inr (keeps pending)⟩
  · intro p sig pr holds found running
    obtain ⟨pr', found', running', -⟩ := settled.running p pr found running
    exact ok.held p sig pr' ((held _).1 holds) found' running'

/-- With no handler active the two agree but for the job being set and for SIGTSTPs that
have not been taken. -/
theorem Agree.idle {s : St} (ok : Agree s) (idle : s.frames = []) :
    (∀ p pr sig, s.kern.procs.lookup p = some pr → pr.run = .stopped sig true →
      ∃ i, (s.jobs i).pid = p ∧ (s.jobs i).state = .st ∧ s.main.setting ≠ some i) ∧
    ∀ i pr, (s.jobs i).state = .st → s.kern.procs.lookup (s.jobs i).pid = some pr →
      pr.run = .running → s.main ≠ .readLine ∧ .sigtstp ∈ pr.pending ∨ s.main.setting = some i := by
  constructor
  · intro p pr sig found stopped
    rcases ok.reported p pr sig found stopped with entry | ⟨sig', holds⟩
    · exact entry
    · exact absurd holds (not_holds_of_idle idle _)
  · intro i pr state found running
    refine (ok.running i pr state found running).imp_left ?_
    rintro ⟨busy, ⟨f, active, -⟩ | pending⟩
    · rw [idle] at active
      cases active
    · exact ⟨busy, pending⟩

/-- Where no job is being set, a job in `ST` runs only until it has taken SIGTSTP. -/
theorem Agree.atRest {s : St} (ok : Agree s) (idle : s.frames = [])
    (none_ : s.main.setting = none) (i : Fin MAXJOBS) (pr : Proc) (state : (s.jobs i).state = .st)
    (found : s.kern.procs.lookup (s.jobs i).pid = some pr) (run : pr.run = .running) :
    s.main ≠ .readLine ∧ .sigtstp ∈ pr.pending := by
  rcases (ok.idle idle).2 i pr state found run with pending | setting
  · exact pending
  · rw [none_] at setting
    cases setting

/-- What has to be shown with no handler active. -/
theorem Agree.of_idle {s : St} (idle : s.frames = [])
    (reported : ∀ p pr sig, s.kern.procs.lookup p = some pr → pr.run = .stopped sig true →
      ∃ i, (s.jobs i).pid = p ∧ (s.jobs i).state = .st ∧ s.main.setting ≠ some i)
    (running : ∀ i pr, (s.jobs i).state = .st → s.kern.procs.lookup (s.jobs i).pid = some pr →
      pr.run = .running →
        s.main ≠ .readLine ∧ .sigtstp ∈ pr.pending ∨ s.main.setting = some i) : Agree s where
  reported p pr sig found stopped := Or.inl (reported p pr sig found stopped)
  running i pr state found run :=
    (running i pr state found run).imp_left fun waits => ⟨waits.1, .inr waits.2⟩
  held _ _ _ holds := absurd holds (not_holds_of_idle idle _)

/-- `main` writes one slot, which comes to a state other than `ST`. -/
theorem Agree.write {s t : St} (ok : Agree s) (k : Fin MAXJOBS) (idle : s.frames = [])
    (frames : t.frames = s.frames) (kern : t.kern = s.kern)
    (others : ∀ i, i ≠ k → t.jobs i = s.jobs i)
    (before : (s.jobs k).state = .st → s.main.setting = some k)
    (only : ∀ i, s.main.setting = some i → i = k) (after : (t.jobs k).state ≠ .st)
    (setting : t.main.setting = none) (busy : t.main ≠ .readLine) : Agree t := by
  obtain ⟨reported, running⟩ := ok.idle idle
  refine Agree.of_idle (frames.trans idle) ?_ ?_
  · intro p pr sig found stopped
    rw [kern] at found
    obtain ⟨i, pid, state, notSet⟩ := reported p pr sig found stopped
    have ne : i ≠ k := by
      rintro rfl
      exact notSet (before state)
    rw [setting]
    exact ⟨i, by rw [others i ne]; exact pid, by rw [others i ne]; exact state, by rintro ⟨⟩⟩
  · intro i pr state found run
    have ne : i ≠ k := by
      rintro rfl
      exact after state
    rw [kern, others i ne] at found
    rw [others i ne] at state
    rcases running i pr state found run with waits | set
    · exact .inl ⟨busy, waits.2⟩
    · exact absurd (only i set) ne

/-- `bg` or `fg` stores the state of the job that is being set. -/
theorem Agree.set {s t : St} (ok : Agree s) {k : Fin MAXJOBS} {state : JobState}
    (idle : s.frames = []) (notSt : state ≠ .st) (sets : s.main.setting = some k)
    (frames : t.frames = s.frames) (kern : t.kern = s.kern)
    (jobs : t.jobs = setState s.jobs k state) (setting : t.main.setting = none)
    (busy : t.main ≠ .readLine) : Agree t := by
  refine ok.write k idle frames kern (fun i ne => ?_) (fun _ => sets) (fun i set => ?_) ?_
    setting busy
  · rw [jobs]
    exact Function.update_of_ne ne _ _
  · rw [sets] at set
    exact (Option.some.inj set).symm
  · rw [jobs]
    simpa [setState] using notSt

/-- Away from `bg` and `fg` no entry is being set. -/
theorem setting_none {pc : Main} {P : Fin MAXJOBS → Prop} (away : pc.setting = none) :
    ∀ i, pc.setting = some i → P i := by
  intro i same
  rw [away] at same
  cases same

theorem MainCtl.setting {s : St} {pc : Main} {mask : SigSet} (ctl : MainCtl s pc mask) :
    s.main.setting = none ∧ ∀ i, pc.setting = some i → (s.jobs i).state ≠ .st := by
  cases ctl with
  | dispatch at_ fresh =>
      rw [at_]
      rcases fresh.cases with rfl | rfl | ⟨cmd, arg, rfl⟩ | ⟨l, rfl⟩ <;>
        exact ⟨rfl, setting_none rfl⟩
  | bgfgRunning at_ found running =>
      rw [at_]
      refine ⟨rfl, fun k same => ?_⟩
      cases same
      exact running
  | jobsBlock at_ => rw [at_]; exact ⟨rfl, setting_none rfl⟩
  | jobsList at_ => rw [at_]; exact ⟨rfl, setting_none rfl⟩
  | evalBlock at_ => rw [at_]; exact ⟨rfl, setting_none rfl⟩
  | addjobFails at_ _ => rw [at_]; exact ⟨rfl, setting_none rfl⟩
  | addedBg at_ _ => rw [at_]; exact ⟨rfl, setting_none rfl⟩
  | addedFg at_ _ => rw [at_]; exact ⟨rfl, setting_none rfl⟩
  | waitTop at_ => rw [at_]; exact ⟨rfl, setting_none rfl⟩
  | waitSuspend at_ _ => rw [at_]; exact ⟨rfl, setting_none rfl⟩
  | waitBreak at_ _ => rw [at_]; exact ⟨rfl, setting_none rfl⟩
  | waitResume at_ => rw [at_]; exact ⟨rfl, setting_none rfl⟩
  | waitDoneEval at_ => rw [at_]; exact ⟨rfl, setting_none rfl⟩
  | waitDoneBgfg at_ => rw [at_]; exact ⟨rfl, setting_none rfl⟩
  | bgfgBlock at_ => rw [at_]; exact ⟨rfl, setting_none rfl⟩
  | bgfgNone at_ => rw [at_]; exact ⟨rfl, setting_none rfl⟩
  | bgfgStopped at_ _ _ => rw [at_]; exact ⟨rfl, setting_none rfl⟩
  | bgfgDone at_ => rw [at_]; exact ⟨rfl, setting_none rfl⟩

/-- `do_bgfg` sends SIGCONT to the job it is about to take out of `ST`. -/
theorem agree_kill {s t : St} {cmd : BgFg} {k : Fin MAXJOBS} {prev : SigSet} (ok : Agree s)
    (tracking : Tracking s) (idle : s.frames = []) (at_ : s.main = .bgfgKill cmd k prev)
    (works : ∀ pr ∈ s.kern.procs.lookup (s.jobs k).pid, pr.ContinuesOnCont)
    (kern : t.kern = s.kern.kill (s.jobs k).pid .sigcont) (jobs : t.jobs = s.jobs)
    (frames : t.frames = s.frames) (main : t.main = .bgfgSet cmd k prev) : Agree t := by
  refine Agree.of_idle (frames.trans idle) ?_ ?_
  · intro p pr sig found stopped
    rw [kern] at found
    rw [jobs, main]
    have evolves : s.kern.Evolves True (s.kern.kill (s.jobs k).pid .sigcont) :=
      Kern.evolves_kill _ _ fun _ => trivial
    obtain ⟨pr', found', stopped'⟩ := evolves.reported found stopped
    obtain ⟨i, pid, state, -⟩ := (ok.idle idle).1 p pr' sig found' stopped'
    refine ⟨i, pid, state, fun same => ?_⟩
    cases same
    rw [← pid] at found
    exact Kern.kill_sigcont_run works found stopped
  · intro i pr state found run
    rw [jobs] at state found
    rw [kern] at found
    by_cases same : i = k
    · rw [main, same]
      exact .inr rfl
    · have occupied := tracking.wf.occupied_st state
      have ne : (s.jobs i).pid ≠ (s.jobs k).pid := fun eq =>
        same (tracking.wf.distinct i k (by omega) eq)
      rw [Kern.kill_lookup_ne ne] at found
      refine .inl ⟨?_, (ok.atRest idle (by rw [at_]; rfl) i pr state found run).2⟩
      rw [main]
      rintro ⟨⟩

theorem agree_main {s t : St} {inp : Input} (ok : Agree s) (tracking : Tracking s)
    (idle : s.frames = []) (works : SignalsWork s (.shell inp)) (step_ : mainStep s inp = some t) :
    Agree t := by
  obtain ⟨reported, -⟩ := ok.idle idle
  have adding := tracking.adding
  cases mainStep_move step_ with
  | halt status =>
      exact ok.keep rfl (.of_procs rfl) (fun _ => Iff.rfl) (fun _ _ _ _ => .inl) rfl id
  | ctl out ctl =>
      obtain ⟨none_, coming⟩ := ctl.setting
      refine Agree.of_idle idle ?_ ?_
      · intro p pr sig found stopped
        obtain ⟨i, pid, state, -⟩ := reported p pr sig found stopped
        exact ⟨i, pid, state, fun comes => coming i comes state⟩
      · intro i pr state found run
        obtain ⟨busy, pending⟩ := ok.atRest idle none_ i pr state found run
        refine .inl ⟨?_, pending⟩
        rintro rfl
        rcases ctl.prompt with at_ | returns
        · exact busy at_
        · have go := returns.go step_
          subst go
          exact works.taken idle returns _ (AList.mem_lookup_iff.1 found) run pending
  | @fork l prev pid at_ returned pos fresh =>
      refine Agree.of_idle idle ?_ ?_
      · intro p pr sig found stopped
        rcases lookup_insert_cases found with ⟨-, rfl⟩ | ⟨-, there⟩
        · cases stopped
        · obtain ⟨i, same, state, -⟩ := reported p pr sig there stopped
          exact ⟨i, same, state, by rintro ⟨⟩⟩
      · intro i pr state found run
        have occupied := tracking.wf.occupied_st state
        have child : (s.jobs i).pid ≠ pid := by
          intro same
          exact fresh (same ▸ tracking.child (not_holds_of_idle idle) (by omega))
        rw [AList.lookup_insert_ne child] at found
        obtain ⟨-, pending⟩ := ok.atRest idle (by rw [at_]; rfl) i pr state found run
        exact .inl ⟨by rintro ⟨⟩, pending⟩
  | @storePid l prev pid k at_ free =>
      have clear := tracking.wf.free k (freeSlot_eq_some free)
      refine ok.write k idle rfl rfl (fun i ne => ?_) (fun state => ?_) (fun i set => ?_) ?_ rfl
        (by rintro ⟨⟩)
      · exact Function.update_of_ne ne _ _
      · rw [clear] at state
        cases state
      · rw [at_] at set
        cases set
      · simp only [St.jobs, JobList.storePid, Function.update_self]
        rw [show s.list.jobs k = clearjob from clear]
        rintro ⟨⟩
  | @storeState l prev pid k at_ =>
      rw [at_] at adding
      refine ok.write k idle rfl rfl (fun i ne => ?_) (fun state => ?_) (fun i set => ?_) ?_ rfl
        (by rintro ⟨⟩)
      · exact Function.update_of_ne ne _ _
      · rw [adding.2] at state
        cases state
      · rw [at_] at set
        cases set
      · simp only [St.jobs, JobList.storeState, setState, Function.update_self]
        split <;> rintro ⟨⟩
  | @storeJid l prev pid k at_ =>
      have same : ∀ i, ((s.list.storeJid k l.cmdline).jobs i).pid = (s.jobs i).pid ∧
          ((s.list.storeJid k l.cmdline).jobs i).state = (s.jobs i).state :=
        fun i => ⟨storeJid_pid _ _ _ _, storeJid_state _ _ _ _⟩
      refine Agree.of_idle idle ?_ ?_
      · intro p pr sig found stopped
        obtain ⟨i, pid, state, -⟩ := reported p pr sig found stopped
        exact ⟨i, (same i).1.trans pid, (same i).2.trans state, by rintro ⟨⟩⟩
      · intro i pr state found run
        rw [(same i).1] at found
        rw [(same i).2] at state
        obtain ⟨-, pending⟩ := ok.atRest idle (by rw [at_]; rfl) i pr state found run
        exact .inl ⟨by rintro ⟨⟩, pending⟩
  | kill at_ sent =>
      rw [sent] at works
      exact agree_kill ok tracking idle at_ (by simpa only [SignalsWork, idle, at_] using works)
        rfl rfl rfl rfl
  | @setFg k prev at_ =>
      exact ok.set idle (by decide) (by rw [at_]; rfl) rfl rfl rfl rfl (by rintro ⟨⟩)
  | @setBg k prev at_ out =>
      exact ok.set idle (by decide) (by rw [at_]; rfl) rfl rfl rfl rfl (by rintro ⟨⟩)

/-- Under an active handler `main` is not about to set a state. -/
theorem MasksOk.not_setting {s : St} {f : Frame} {fs : List Frame} (ok : MasksOk ∅ s)
    (top : s.frames = f :: fs) : s.main.setting = none := by
  cases at_ : s.main with
  | bgfgSet cmd i prev =>
      have idle := ok.frames_nil (by rw [at_]; rfl)
      rw [top] at idle
      cases idle
  | _ => rfl

/-- A handler goes on: a SIGTSTP still to be sent below it stays so. -/
theorem Stopping.moved {s : St} {f : Frame} {fs : List Frame} (top : s.frames = f :: fs)
    {h : Handler} (notKill : ∀ prev pid, f.handler ≠ .sigtstp (.kill prev pid)) {pid : Int}
    (stopping : Stopping s.frames pid) : Stopping ({ f with handler := h } :: fs) pid := by
  obtain ⟨g, active, prev, at_⟩ := stopping
  rw [top] at active
  rcases List.mem_cons.1 active with rfl | below
  · exact absurd at_ (notKill prev pid)
  · exact ⟨g, List.mem_cons_of_mem _ below, prev, at_⟩

theorem Coming.moved {s t : St} {f : Frame} {fs : List Frame} {h : Handler} {pid : Int} {pr : Proc}
    (top : s.frames = f :: fs) (notKill : ∀ prev pid, f.handler ≠ .sigtstp (.kill prev pid))
    (main : t.main = s.main) (frames : t.frames = { f with handler := h } :: fs)
    (coming : Coming s pid pr) : Coming t pid pr := by
  obtain ⟨busy, waits⟩ := coming
  refine ⟨main ▸ busy, waits.imp_left fun sends => ?_⟩
  rw [frames]
  exact sends.moved top notKill

/-- `sigtstp_handler` writes `ST` for a job it will send SIGTSTP to. -/
theorem agree_tstpSet {s t : St} {f : Frame} {fs : List Frame} {prev : SigSet}
    {k : Fin MAXJOBS} (ok : Agree s) (fg : FgOk s) (top : s.frames = f :: fs)
    (at_ : f.handler = .sigtstp (.look prev)) (some_ : fgpid s.jobs ≠ 0)
    (found : getjobpid s.jobs (fgpid s.jobs) = some k) (kern : t.kern = s.kern)
    (main : t.main = s.main) (jobs : t.jobs = setState s.jobs k .st)
    (frames : t.frames = { f with handler := .sigtstp (.kill prev (fgpid s.jobs)) } :: fs) :
    Agree t := by
  have held := holds_moved top (h := .sigtstp (.kill prev (fgpid s.jobs))) (by rw [at_]; rfl)
  have busy : s.main ≠ .readLine := fun at_ =>
    some_ (fgpid_eq_zero (fg.none (by rw [at_]; rfl)))
  constructor
  · intro p pr sig found' stopped
    rw [kern] at found'
    rw [jobs, main, frames]
    rcases ok.reported p pr sig found' stopped with ⟨i, pid, state, ne⟩ | ⟨sig', holds⟩
    · exact Or.inl ⟨i, (setState_pid _ _ _ _).trans pid, setState_st.2 (.inr state), ne⟩
    · exact Or.inr ⟨sig', (held _).2 holds⟩
  · intro i pr state found' running
    rw [jobs] at state found' ⊢
    rw [kern, setState_pid] at found'
    rw [setState_pid, main]
    rcases setState_st.1 state with rfl | old
    · refine Or.inl ⟨main ▸ busy, .inl ?_⟩
      rw [frames]
      refine ⟨_, List.mem_cons_self, prev, ?_⟩
      rw [(getjobpid_eq_some found).2]
    · refine (ok.running i pr old found' running).imp_left (Coming.moved top ?_ main frames)
      rw [at_]
      rintro _ _ ⟨⟩
  · intro p sig pr holds
    rw [frames] at holds
    rw [kern]
    exact ok.held p sig pr ((held _).1 holds)

/-- `waitpid` reports a stop: `sigchld_handler` holds it. -/
theorem agree_waitpid {s t : St} {f : Frame} {fs : List Frame} {pid : Int} {status : ChStatus}
    {k : Kern} (ok : Agree s) (masks : MasksOk ∅ s) (top : s.frames = f :: fs)
    (at_ : f.handler = .sigchld .wait) (reported : s.kern.waitpid pid = some (status, k))
    (kern : t.kern = k) (main : t.main = s.main) (jobs : t.jobs = s.jobs)
    (frames : t.frames = { f with handler := .sigchld (.got pid status) } :: fs) :
    Agree t := by
  have isChld : f.handler.sig = .sigchld := by rw [at_]; rfl
  have held : ∀ c, Holds t.frames c ↔ some (pid, status) = some c := by
    intro c
    rw [frames]
    exact masks.holds_iff top isChld
  constructor
  · intro p pr sig found stopped
    rw [kern] at found
    rw [jobs, main]
    rcases Kern.waitpid_lookup reported found with ⟨-, old⟩ | ⟨rfl, sig', rfl, -⟩
    · rcases ok.reported p pr sig old stopped with entry | ⟨sig', holds⟩
      · exact Or.inl entry
      · rw [masks.holds_frames top isChld, at_] at holds
        cases holds
    · exact Or.inr ⟨sig', (held _).2 rfl⟩
  · intro i pr state found running
    rw [jobs] at state found ⊢
    rw [kern] at found
    rw [main]
    rcases Kern.waitpid_lookup reported found with ⟨-, old⟩ | ⟨-, sig, -, stopped⟩
    · refine (ok.running i pr state old running).imp_left (Coming.moved top ?_ main frames)
      rw [at_]
      rintro _ _ ⟨⟩
    · rw [stopped] at running
      cases running
  · intro p sig pr holds found running
    cases (held _).1 holds
    rw [kern] at found
    rcases Kern.waitpid_lookup reported found with ⟨ne, -⟩ | ⟨-, sig', -, stopped⟩
    · exact ne rfl
    · rw [stopped] at running
      cases running

/-- `deletejob` takes out the entry of a child that has been reaped. -/
theorem agree_delete {s t : St} {f : Frame} {fs : List Frame} {pid : Int} {ending : Ending}
    {prev : SigSet} (ok : Agree s) (tracking : Tracking s) (masks : MasksOk ∅ s)
    (top : s.frames = f :: fs) (at_ : f.handler = .sigchld (.handle pid (.ended ending) prev))
    (kern : t.kern = s.kern) (main : t.main = s.main) (list : t.list = (deletejob s.list pid).2)
    (frames : t.frames = { f with handler := .sigchld (.restore prev) } :: fs) : Agree t := by
  have isChld : f.handler.sig = .sigchld := by rw [at_]; rfl
  have gone : pid ∉ s.kern.procs :=
    tracking.got pid (.ended ending) ⟨f, by simp [top], by rw [at_]; rfl⟩
  constructor
  · intro p pr sig found stopped
    rw [kern] at found
    rw [St.jobs, list, main]
    rcases ok.reported p pr sig found stopped with ⟨i, same, state, ne⟩ | ⟨sig', holds⟩
    · have entry : (deletejob s.list pid).2.jobs i = s.jobs i := by
        apply deletejob_other
        intro same'
        rw [← same, show (s.jobs i).pid = pid from same'] at found
        exact gone (mem_of_lookup found)
      exact Or.inl ⟨i, by rw [entry, same], by rw [entry, state], ne⟩
    · rw [masks.holds_frames top isChld, at_] at holds
      cases holds
  · intro i pr state found running
    rw [St.jobs, list] at state found ⊢
    have entry : (deletejob s.list pid).2.jobs i = s.jobs i :=
      deletejob_live tracking.wf (by rw [state]; rintro ⟨⟩)
    rw [entry] at state found ⊢
    rw [kern] at found
    rw [main]
    refine (ok.running i pr state found running).imp_left (Coming.moved top ?_ main frames)
    rw [at_]
    rintro _ _ ⟨⟩
  · intro p sig pr holds
    rw [frames] at holds
    cases (masks.holds_iff top isChld).1 holds

/-- `sigchld_handler` writes the stop it holds into the list. -/
theorem agree_stop {s t : St} {f : Frame} {fs : List Frame} {pid sig₀ : Int} {prev : SigSet}
    {k : Fin MAXJOBS} (ok : Agree s) (masks : MasksOk ∅ s) (top : s.frames = f :: fs)
    (at_ : f.handler = .sigchld (.handle pid (.stopped sig₀) prev))
    (found₀ : getjobpid s.jobs pid = some k) (kern : t.kern = s.kern) (main : t.main = s.main)
    (jobs : t.jobs = setState s.jobs k .st)
    (frames : t.frames = { f with handler := .sigchld (.restore prev) } :: fs) : Agree t := by
  have isChld : f.handler.sig = .sigchld := by rw [at_]; rfl
  have mine := (getjobpid_eq_some found₀).2
  constructor
  · intro p pr sig found stopped
    rw [kern] at found
    rw [jobs, main]
    refine Or.inl ?_
    rcases ok.reported p pr sig found stopped with ⟨i, same, state, ne⟩ | ⟨sig', holds⟩
    · exact ⟨i, (setState_pid _ _ _ _).trans same, setState_st.2 (.inr state), ne⟩
    · rw [masks.holds_frames top isChld, at_] at holds
      cases holds
      refine ⟨k, (setState_pid _ _ _ _).trans mine, setState_st.2 (.inl rfl), ?_⟩
      rw [masks.not_setting top]
      rintro ⟨⟩
  · intro i pr state found running
    rw [jobs] at state found ⊢
    rw [kern, setState_pid] at found
    rw [setState_pid, main]
    rcases setState_st.1 state with rfl | old
    · -- the process was stopped when `waitpid` reported it
      rw [mine] at found
      exact absurd running (ok.held pid sig₀ pr ⟨f, by simp [top], by rw [at_]; rfl⟩ found)
    · refine (ok.running i pr old found running).imp_left (Coming.moved top ?_ main frames)
      rw [at_]
      rintro _ _ ⟨⟩
  · intro p sig pr holds
    rw [frames] at holds
    cases (masks.holds_iff top isChld).1 holds

theorem agree_handler {s t : St} {f : Frame} {fs : List Frame} {inp : Input} (ok : Agree s)
    (tracking : Tracking s) (masks : MasksOk ∅ s) (fg : FgOk s) (top : s.frames = f :: fs)
    (works : SignalsWork s (.shell inp)) (move : HandlerMove s f fs inp t) : Agree t := by
  cases move with
  | halt status =>
      exact ok.keep rfl (.of_procs rfl) (fun _ => Iff.rfl) (fun _ _ _ _ => .inl) rfl id
  | ctl ctl =>
      refine ok.keep rfl (.of_procs rfl) (holds_moved top ctl.current)
        (fun _ _ _ _ sends => .inl (sends.moved top ?_)) rfl id
      intro prev pid at_
      rw [at_] at ctl
      cases ctl
  | @intKill prev pid at_ sent =>
      have settled := (Kern.kill_sends s.kern pid .sigint).settled (by rintro ⟨⟩)
      refine ok.keep rfl settled (holds_moved top (by rw [at_]; rfl))
        (fun _ _ _ _ sends => .inl (sends.moved top ?_)) rfl id
      rw [at_]
      rintro _ _ ⟨⟩
  | tstpSet at_ some_ found => exact agree_tstpSet ok fg top at_ some_ found rfl rfl rfl rfl
  | @tstpKill prev pid at_ sent =>
      have settled := (Kern.kill_sends s.kern pid .sigtstp).settled (by rintro ⟨⟩)
      have works' : ∀ pr ∈ s.kern.procs.lookup pid, pr.KeepsTstp := by
        rw [sent] at works
        simpa only [SignalsWork, top, at_] using works
      refine ok.keep rfl settled (holds_moved top (by rw [at_]; rfl)) ?_ rfl id
      rintro p pr found running ⟨g, active, prev', at'⟩
      rw [top] at active
      rcases List.mem_cons.1 active with rfl | below
      · -- the signal has been sent
        rw [at_] at at'
        cases at'
        exact .inr (Kern.kill_sigtstp_run works' found running)
      · exact .inl ⟨g, List.mem_cons_of_mem _ below, prev', at'⟩
  | waitpid at_ reported => exact agree_waitpid ok masks top at_ reported rfl rfl rfl rfl
  | delete at_ out => exact agree_delete ok tracking masks top at_ rfl rfl rfl rfl
  | stop at_ found out => exact agree_stop ok masks top at_ found rfl rfl rfl rfl
  | pop leaves =>
      refine ok.keep rfl (.of_procs rfl) (fun c => ?_) ?_ rfl id
      · rw [top, holds_cons, leaves.current]
        simp
      · rintro pid _ - - ⟨g, active, prev, at_⟩
        rw [top] at active
        rcases List.mem_cons.1 active with rfl | below
        · rw [at_] at leaves
          exact leaves.elim
        · exact .inl ⟨g, below, prev, at_⟩

/-- **Every step keeps `Agree`**, if the signals of the shell take effect. -/
theorem agree_step {s t : St} {a : Act} (reached : tsh.Reachable s) (ok : Agree s)
    (only : OnlyShellContinues a) (works : SignalsWork s a) (step_ : step s a = some t) :
    Agree t := by
  have tracking := tracking_reachable reached
  have masks := masksOk_reachable reached
  have running := step_running step_
  cases step_move step_ with
  | arrive sig handled =>
      exact ok.keep rfl (.of_procs rfl) (fun _ => Iff.rfl) (fun _ _ _ _ => .inl) rfl id
  | quit => exact ok.keep rfl (.of_procs rfl) (fun _ => Iff.rfl) (fun _ _ _ _ => .inl) rfl id
  | deliver pending unblocked entry =>
      refine ok.keep rfl (.of_procs rfl) (fun c => ?_) ?_ ?_ ?_
      · simp [holds_cons, entryPoint_current entry]
      · rintro pid _ - - ⟨g, active, prev, at_⟩
        exact .inl ⟨g, List.mem_cons_of_mem _ active, prev, at_⟩
      · show (interrupted s).2.setting = s.main.setting
        rcases interrupted_cases s with same | ⟨pid, prev, orig, ret, at_, resumed⟩
        · rw [same]
        · rw [resumed, at_]
          rfl
      · show s.main ≠ .readLine → (interrupted s).2 ≠ .readLine
        rcases interrupted_cases s with same | ⟨pid, prev, orig, ret, at_, resumed⟩
        · rw [same]
          exact id
        · rw [resumed]
          rintro - ⟨⟩
  | @child pid act pr k alive moved =>
      have settled := Kern.settled_child (childrenOk_reachable reached) alive moved only works
      exact ok.keep rfl settled (fun _ => Iff.rfl) (fun _ _ _ _ => .inl) rfl id
  | main idle move =>
      rw [step_main running idle] at step_
      exact agree_main ok tracking idle works step_
  | handler top move =>
      exact agree_handler ok tracking masks (fgOk_reachable reached) top works move

/-- Only the shell continues children, and its signals take effect. -/
def Obedient (s : St) (a : Act) : Prop :=
  OnlyShellContinues a ∧ SignalsWork s a

instance (s : St) (a : Act) : Decidable (Obedient s a) :=
  inferInstanceAs (Decidable (_ ∧ _))

theorem agree_reaches {s : St} (reached : tsh.Reaches Obedient s) : Agree s := by
  refine Machine.invariant (P := Agree) ?_ ?_ reached
  · refine Agree.of_idle rfl (fun p pr sig found => ?_) (fun i pr state => ?_)
    · cases found
    · cases state
  · intro s a t before ok obedient step_
    exact agree_step before.reachable ok obedient.1 obedient.2 step_

/-- A quiet shell has heard of everything its children have to report. -/
theorem Quiet.reported {s : St} (quiet : Quiet s) (reached : tsh.Reachable s) {p : Int}
    {pr : Proc} (found : s.kern.procs.lookup p = some pr) : pr.unreported = false := by
  obtain ⟨-, idle, nothing⟩ := quiet
  cases told : pr.unreported with
  | false => rfl
  | true =>
      rcases told_reachable reached p pr found told with pending | ⟨f, active, -⟩
      · rw [nothing] at pending
        exact absurd pending (Finset.notMem_empty _)
      · rw [idle] at active
        cases active

/-- **States and processes match** in a quiet shell whose signals took effect. -/
theorem statesMatch_of_obedient {s : St} (reached : tsh.Reaches Obedient s) (quiet : Quiet s) :
    StatesMatch s := by
  have agree := agree_reaches reached
  have tracking := tracking_reachable reached.reachable
  obtain ⟨at_, idle, -⟩ := id quiet
  obtain ⟨reported, running⟩ := agree.idle idle
  -- the process of a listed job
  have process : ∀ i, (s.jobs i).state ≠ .undef → ∃ pr,
      s.kern.procs.lookup (s.jobs i).pid = some pr ∧ pr.unreported = false := by
    intro i live
    have occupied := tracking.wf.occupied live
    have there := tracking.child (not_holds_of_idle idle) (i := i) (by omega)
    obtain ⟨pr, found⟩ := lookup_of_mem there
    exact ⟨pr, found, quiet.reported reached.reachable found⟩
  intro i
  constructor
  · intro state
    obtain ⟨pr, found, told⟩ := process i (by rw [state]; rintro ⟨⟩)
    cases run : pr.run with
    | stopped sig r => exact ⟨pr, sig, r, found, run⟩
    | running =>
        rcases running i pr state found run with ⟨busy, -⟩ | setting
        · exact absurd at_ busy
        · rw [at_] at setting
          cases setting
    | zombie ending => simp [Proc.unreported, run] at told
  · intro state
    obtain ⟨pr, found, told⟩ := process i (by rw [state]; rintro ⟨⟩)
    cases run : pr.run with
    | running => exact ⟨pr, found, run⟩
    | zombie ending => simp [Proc.unreported, run] at told
    | stopped sig r =>
        have isReported : r = true := by simpa [Proc.unreported, run] using told
        subst isReported
        obtain ⟨j, pid, isSt, -⟩ := reported _ pr sig found run
        have occupied := tracking.wf.occupied_st isSt
        have same : j = i := tracking.wf.distinct j i (by omega) pid
        rw [same, state] at isSt
        cases isSt

/-! ## Ctrl-z -/

/-- A foreground job whose program has been started. -/
def startedForeground : List Act :=
  foreground 2 ++ [.child 2 .setpgid, .child 2 .unmask, .child 2 .execve]

/-- Ctrl-z, `sigtstp_handler` and the end of `waitfg`. -/
def ctrlZ : List Act :=
  [.arrive .sigtstp, .deliver .sigtstp] ++ List.replicate 5 (.shell .go)

/-- One turn of `sigchld_handler`, for `pid`. -/
def chldTurn (pid : Int) : List Act :=
  [.deliver .sigchld, .shell (.waited pid)] ++ List.replicate 3 (.shell .go) ++
    [.shell .nothing, .shell .go]

/-- `waitfg` finds that its job is not in the foreground any more. -/
def leaveWaitfg : List Act :=
  List.replicate 3 (.shell .go)

/-- The job stops, and its state says so. -/
theorem statesMatch_stopped :
    ∃ s, tsh.exec .start (startedForeground ++ ctrlZ ++ [.child 2 (.take .sigtstp), .shell .go] ++
        chldTurn 2 ++ leaveWaitfg) = some s ∧ (s.jobs 0).state = .st ∧ StatesMatch s := by
  obtain ⟨s, ran⟩ : ∃ s, (tsh.restrict Obedient).exec .start (startedForeground ++ ctrlZ ++
      [.child 2 (.take .sigtstp), .shell .go] ++ chldTurn 2 ++ leaveWaitfg) = some s :=
    Option.isSome_iff_exists.1 (by decide +kernel)
  have quiet : Quiet s :=
    ⟨Machine.exec_map ran (f := St.main) (by decide +kernel),
      Machine.exec_map ran (f := St.frames) (by decide +kernel),
      Machine.exec_map ran (f := fun s => s.kern.pending) (by decide +kernel)⟩
  have reached := Machine.reaches_of_restrict (Machine.reachable_of_exec ran)
  exact ⟨s, Machine.exec_of_restrict ran,
    Machine.exec_map ran (f := fun s => (s.jobs 0).state) (by decide +kernel),
    statesMatch_of_obedient reached quiet⟩

/-- **A program that ignores SIGTSTP runs on as a stopped job.** -/
theorem ignored_stop_reported :
    ∃ s, tsh.exec .start (startedForeground ++ [.child 2 (.sigaction .sigtstp .ignored)] ++
        ctrlZ ++ [.shell .go] ++ leaveWaitfg) = some s ∧ Quiet s ∧ ¬ StatesMatch s := by
  obtain ⟨s, ran⟩ : ∃ s, tsh.exec .start (startedForeground ++
      [.child 2 (.sigaction .sigtstp .ignored)] ++ ctrlZ ++ [.shell .go] ++ leaveWaitfg) =
        some s :=
    Option.isSome_iff_exists.1 (by decide +kernel)
  have quiet : Quiet s :=
    ⟨Machine.exec_map ran (f := St.main) (by decide +kernel),
      Machine.exec_map ran (f := St.frames) (by decide +kernel),
      Machine.exec_map ran (f := fun s => s.kern.pending) (by decide +kernel)⟩
  have job : (fun s : St => ((s.jobs 0).pid, (s.jobs 0).state)) s = (2, .st) :=
    Machine.exec_map ran (f := fun s => ((s.jobs 0).pid, (s.jobs 0).state)) (by decide +kernel)
  have runs : (s.kern.procs.lookup 2).map Proc.run = some .running :=
    Machine.exec_map ran (f := fun s => (s.kern.procs.lookup 2).map Proc.run)
      (by decide +kernel)
  obtain ⟨pid, state⟩ := Prod.mk.inj job
  refine ⟨s, ran, quiet, fun agrees => ?_⟩
  obtain ⟨pr, sig, r, found, stopped⟩ := (agrees 0).1 state
  rw [pid] at found
  rw [found, Option.map_some, stopped] at runs
  cases runs

end CsappLab.Tsh
