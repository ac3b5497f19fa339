/-
# Tsh.Flight — signals on their way to a job

A signal the shell has sent to the group of a job is in flight while it is
pending for the job's process, and that process is in its own group and has not
ended. `inFlight_step_iff` says which steps end the flight (`Drops`): the process
takes the signal, ends, comes to ignore it, or is sent SIGCONT while it is
SIGTSTP. Only the started program handles it (`handles`); in every other case the
signal is gone.
-/
import CsappLab.Tsh.Foreground
import CsappLab.Tsh.KillTargets

namespace CsappLab.Tsh

set_option autoImplicit false

open CsappLab.Lib

/-- The process has been sent the signal, in its own group, and can still take it. -/
def Proc.Awaits (pr : Proc) (sig : Signal) : Prop :=
  pr.phase ≠ .forked ∧ pr.ended = false ∧ sig ∈ pr.pending

/-- The signal is on its way to the process. -/
def InFlight (procs : Procs) (x : Int × Signal) : Prop :=
  ∃ pr, procs.lookup x.1 = some pr ∧ pr.Awaits x.2

namespace Kern

variable (k : Kern) (pid : Int) (sig : Signal)

/-- `kill(-pid, sig)` reaches the process `pid`: it is in that group and has not ended. -/
def reaches : Bool :=
  match k.member pid with
  | some pr => !pr.ended
  | none => false

/-- It does, and the signal stays pending. -/
def pends : Bool :=
  match k.member pid with
  | some pr => !pr.ended && !decide (pr.Discards sig)
  | none => false

/-- The child has come to `Execve`. -/
def hasStarted : Bool :=
  match k.procs.lookup pid with
  | some pr => pr.phase == .started
  | none => false

/-- Taking the signal ends the child. -/
def EndsBy : Prop :=
  sig = .sigint ∧ ∃ pr, k.procs.lookup pid = some pr ∧ pr.phase = .started ∧ pr.onInt = .default_

end Kern

/-- The started program takes the signal `x`, or comes to ignore it. -/
def handles (s : St) (x : Int × Signal) : Act → Bool
  | .child pid (.take sig) => x == (pid, sig) && s.kern.hasStarted pid
  | .child pid (.sigaction sig .ignored) => x == (pid, sig)
  | _ => false

/-- The step ends the flight of `x`. -/
def Drops (s : St) (x : Int × Signal) : Act → Prop
  | .child pid (.take sig) => x = (pid, sig) ∨ x.1 = pid ∧ s.kern.EndsBy pid sig
  | .child pid (.sigaction sig .ignored) => x = (pid, sig)
  | .child pid (.exit _) | .child pid (.killed _) => x.1 = pid
  | .child pid .cont => x = (pid, .sigtstp)
  | .shell .go => s.issued = some (-x.1, .sigcont) ∧ x.2 = .sigtstp
  | _ => False

/-! ## What becomes of a flight -/

section Flights

variable {k k' : Kern} {pid : Int} {pr pr' : Proc} {sig : Signal} {x : Int × Signal}

theorem InFlight.insert {procs : Procs} (flight : InFlight procs x)
    (mine : x.1 = pid → pr'.Awaits x.2) : InFlight (procs.insert pid pr') x := by
  obtain ⟨pr, found, awaits⟩ := flight
  by_cases same : x.1 = pid
  · exact ⟨pr', by rw [same, AList.lookup_insert], mine same⟩
  · exact ⟨pr, by rw [AList.lookup_insert_ne same, found], awaits⟩

/-- A process is replaced: its flights go on where it can still take the signal. -/
theorem inFlight_insert_iff {procs : Procs} (flight : InFlight procs x) :
    InFlight (procs.insert pid pr') x ↔ (x.1 = pid → pr'.Awaits x.2) := by
  refine ⟨?_, flight.insert⟩
  rintro ⟨pr, found, awaits⟩ same
  rw [same, AList.lookup_insert] at found
  cases found
  exact awaits

theorem InFlight.awaits (flight : InFlight k.procs x) (found : k.procs.lookup pid = some pr)
    (same : x.1 = pid) : pr.Awaits x.2 := by
  obtain ⟨pr', found', awaits⟩ := flight
  rw [same, found] at found'
  cases found'
  exact awaits

/-- No signal but SIGCONT takes another out of flight. -/
theorem InFlight.sends (flight : InFlight k.procs x) (sends : k.Sends sig k')
    (other : sig ≠ .sigcont) : InFlight k'.procs x := by
  cases sends with
  | nothing => exact flight
  | pending found alive other =>
      refine flight.insert fun same => ?_
      obtain ⟨grouped, alive, pending⟩ := flight.awaits found same
      exact ⟨grouped, alive, Finset.mem_insert_of_mem pending⟩
  | continues found alive isCont => exact absurd isCont other

/-- A signal that stays pending is in flight. -/
theorem inFlight_kill (pends : k.pends pid sig = true) (other : sig ≠ .sigcont) :
    InFlight (k.kill pid sig).procs (pid, sig) := by
  unfold Kern.pends at pends
  split at pends
  · rename_i pr isMember
    simp only [Bool.and_eq_true, Bool.not_eq_true', decide_eq_false_iff_not] at pends
    obtain ⟨alive, keeps⟩ := pends
    have grouped : pr.phase ≠ .forked := by
      intro forked
      simp [Kern.member, Kern.member_lookup isMember, forked] at isMember
    simp only [Kern.kill, isMember, Kern.post, alive, other, keeps, if_false, Kern.put,
      Bool.false_eq_true]
    exact ⟨pr.sent sig, AList.lookup_insert _, grouped, alive, Finset.mem_insert_self _ _⟩
  · cases pends

/-- A pending signal is removed: that ends its own flight and no other. -/
theorem inFlight_erase (flight : InFlight k.procs x) (found : k.procs.lookup pid = some pr)
    (phase : pr'.phase = pr.phase) (alive : pr'.ended = false)
    (removed : pr'.pending = pr.pending.erase sig) :
    InFlight (k.procs.insert pid pr') x ↔ x ≠ (pid, sig) := by
  rw [inFlight_insert_iff flight]
  constructor
  · rintro mine rfl
    have still := (mine rfl).2.2
    rw [removed] at still
    exact Finset.notMem_erase _ _ still
  · intro other same
    obtain ⟨grouped, -, pending⟩ := flight.awaits found same
    refine ⟨phase ▸ grouped, alive, ?_⟩
    rw [removed]
    exact Finset.mem_erase.2 ⟨fun eq => other (Prod.ext same eq), pending⟩

theorem inFlight_kill_sigcont (flight : InFlight k.procs x) :
    InFlight (k.kill pid .sigcont).procs x ↔ x ≠ (pid, .sigtstp) := by
  obtain ⟨pr, found, grouped, alive, pending⟩ := id flight
  by_cases same : pid = x.1
  · subst same
    have isMember : k.member x.1 = some pr := by simp [Kern.member, found, grouped]
    simp only [Kern.kill, isMember, Kern.post, alive, if_true, Bool.false_eq_true, if_false]
    exact inFlight_erase flight found rfl rfl rfl
  · refine iff_of_true ?_ fun eq => same (by rw [eq])
    unfold Kern.kill
    split
    · exact flight
    · rename_i pr' isMember
      unfold Kern.post
      split_ifs
      · exact flight
      · exact flight.insert fun eq => absurd eq.symm same
      · exact flight
      · exact flight.insert fun eq => absurd eq.symm same

/-- Taking a signal ends its flight, and every flight to a process that ends by it. -/
theorem inFlight_take (flight : InFlight k.procs x) (found : k.procs.lookup pid = some pr)
    (running : pr.run = .running) (copy : fgpid pr.jobs = 0) (takes : k.Takes pid pr sig k') :
    InFlight k'.procs x ↔ ¬ (x = (pid, sig) ∨ x.1 = pid ∧ k.EndsBy pid sig) := by
  have alive : (pr.taken sig).ended = false := by simp [Proc.ended, Proc.taken, running]
  rw [not_or]
  cases takes with
  | ends started isInt default_ =>
      have ends : k.EndsBy pid sig := ⟨isInt, pr, found, started, default_⟩
      refine (inFlight_insert_iff flight).trans ⟨fun mine => ?_, fun survives same => ?_⟩
      · have elsewhere : x.1 ≠ pid := fun same => by cases (mine same).2.1
        exact ⟨fun eq => elsewhere (by rw [eq]), fun both => elsewhere both.1⟩
      · exact absurd ⟨same, ends⟩ survives.2
  | stops started isTstp default_ =>
      have survives : ¬ k.EndsBy pid sig := by
        rintro ⟨isInt, -⟩
        rw [isTstp] at isInt
        cases isInt
      have gone : InFlight (k.report pid (pr.taken sig) (.stopped sig.number false)).procs x ↔
          x ≠ (pid, sig) := inFlight_erase flight found rfl rfl rfl
      exact gone.trans ⟨fun other => ⟨other, fun both => survives both.2⟩, And.left⟩
  | handled survives =>
      have survives : ¬ k.EndsBy pid sig := by
        rintro ⟨rfl, pr', found', started, default_⟩
        rw [found] at found'
        cases found'
        exact (survives started default_).1 rfl
      have gone : InFlight (k.put pid (pr.taken sig)).procs x ↔ x ≠ (pid, sig) :=
        inFlight_erase flight found rfl alive rfl
      exact gone.trans ⟨fun other => ⟨other, fun both => survives both.2⟩, And.left⟩
  | forwards inherited listed sends other => exact absurd copy listed

end Flights

section Steps

variable {s t : St} {x : Int × Signal}

/-- A process replaced by one that can take whatever it could take before. -/
theorem InFlight.stays {k : Kern} {pid : Int} {pr pr' : Proc} (flight : InFlight k.procs x)
    (found : k.procs.lookup pid = some pr) (awaits : pr.Awaits x.2 → pr'.Awaits x.2) :
    InFlight (k.procs.insert pid pr') x :=
  flight.insert fun same => awaits (flight.awaits found same)

/-- A step of a child. -/
theorem inFlight_child_iff {pid : Int} {pr : Proc} {act : ChildAct} {k' : Kern}
    (children : ChildrenOk s.kern.procs) (flight : InFlight s.kern.procs x)
    (found : s.kern.procs.lookup pid = some pr) (moved : s.kern.child pid pr act = some k') :
    InFlight k'.procs x ↔ ¬ Drops s x (.child pid act) := by
  cases Kern.child_move moved with
  | setpgid running at_ =>
      refine iff_of_true (flight.stays found ?_) id
      exact fun awaits => ⟨by simp, awaits.2⟩
  | unmask running at_ =>
      refine iff_of_true (flight.stays found ?_) id
      exact fun awaits => ⟨by simp, awaits.2⟩
  | execve running at_ =>
      refine iff_of_true (flight.stays found ?_) id
      exact fun awaits => ⟨by simp, awaits.2⟩
  | take running pending unblocked takes =>
      exact inFlight_take flight found running (children pid pr found).copy takes
  | @sigaction sig d _ _ running at_ =>
      have alive : pr.ended = false := by simp [Proc.ended, running]
      by_cases ignored : d = .ignored
      · subst ignored
        exact inFlight_erase flight found rfl alive rfl
      · refine iff_of_true (flight.stays found ?_) ?_
        · simp only [ignored, if_false]
          exact id
        · cases d with
          | ignored => exact absurd rfl ignored
          | _ => exact id
  | sigprocmask running at_ => exact iff_of_true (flight.stays found id) id
  | ends ending alive by_ =>
      have drops : Drops s x (.child pid act) ↔ x.1 = pid := by
        rcases by_ with ⟨code, rfl⟩ | ⟨sig, rfl⟩ <;> exact Iff.rfl
      rw [drops]
      refine (inFlight_insert_iff flight).trans ⟨fun mine same => ?_, fun other same => ?_⟩
      · cases (mine same).2.1
      · exact absurd same other
  | stop running =>
      refine iff_of_true (flight.stays found ?_) id
      exact fun awaits => ⟨awaits.1, rfl, awaits.2.2⟩
  | cont alive => exact inFlight_erase flight found rfl rfl rfl

theorem MainCtl.issued {pc : Main} {mask : SigSet} (ctl : MainCtl s pc mask)
    (idle : s.frames = []) : s.issued = none := by
  cases ctl with
  | _ at_ => simp only [St.issued, idle, at_]

/-- A step of `main`: only the SIGCONT of `do_bgfg` ends a flight. -/
theorem inFlight_main_iff {inp : Input} (flight : InFlight s.kern.procs x)
    (idle : s.frames = []) (step_ : mainStep s inp = some t) :
    InFlight t.kern.procs x ↔ ¬ Drops s x (.shell inp) := by
  have notCalling : s.issued = none → ¬ Drops s x (.shell inp) := by
    intro none_ drops
    cases inp with
    | go =>
        have call := drops.1
        rw [none_] at call
        cases call
    | _ => exact drops
  cases mainStep_move step_ with
  | halt status =>
      refine iff_of_true flight fun drops => ?_
      cases inp with
      | go =>
          -- the call that has not failed goes on to `bgfgSet`
          obtain ⟨cmd, i, prev, at_, -⟩ := issued_nil drops.1 idle
          simp only [mainStep, at_, Option.some.injEq] at step_
          have moved := congrArg St.main step_
          cases moved
      | _ => exact drops
  | ctl out ctl => exact iff_of_true flight (notCalling (ctl.issued idle))
  | fork at_ returned pos fresh =>
      refine iff_of_true ?_ (notCalling (by simp only [St.issued, idle, at_]))
      refine flight.insert fun same => ?_
      obtain ⟨pr, found, -⟩ := flight
      exact absurd (same ▸ mem_of_lookup found) fresh
  | storePid at_ free =>
      exact iff_of_true flight (notCalling (by simp only [St.issued, idle, at_]))
  | storeState at_ => exact iff_of_true flight (notCalling (by simp only [St.issued, idle, at_]))
  | storeJid at_ => exact iff_of_true flight (notCalling (by simp only [St.issued, idle, at_]))
  | @kill cmd i prev at_ sent =>
      subst sent
      refine (inFlight_kill_sigcont flight).trans (not_congr ?_)
      show x = ((s.jobs i).pid, .sigtstp) ↔ s.issued = some (-x.1, .sigcont) ∧ x.2 = .sigtstp
      simp only [St.issued, idle, at_, Option.some.injEq, Prod.ext_iff, and_true, Int.neg_inj]
      exact and_congr_left fun _ => eq_comm
  | setFg at_ => exact iff_of_true flight (notCalling (by simp only [St.issued, idle, at_]))
  | setBg at_ out => exact iff_of_true flight (notCalling (by simp only [St.issued, idle, at_]))

/-- No handler ends a flight. -/
theorem inFlight_handler {f : Frame} {fs : List Frame} {inp : Input}
    (flight : InFlight s.kern.procs x) (move : HandlerMove s f fs inp t) :
    InFlight t.kern.procs x := by
  cases move with
  | intKill at_ sent => exact flight.sends (Kern.kill_sends _ _ _) (by rintro ⟨⟩)
  | tstpKill at_ sent => exact flight.sends (Kern.kill_sends _ _ _) (by rintro ⟨⟩)
  | waitpid at_ reported =>
      obtain ⟨pr, found, ⟨ending, zombie, -, rfl⟩ | ⟨sig, stopped, -, rfl⟩⟩ :=
        Kern.waitpid_cases reported
      · -- a process that awaits a signal has not ended
        obtain ⟨pr', found', awaits⟩ := id flight
        have ne : x.1 ≠ _ := fun same => by
          have ended := (flight.awaits found same).2.1
          simp [Proc.ended, zombie] at ended
        exact ⟨pr', (AList.lookup_erase_ne ne).trans found', awaits⟩
      · exact flight.stays found fun awaits => ⟨awaits.1, rfl, awaits.2.2⟩
  | _ => exact flight

/-- **What ends a flight.** -/
theorem inFlight_step_iff {a : Act} (children : ChildrenOk s.kern.procs)
    (flight : InFlight s.kern.procs x) (step_ : step s a = some t) :
    InFlight t.kern.procs x ↔ ¬ Drops s x a := by
  have running := step_running step_
  cases step_move step_ with
  | arrive sig handled => exact iff_of_true flight id
  | quit => exact iff_of_true flight id
  | deliver pending unblocked entry => exact iff_of_true flight id
  | child alive moved => exact inFlight_child_iff children flight alive moved
  | main idle move =>
      refine inFlight_main_iff flight idle ?_
      simpa only [step, running, if_true, idle] using step_
  | @handler inp _ f fs top move =>
      refine iff_of_true (inFlight_handler flight move) fun drops => ?_
      cases inp with
      | go =>
          obtain ⟨prev, pid, -, ⟨-, isInt⟩ | ⟨-, isTstp⟩⟩ := issued_cons top drops.1
          · cases isInt
          · cases isTstp
      | _ => exact drops

/-- **A signal in flight is handled by the disposition of the started program** once the
program runs and does not block it. -/
theorem inFlight_handled {pr : Proc} (flight : InFlight s.kern.procs x)
    (alive : s.status = .running) (found : s.kern.procs.lookup x.1 = some pr)
    (running : pr.run = .running) (unblocked : x.2 ∉ pr.mask) (started : pr.phase = .started) :
    ∃ t pr', step s (.child x.1 (.take x.2)) = some t ∧ t.kern.procs.lookup x.1 = some pr' ∧
      handles s x (.child x.1 (.take x.2)) = true ∧
      (x.2 = .sigint → pr.onInt = .default_ → pr'.run = .zombie (.signaled 2)) ∧
      (x.2 = .sigtstp → pr.onTstp = .default_ → pr'.run = .stopped 20 false) ∧
      (pr.disposition x.2 ≠ .default_ → pr' = pr.taken x.2) := by
  have pending := (flight.awaits found rfl).2.2
  have goes : step s (.child x.1 (.take x.2)) =
      some { s with kern := s.kern.take x.1 pr x.2 } := by
    simp [step, alive, found, Kern.child, running, pending, unblocked]
  have handled : handles s x (.child x.1 (.take x.2)) = true := by
    simp [handles, Kern.hasStarted, found, started]
  have takes := Kern.take_takes s.kern x.1 pr x.2
  generalize s.kern.take x.1 pr x.2 = k' at goes takes
  refine ⟨{ s with kern := k' }, ?_⟩
  cases takes with
  | ends _ isInt default_ =>
      refine ⟨_, goes, AList.lookup_insert _, handled, fun _ _ => ?_, fun isTstp => ?_,
        fun other => ?_⟩
      · rw [isInt]; rfl
      · rw [isInt] at isTstp; cases isTstp
      · rw [isInt] at other; exact absurd default_ other
  | stops _ isTstp default_ =>
      refine ⟨_, goes, AList.lookup_insert _, handled, fun isInt => ?_, fun _ _ => ?_,
        fun other => ?_⟩
      · rw [isTstp] at isInt; cases isInt
      · rw [isTstp]; rfl
      · rw [isTstp] at other; exact absurd default_ other
  | handled survives =>
      refine ⟨_, goes, AList.lookup_insert _, handled, fun isInt default_ => ?_,
        fun isTstp default_ => ?_, fun _ => rfl⟩
      · rw [isInt] at survives; exact absurd rfl (survives started default_).1
      · rw [isTstp] at survives; exact absurd rfl (survives started default_).2
  | forwards inherited listed sends other => exact absurd started inherited

end Steps

end CsappLab.Tsh
