/-
# Tsh.Settles — left alone, the shell comes to rest

A shell is left alone when no new signal comes in, no child does anything but take
the signals it has been sent, and no command line is typed: what can still happen is
that pending signals are delivered and taken and that the shell's code goes on, in
any order, whatever `fork`, `kill` and `waitpid` answer. Its loops are the ones of
`waitfg`, which goes round once for every signal that wakes it, and of
`sigchld_handler`, once for every status.

Each step is paid for out of `St.effort`. A loop is paid for by what drives it:
a pending signal carries the price of the handler it will run and of one round
of `waitfg`, a status to report the price of one turn of `sigchld_handler`, a
running child both, since a signal can still end or stop it, and each signal
pending for a child the step that takes it.

The other half is that nothing is stuck before its time: a shell with no step
left is at the prompt or waits for a child that lives, with no handler active,
no signal pending or to be taken and every status reported.
-/
import CsappLab.Lib.Settling
import CsappLab.Tsh.Foreground
import Mathlib.Algebra.Order.BigOperators.Group.Finset
import Mathlib.Data.Fintype.Card

namespace CsappLab.Tsh

set_option autoImplicit false

open CsappLab.Lib

/-! ## Steps of a shell left alone -/

/-- The shell is about to read a command line. -/
def St.Prompts (s : St) : Prop :=
  s.frames = [] ∧ s.main = .readLine

instance (s : St) : Decidable s.Prompts :=
  inferInstanceAs (Decidable (_ ∧ _))

/-- The steps that need no one outside the shell but its children taking the signals
they have been sent. -/
def Alone (s : St) : Act → Prop
  | .deliver _ | .child _ (.take _) => True
  | .shell _ => ¬ s.Prompts
  | _ => False

instance (s : St) : DecidablePred (Alone s) := fun a => by
  unfold Alone
  split <;> infer_instance

/-- The shell left alone. -/
def alone : Machine St Act := tsh.restrict Alone

theorem alone_step {s t : St} {a : Act} :
    alone.step s a = some t ↔ Alone s a ∧ step s a = some t :=
  Option.ite_none_right_eq_some

/-! ## What the steps are paid from -/

/-- What a pending signal can still cost: its delivery, its handler and one round of
`waitfg`. -/
def Signal.effort : Signal → Nat
  | .sigint | .sigtstp => 10
  | .sigchld => 6
  | .sigquit => 1
  | .sigcont => 0

/-- What a child can still cost: a turn of `sigchld_handler` for a status it has
to report, for one that runs the SIGCHLD as well, and the signals it has to take. -/
def Proc.effort (pr : Proc) : Nat :=
  match pr.run with
  | .running => 10 + pr.pending.card
  | .stopped _ true => pr.pending.card
  | .stopped _ false => 4 + pr.pending.card
  | .zombie _ => 4

/-- The steps `main` still has to make up to the next prompt or suspension. A
fork and a SIGCONT leave a running child behind. -/
def Main.effort : Main → Nat
  | .readLine => 0
  | .jobsList _ | .bgfgDone _ => 1
  | .jobsBlock => 2
  | .waitfg _ (.suspended _ _) _ | .waitfg _ (.done _) _ => 2
  | .waitfg _ (.check _) _ => 3
  | .waitfg _ .top _ => 4
  | .waitfg _ (.resumed _) _ | .added _ _ _ | .bgfgSet _ _ _ => 5
  | .addJid _ _ _ _ => 6
  | .addState _ _ _ _ => 7
  | .addjob _ _ _ => 8
  | .bgfgKill _ _ _ => 16
  | .bgfgLook _ _ _ => 17
  | .bgfgBlock _ _ => 18
  | .evalFork _ _ => 19
  | .evalBlock _ => 20

/-- A call of `Kill` leaves a signal for the child to take. -/
def KillPc.effort : KillPc → Nat
  | .enter => 6
  | .look _ => 5
  | .kill _ _ => 4
  | .restore _ => 2
  | .leave => 1

def ChldPc.effort : ChldPc → Nat
  | .got _ _ => 5
  | .handle _ _ _ => 4
  | .restore _ => 3
  | .wait => 2
  | .leave => 1

def Handler.effort : Handler → Nat
  | .sigint pc | .sigtstp pc => pc.effort
  | .sigchld pc => pc.effort

def framesEffort (frames : List Frame) : Nat :=
  frames.foldr (fun f n => f.handler.effort + n) 0

def Kern.effort (k : Kern) : Nat :=
  k.pending.sum Signal.effort + weigh Proc.effort k.procs

def St.load (s : St) : Nat :=
  s.main.effort + framesEffort s.frames + s.kern.effort

def St.effort (s : St) : Nat :=
  if s.status = .running then s.load + 1 else 0

/-! ## The kernel's share -/

theorem signals_insert (sig : Signal) (pending : SigSet) :
    (insert sig pending).sum Signal.effort ≤ pending.sum Signal.effort + sig.effort := by
  by_cases there : sig ∈ pending
  · rw [Finset.insert_eq_of_mem there]
    exact Nat.le_add_right _ _
  · rw [Finset.sum_insert there, Nat.add_comm]

theorem signals_erase {sig : Signal} {pending : SigSet} (there : sig ∈ pending) :
    (pending.erase sig).sum Signal.effort + sig.effort = pending.sum Signal.effort :=
  Finset.sum_erase_add pending Signal.effort there

theorem signals_le (pending : SigSet) : pending.sum Signal.effort ≤ 27 :=
  Finset.sum_le_sum_of_subset (Finset.subset_univ pending)

namespace Proc

theorem effort_sent (pr : Proc) (sig : Signal) : (pr.sent sig).effort ≤ pr.effort + 1 := by
  have more := Finset.card_insert_le sig pr.pending
  unfold effort
  cases run : pr.run with
  | stopped n reported => cases reported <;> simp only [sent, run] <;> omega
  | _ => simp only [sent, run]; omega

theorem effort_continued {pr : Proc} (alive : pr.ended = false) :
    pr.continued.effort ≤ pr.effort + 10 := by
  have fewer := Finset.card_erase_le (s := pr.pending) (a := .sigtstp)
  unfold effort
  cases run : pr.run with
  | running => simp only [continued]; omega
  | stopped n reported => cases reported <;> simp only [continued] <;> omega
  | zombie ending => simp [ended, run] at alive

end Proc

namespace Kern

variable {k k' : Kern} {pid : Int} {pr : Proc} {sig : Signal}

theorem effort_insert (found : k.procs.lookup pid = some pr) (pr' : Proc) (pending : SigSet) :
    Kern.effort ⟨k.procs.insert pid pr', pending⟩ + pr.effort + k.pending.sum Signal.effort =
      k.effort + pr'.effort + pending.sum Signal.effort := by
  have written := weigh_insert Proc.effort k.procs pid pr'
  rw [weighAt_of_lookup _ found] at written
  simp only [effort] at written ⊢
  omega

theorem effort_put (found : k.procs.lookup pid = some pr) (pr' : Proc) :
    (k.put pid pr').effort + pr.effort = k.effort + pr'.effort := by
  have written := effort_insert found pr' k.pending
  simp only [put] at written ⊢
  omega

theorem effort_report (found : k.procs.lookup pid = some pr) (pr' : Proc) (run : RunState) :
    (k.report pid pr' run).effort + pr.effort ≤
      k.effort + Proc.effort { pr' with run := run } + 6 := by
  have written := effort_insert found { pr' with run := run } (insert .sigchld k.pending)
  have one := signals_insert .sigchld k.pending
  simp only [report, Signal.effort] at written one ⊢
  omega

/-- A signal costs the step that takes it, SIGCONT a child that runs again. -/
theorem effort_kill (k : Kern) (pid : Int) (sig : Signal) :
    (k.kill pid sig).effort ≤ k.effort + if sig = .sigcont then 10 else 1 := by
  have sends := kill_sends k pid sig
  generalize k.kill pid sig = k' at sends
  cases sends with
  | nothing => exact Nat.le_add_right _ _
  | @pending p pr found alive other =>
      have written := effort_put found (pr.sent sig)
      have one := pr.effort_sent sig
      rw [if_neg other]
      omega
  | @continues p pr found alive isCont =>
      have written := effort_put found pr.continued
      have runs := Proc.effort_continued alive
      rw [if_pos isCont]
      omega

/-- Taking a signal is paid for by the signal, what it does by the child. -/
theorem effort_take (found : k.procs.lookup pid = some pr) (running : pr.run = .running)
    (pending : sig ∈ pr.pending) (copy : fgpid pr.jobs = 0) (takes : k.Takes pid pr sig k') :
    k'.effort < k.effort := by
  have fewer := Finset.card_erase_add_one pending
  have before : pr.effort = 10 + pr.pending.card := by simp only [Proc.effort, running]
  cases takes with
  | ends started isInt default_ =>
      have written := effort_report found (pr.taken sig) (.zombie (.signaled sig.number))
      have after : Proc.effort { pr.taken sig with run := .zombie (.signaled sig.number) } = 4 :=
        rfl
      rw [after] at written
      omega
  | stops started isTstp default_ =>
      have written := effort_report found (pr.taken sig) (.stopped sig.number false)
      have after : Proc.effort { pr.taken sig with run := .stopped sig.number false } =
          4 + (pr.pending.erase sig).card := rfl
      rw [after] at written
      omega
  | handled survives =>
      have written := effort_put found (pr.taken sig)
      have after : (pr.taken sig).effort = 10 + (pr.pending.erase sig).card := by
        simp only [Proc.effort, Proc.taken, running]
      omega
  | forwards inherited listed sends other => exact absurd copy listed

/-- A report pays for the turn of the handler it starts. -/
theorem effort_waitpid {status : ChStatus} (reported : k.waitpid pid = some (status, k')) :
    k'.effort + 4 = k.effort := by
  obtain ⟨pr, found, ⟨ending, zombie, -, rfl⟩ | ⟨sig, stopped, -, rfl⟩⟩ :=
    waitpid_cases reported
  · have removed := weigh_erase Proc.effort k.procs pid
    rw [weighAt_of_lookup _ found] at removed
    simp only [effort, Proc.effort, zombie] at removed ⊢
    omega
  · have written := effort_put found { pr with run := .stopped sig true }
    simp only [Proc.effort, stopped] at written ⊢
    omega

end Kern

/-! ## Every step is paid for -/

/-- `waitfg` always goes on to another control point. -/
theorem waitfgStep_moves {s t : St} {pid : Int} {ret : WaitRet} {pc : WaitPc}
    (step_ : waitfgStep s pid ret pc = some t) : t.main ≠ .waitfg pid pc ret := by
  cases pc with
  | top => cases step_; simp [St.goto]
  | check prev =>
      simp only [waitfgStep] at step_
      split at step_ <;> cases step_ <;> simp [St.goto]
  | suspended prev orig => cases step_
  | resumed prev => cases step_; simp [St.goto]
  | done prev => cases ret <;> cases step_ <;> simp [St.goto]

/-- A step of `main` that does not end the shell goes on to another control point. -/
theorem mainStep_moves {s t : St} {inp : Input} (step_ : mainStep s inp = some t)
    (busy : s.main ≠ .readLine) (running : t.status = .running) : t.main ≠ s.main := by
  unfold mainStep at step_
  split at step_ <;> rename_i at_
  case h_1 => exact absurd at_ busy
  case h_2 => exact absurd at_ busy
  case h_12 => rw [at_]; exact waitfgStep_moves step_
  case h_6 =>
      split at step_ <;> cases step_
      simp [at_]
  case h_8 =>
      split at step_
      · cases step_; simp [St.goto, at_]
      · split at step_ <;> cases step_ <;> simp [St.goto, at_]
  case h_11 => split at step_ <;> cases step_ <;> simp [St.goto, at_]
  case h_14 =>
      split at step_
      · cases step_; simp [St.goto, at_]
      · split at step_
        · split at step_ <;> cases step_ <;> simp [St.goto, at_]
        · cases step_; simp [St.goto, at_]
  -- `fork` or `kill` failed
  case h_7 => cases step_; cases running
  case h_16 => cases step_; cases running
  all_goals cases step_
  all_goals simp [St.goto, at_]

section HandlerSteps

variable {s t : St} {f : Frame} {fs : List Frame} {inp : Input}

theorem handler_frames_ne {u : St} {h : Handler} (top : u.frames = f :: fs)
    (other : h ≠ f.handler) : (u.handler h).frames ≠ f :: fs := by
  simp only [St.handler, top]
  intro same
  have head := (List.cons.inj same).1
  exact other (by rw [← head])

theorem sigintStep_moves {pc : KillPc} (top : s.frames = f :: fs) (at_ : f.handler = .sigint pc)
    (step_ : sigintStep s pc inp = some t) (running : t.status = .running) :
    t.frames ≠ f :: fs := by
  unfold sigintStep at step_
  split at step_
  case h_2 => split at step_ <;> cases step_ <;> exact handler_frames_ne top (by simp [at_])
  case h_4 => cases step_; cases running
  all_goals cases step_
  all_goals exact handler_frames_ne top (by simp [at_])

theorem sigtstpStep_moves {pc : KillPc} (top : s.frames = f :: fs)
    (at_ : f.handler = .sigtstp pc) (step_ : sigtstpStep s pc inp = some t)
    (running : t.status = .running) : t.frames ≠ f :: fs := by
  unfold sigtstpStep at step_
  split at step_
  case h_2 =>
      split at step_
      · cases step_; exact handler_frames_ne top (by simp [at_])
      · split at step_ <;> cases step_
        · exact handler_frames_ne top (by simp [at_])
        · cases running
  case h_4 => cases step_; cases running
  all_goals cases step_
  all_goals exact handler_frames_ne top (by simp [at_])

theorem sigchldStep_moves {pc : ChldPc} (top : s.frames = f :: fs)
    (at_ : f.handler = .sigchld pc) (step_ : sigchldStep s pc inp = some t)
    (running : t.status = .running) : t.frames ≠ f :: fs := by
  unfold sigchldStep at step_
  split at step_
  case h_1 =>
      obtain ⟨r, -, rfl⟩ := Option.map_eq_some_iff.1 step_
      exact handler_frames_ne top (by simp [at_])
  case h_2 => split at step_ <;> cases step_; exact handler_frames_ne top (by simp [at_])
  case h_6 =>
      split at step_ <;> cases step_
      · exact handler_frames_ne top (by simp [at_])
      · cases running
  all_goals cases step_
  all_goals exact handler_frames_ne top (by simp [at_])

/-- A step of a handler that does not end the shell changes its frame or leaves it. -/
theorem handlerStep_moves (top : s.frames = f :: fs) (step_ : handlerStep s f fs inp = some t)
    (running : t.status = .running) : t.frames ≠ f :: fs := by
  unfold handlerStep at step_
  split at step_
  case h_4 at_ _ => exact sigintStep_moves top at_ step_ running
  case h_5 at_ _ => exact sigtstpStep_moves top at_ step_ running
  case h_6 at_ _ => exact sigchldStep_moves top at_ step_ running
  all_goals cases step_
  all_goals exact fun same => List.cons_ne_self f fs same.symm

end HandlerSteps

theorem effort_mainCtl {s : St} {pc : Main} {mask : SigSet} (busy : s.main ≠ .readLine)
    (ctl : MainCtl s pc mask) : pc.effort < s.main.effort := by
  cases ctl with
  | dispatch at_ fresh => exact absurd at_ busy
  | _ at_ => rw [at_]; simp [Main.effort]

theorem effort_handlerCtl {s : St} {h h' : Handler} {mask : SigSet}
    (ctl : HandlerCtl s h h' mask) : h'.effort < h.effort := by
  cases ctl <;> simp [Handler.effort, KillPc.effort, ChldPc.effort]

theorem framesEffort_cons (f : Frame) (fs : List Frame) :
    framesEffort (f :: fs) = f.handler.effort + framesEffort fs :=
  rfl

theorem Handler.effort_pos (h : Handler) : 0 < h.effort := by
  cases h with
  | sigint pc => cases pc <;> simp [effort, KillPc.effort]
  | sigtstp pc => cases pc <;> simp [effort, KillPc.effort]
  | sigchld pc => cases pc <;> simp [effort, ChldPc.effort]

theorem load_main {s t : St} {inp : Input} (step_ : mainStep s inp = some t)
    (busy : s.main ≠ .readLine) (running : t.status = .running) : t.load < s.load := by
  have moves := mainStep_moves step_ busy running
  cases mainStep_move step_ with
  | halt status => exact absurd rfl moves
  | ctl out ctl =>
      have lower := effort_mainCtl busy ctl
      simp only [St.load]
      omega
  | @fork l prev pid at_ returned pos fresh =>
      -- the child costs as much as `main` saves
      have written := weigh_insert Proc.effort s.kern.procs pid (newProc s prev)
      have child : (newProc s prev).effort = 10 := rfl
      rw [weighAt_of_notMem _ fresh, child] at written
      simp only [St.load, at_, Kern.effort, Main.effort] at written ⊢
      omega
  | storePid at_ free => simp [St.load, at_, Main.effort]
  | storeState at_ => simp [St.load, at_, Main.effort]
  | storeJid at_ => simp [St.load, at_, Main.effort]
  | @kill cmd i prev at_ sent =>
      have sends := Kern.effort_kill s.kern (s.jobs i).pid .sigcont
      simp only [St.load, at_, Main.effort, if_true] at sends ⊢
      omega
  | setFg at_ => simp [St.load, at_, Main.effort]
  | setBg at_ out => simp [St.load, at_, Main.effort]

theorem load_handler {s t : St} {f : Frame} {fs : List Frame} {inp : Input}
    (top : s.frames = f :: fs) (step_ : handlerStep s f fs inp = some t)
    (running : t.status = .running) : t.load < s.load := by
  have moves := handlerStep_moves top step_ running
  have before : s.load = s.main.effort + (f.handler.effort + framesEffort fs) + s.kern.effort := by
    rw [St.load, top, framesEffort_cons]
  rw [before]
  cases handlerStep_move top step_ with
  | halt status => exact absurd top moves
  | ctl ctl =>
      have lower := effort_handlerCtl ctl
      simp only [St.load, framesEffort_cons]
      omega
  | @intKill prev pid at_ sent =>
      have sends := Kern.effort_kill s.kern pid .sigint
      rw [at_]
      simp only [St.load, framesEffort_cons, Handler.effort, KillPc.effort, reduceCtorEq,
        if_false] at sends ⊢
      omega
  | tstpSet at_ some_ found =>
      rw [at_]
      simp only [St.load, framesEffort_cons, Handler.effort, KillPc.effort]
      omega
  | @tstpKill prev pid at_ sent =>
      have sends := Kern.effort_kill s.kern pid .sigtstp
      rw [at_]
      simp only [St.load, framesEffort_cons, Handler.effort, KillPc.effort, reduceCtorEq,
        if_false] at sends ⊢
      omega
  | waitpid at_ reported =>
      have paid := Kern.effort_waitpid reported
      rw [at_]
      simp only [St.load, framesEffort_cons, Handler.effort, ChldPc.effort]
      omega
  | delete at_ out =>
      rw [at_]
      simp only [St.load, framesEffort_cons, Handler.effort, ChldPc.effort]
      omega
  | stop at_ found out =>
      rw [at_]
      simp only [St.load, framesEffort_cons, Handler.effort, ChldPc.effort]
      omega
  | pop leaves =>
      have pos := f.handler.effort_pos
      simp only [St.load]
      omega

/-- A signal pays for its handler and for the round of `waitfg` it starts. -/
theorem load_deliver {s t : St} {sig : Signal} (step_ : step s (.deliver sig) = some t)
    (running : t.status = .running) : t.load < s.load := by
  cases step_move step_ with
  | quit => cases running
  | @deliver _ h pending unblocked entry =>
      have fewer := signals_erase pending
      have handler : h.effort + 4 ≤ sig.effort := by
        cases sig <;> cases entry <;>
          simp [Handler.effort, KillPc.effort, ChldPc.effort, Signal.effort]
      have main : (interrupted s).2.effort ≤ s.main.effort + 3 := by
        rcases interrupted_cases s with same | ⟨pid, prev, orig, ret, at_, resumed⟩
        · rw [same]
          exact Nat.le_add_right _ _
        · rw [at_, resumed]
          exact Nat.le_refl 5
      simp only [St.load, framesEffort_cons, Kern.effort]
      omega

/-- So does a signal a child takes. -/
theorem load_take {s t : St} {pid : Int} {sig : Signal} (reached : tsh.Reachable s)
    (step_ : step s (.child pid (.take sig)) = some t) : t.load < s.load := by
  cases step_move step_ with
  | @child _ _ pr k found moved =>
      cases Kern.child_move moved with
      | take running pending unblocked takes =>
          have copy := (childrenOk_reachable reached pid pr found).copy
          have lower := Kern.effort_take found running pending copy takes
          simp only [St.load]
          omega
      | ends ending alive by_ => rcases by_ with ⟨_, ⟨⟩⟩ | ⟨_, ⟨⟩⟩

/-- **Every step is paid for.** -/
theorem effort_step (s : St) (a : Act) (t : St) (reached : tsh.Reachable s)
    (step_ : alone.step s a = some t) : t.effort < s.effort := by
  obtain ⟨left, step_⟩ := alone_step.1 step_
  have before := step_running step_
  have lower : t.status = .running → t.load < s.load := by
    intro running
    cases a with
    | arrive sig => exact left.elim
    | deliver sig => exact load_deliver step_ running
    | child pid act =>
        cases act with
        | take sig => exact load_take reached step_
        | _ => exact left.elim
    | shell inp =>
        cases top : s.frames with
        | nil =>
            rw [step_main before top] at step_
            exact load_main step_ (fun at_ => left ⟨top, at_⟩) running
        | cons f fs =>
            rw [step_handler before top] at step_
            exact load_handler top step_ running
  rw [St.effort, St.effort, if_pos before]
  split
  · have := lower ‹_›
    omega
  · omega

/-! ## How much there is to pay from -/

theorem Main.effort_le (main : Main) : main.effort ≤ 20 := by
  unfold Main.effort
  split <;> simp

theorem Handler.effort_le (h : Handler) : h.effort ≤ 6 := by
  cases h with
  | sigint pc => cases pc <;> simp [effort, KillPc.effort]
  | sigtstp pc => cases pc <;> simp [effort, KillPc.effort]
  | sigchld pc => cases pc <;> simp [effort, ChldPc.effort]

/-- A child has two signals to take at most. -/
theorem Proc.Plain.effort_le {pr : Proc} (plain : pr.Plain) : pr.effort ≤ 12 := by
  have two : pr.pending.card ≤ 2 := Finset.card_le_card plain.sent
  unfold Proc.effort
  split <;> omega

theorem map_contexts (m : SigSet) (fs : List Frame) :
    (contexts m fs).map Prod.fst = fs.map fun f => f.handler.sig := by
  induction fs generalizing m with
  | nil => rfl
  | cons f fs ih => rw [contexts, List.map_cons, List.map_cons, ih]

/-- There are three handlers, and none is active twice. -/
theorem MasksOk.length_frames_le {b : SigSet} {s : St} (ok : MasksOk b s) :
    s.frames.length ≤ 3 := by
  have distinct := ok.nested.nodup
  rw [map_contexts] at distinct
  have handled : (s.frames.map fun f => f.handler.sig) ⊆ [.sigint, .sigtstp, .sigchld] := by
    intro sig active
    obtain ⟨f, -, rfl⟩ := List.mem_map.1 active
    cases f.handler <;> simp [Handler.sig]
  have short := (List.subperm_of_subset distinct handled).length_le
  rwa [List.length_map] at short

theorem framesEffort_le (fs : List Frame) : framesEffort fs ≤ 6 * fs.length := by
  induction fs with
  | nil => exact Nat.le_refl 0
  | cons f fs ih =>
      have head := f.handler.effort_le
      rw [framesEffort_cons, List.length_cons]
      omega

theorem effort_le {s : St} (reached : tsh.Reachable s) :
    s.effort ≤ 12 * s.kern.procs.entries.length + 66 := by
  have main := s.main.effort_le
  have frames := framesEffort_le s.frames
  have stack := (masksOk_reachable reached).length_frames_le
  have signals := signals_le s.kern.pending
  have children : weigh Proc.effort s.kern.procs ≤ 12 * s.kern.procs.entries.length :=
    weigh_le Proc.effort fun e listed =>
      (childrenOk_reachable reached e.1 e.2 (AList.mem_lookup_iff.2 listed)).effort_le
  unfold St.effort
  split
  · simp only [St.load, Kern.effort]
    omega
  · omega

/-! ## Nothing is stuck -/

/-- `waitpid` has a status to return, or it has nothing to report. -/
theorem Kern.waitpid_or_nothing (k : Kern) :
    (∃ pid r, k.waitpid pid = some r) ∨ k.nothingToReport = true := by
  by_cases nothing : k.nothingToReport = true
  · exact Or.inr nothing
  · refine Or.inl ?_
    simp only [nothingToReport, List.all_eq_true, not_forall] at nothing
    obtain ⟨⟨pid, pr⟩, listed, unreported⟩ := nothing
    have found : k.procs.lookup pid = some pr := AList.mem_lookup_iff.2 listed
    cases run : pr.run with
    | running => simp [Proc.unreported, run] at unreported
    | stopped sig reported =>
        cases reported with
        | true => simp [Proc.unreported, run] at unreported
        | false => exact ⟨pid, _, by simp only [waitpid, found, run]; rfl⟩
    | zombie ending => exact ⟨pid, _, by simp only [waitpid, found, run]; rfl⟩

theorem sigintStep_goes (s : St) {pc : KillPc} (more : pc ≠ .leave) :
    ∃ t, sigintStep s pc .go = some t := by
  cases pc with
  | look prev =>
      simp only [sigintStep]
      split <;> exact ⟨_, rfl⟩
  | leave => exact absurd rfl more
  | _ => exact ⟨_, rfl⟩

theorem sigtstpStep_goes (s : St) {pc : KillPc} (more : pc ≠ .leave) :
    ∃ t, sigtstpStep s pc .go = some t := by
  cases pc with
  | look prev =>
      simp only [sigtstpStep]
      split
      · exact ⟨_, rfl⟩
      · split <;> exact ⟨_, rfl⟩
  | leave => exact absurd rfl more
  | _ => exact ⟨_, rfl⟩

theorem sigchldStep_goes (s : St) {pc : ChldPc} (more : pc ≠ .leave) :
    ∃ inp t, sigchldStep s pc inp = some t := by
  cases pc with
  | wait =>
      rcases s.kern.waitpid_or_nothing with ⟨pid, r, reported⟩ | nothing
      · exact ⟨.waited pid, _, by simp only [sigchldStep, reported, Option.map_some]; rfl⟩
      · exact ⟨.nothing, _, by simp only [sigchldStep, nothing, if_true]; rfl⟩
  | handle pid status prev =>
      refine ⟨.go, ?_⟩
      cases status with
      | ended ending => cases ending <;> exact ⟨_, rfl⟩
      | stopped sig =>
          simp only [sigchldStep]
          split <;> exact ⟨_, rfl⟩
  | leave => exact absurd rfl more
  | _ => exact ⟨.go, _, rfl⟩

/-- A handler can always go on. -/
theorem handler_goes (s : St) (f : Frame) (fs : List Frame) :
    ∃ inp t, handlerStep s f fs inp = some t := by
  obtain ⟨h, saved⟩ := f
  cases h with
  | sigint pc =>
      by_cases leaves : pc = .leave
      · subst leaves
        exact ⟨.go, _, rfl⟩
      · obtain ⟨t, step_⟩ := sigintStep_goes s leaves
        refine ⟨.go, t, ?_⟩
        rw [← step_]
        cases pc <;> first | rfl | exact absurd rfl leaves
  | sigtstp pc =>
      by_cases leaves : pc = .leave
      · subst leaves
        exact ⟨.go, _, rfl⟩
      · obtain ⟨t, step_⟩ := sigtstpStep_goes s leaves
        refine ⟨.go, t, ?_⟩
        rw [← step_]
        cases pc <;> first | rfl | exact absurd rfl leaves
  | sigchld pc =>
      by_cases leaves : pc = .leave
      · subst leaves
        exact ⟨.go, _, rfl⟩
      · obtain ⟨inp, t, step_⟩ := sigchldStep_goes s leaves
        refine ⟨inp, t, ?_⟩
        rw [← step_]
        cases pc <;> first | rfl | exact absurd rfl leaves

theorem waitfgStep_goes (s : St) (pid : Int) (ret : WaitRet) {pc : WaitPc}
    (awake : ¬ (Main.waitfg pid pc ret).Suspended) : ∃ t, waitfgStep s pid ret pc = some t := by
  cases pc with
  | check prev =>
      simp only [waitfgStep]
      split <;> exact ⟨_, rfl⟩
  | suspended prev orig => exact absurd trivial awake
  | done prev => cases ret <;> exact ⟨_, rfl⟩
  | _ => exact ⟨_, rfl⟩

/-- So can `main` where it does not wait for a line or for a signal. -/
theorem main_goes {s : St} (busy : s.main ≠ .readLine) (awake : ¬ s.main.Suspended) :
    ∃ inp t, mainStep s inp = some t := by
  cases at_ : s.main with
  | readLine => exact absurd at_ busy
  | evalFork l prev => exact ⟨.forkFails, _, by simp only [mainStep, at_]; rfl⟩
  | addjob l prev pid =>
      refine ⟨.go, ?_⟩
      simp only [mainStep, at_]
      split
      · exact ⟨_, rfl⟩
      · split <;> exact ⟨_, rfl⟩
  | added l prev pid =>
      refine ⟨.go, ?_⟩
      simp only [mainStep, at_]
      split <;> exact ⟨_, rfl⟩
  | waitfg pid pc ret =>
      obtain ⟨t, step_⟩ := waitfgStep_goes s pid ret (at_ ▸ awake)
      exact ⟨.go, t, by simp only [mainStep, at_, step_]⟩
  | bgfgLook cmd arg prev =>
      refine ⟨.go, ?_⟩
      simp only [mainStep, at_]
      split
      · exact ⟨_, rfl⟩
      · split
        · split <;> exact ⟨_, rfl⟩
        · exact ⟨_, rfl⟩
  | bgfgSet cmd i prev => cases cmd <;> exact ⟨.go, _, by simp only [mainStep, at_]; rfl⟩
  | _ => exact ⟨.go, _, by simp only [mainStep, at_]; rfl⟩

theorem deliver_goes {s : St} {sig : Signal} (running : s.status = .running)
    (pending : sig ∈ s.kern.pending) (unblocked : sig ∉ s.mask) (handled : sig ≠ .sigcont) :
    ∃ t, step s (.deliver sig) = some t := by
  simp only [step, running, if_true, deliver, pending, unblocked, not_false_eq_true, and_self]
  cases sig with
  | sigcont => exact absurd rfl handled
  | _ => exact ⟨_, rfl⟩

/-! ### No SIGCONT is ever pending -/

namespace Kern

variable {k k' : Kern} {pid : Int} {pr : Proc}

theorem pending_kill (k : Kern) (pid : Int) (sig : Signal) :
    (k.kill pid sig).pending = k.pending := by
  have sends := kill_sends k pid sig
  generalize k.kill pid sig = k' at sends
  cases sends <;> rfl

/-- The children make no signal pending but SIGCHLD. -/
theorem pending_child {act : ChildAct} (copy : fgpid pr.jobs = 0)
    (moved : k.child pid pr act = some k') : k'.pending ⊆ insert .sigchld k.pending := by
  have more : k.pending ⊆ insert .sigchld k.pending := Finset.subset_insert _ _
  cases child_move moved with
  | take running pending unblocked takes =>
      cases takes with
      | ends started isInt default_ => exact Finset.Subset.refl _
      | stops started isTstp default_ => exact Finset.Subset.refl _
      | handled survives => exact more
      | forwards inherited listed sends other => exact absurd copy listed
  | ends ending alive by_ => exact Finset.Subset.refl _
  | stop running => exact Finset.Subset.refl _
  | _ => exact more

theorem pending_waitpid {status : ChStatus} (reported : k.waitpid pid = some (status, k')) :
    k'.pending = k.pending := by
  obtain ⟨pr, -, ⟨ending, -, -, rfl⟩ | ⟨sig, -, -, rfl⟩⟩ := waitpid_cases reported <;> rfl

end Kern

theorem notCont_step {s t : St} {a : Act} (children : ChildrenOk s.kern.procs)
    (before : .sigcont ∉ s.kern.pending) (step_ : step s a = some t) :
    .sigcont ∉ t.kern.pending := by
  have grown : ∀ {pending : SigSet}, pending ⊆ insert .sigchld s.kern.pending →
      .sigcont ∉ pending := by
    intro pending within there
    rcases Finset.mem_insert.1 (within there) with isChld | old
    · cases isChld
    · exact before old
  cases step_move step_ with
  | arrive sig handled =>
      exact fun there => (Finset.mem_insert.1 there).elim (fun same => handled same.symm) before
  | quit => exact before
  | deliver pending unblocked entry => exact fun there => before (Finset.mem_of_mem_erase there)
  | child alive moved => exact grown (Kern.pending_child (children _ _ alive).copy moved)
  | main idle move =>
      cases move with
      | kill at_ sent => exact (Kern.pending_kill _ _ _).symm ▸ before
      | _ => exact before
  | handler top move =>
      cases move with
      | intKill at_ sent => exact (Kern.pending_kill _ _ _).symm ▸ before
      | tstpKill at_ sent => exact (Kern.pending_kill _ _ _).symm ▸ before
      | waitpid at_ reported =>
          show Signal.sigcont ∉ Kern.pending _
          rw [Kern.pending_waitpid reported]
          exact before
      | _ => exact before

theorem notCont_reachable {s : St} (reached : tsh.Reachable s) : .sigcont ∉ s.kern.pending :=
  Machine.invariant (P := fun s => .sigcont ∉ s.kern.pending) (Finset.notMem_empty _)
    (fun _ _ _ reached before _ step_ => notCont_step (childrenOk_reachable reached) before step_)
    reached

/-! ## At rest -/

/-- There is nothing left to do: no handler is active, no signal pending, no signal
sent to a child that it could take, no status unreported, every listed job is a child
that runs or is stopped, and `main` waits for a line, or for a foreground job that is
one of them. -/
structure Rests (s : St) : Prop where
  idle : s.frames = []
  handled : s.kern.pending = ∅
  taken : ∀ pid pr sig, s.kern.procs.lookup pid = some pr → pr.run = .running →
    sig ∈ pr.pending → sig ∈ pr.mask
  reported : ∀ pid pr, s.kern.procs.lookup pid = some pr → pr.unreported = false
  listed : ∀ i, (s.jobs i).pid ≠ 0 → (s.jobs i).pid ∈ s.kern.procs
  waits : s.main = .readLine ∨ ∃ pid prev orig ret,
    s.main = .waitfg pid (.suspended prev orig) ret ∧ fgpid s.jobs = pid ∧ pid ∈ s.kern.procs

theorem Main.Suspended.cases {main : Main} (suspended : main.Suspended) :
    ∃ pid prev orig ret, main = .waitfg pid (.suspended prev orig) ret := by
  unfold Main.Suspended at suspended
  split at suspended
  · exact ⟨_, _, _, _, rfl⟩
  · exact suspended.elim

/-- No signal is blocked where `main` waits. -/
theorem mask_waiting {s : St} (masks : MasksOk ∅ s) (idle : s.frames = [])
    (waiting : s.main = .readLine ∨ s.main.Suspended) : s.mask = ∅ := by
  rw [masks.mask_main idle]
  rcases waiting with at_ | suspended
  · rw [at_]; rfl
  · obtain ⟨pid, prev, orig, ret, at_⟩ := suspended.cases
    rw [at_]; rfl

/-- A shell that cannot go on is at rest. -/
theorem rests_of_stuck {s : St} (reached : tsh.Reachable s) (running : s.status = .running)
    (stuck : ∀ a, alone.step s a = none) : Rests s := by
  have tracking := tracking_reachable reached
  have no : ∀ {a t}, Alone s a → step s a ≠ some t := by
    intro a t left step_
    have goes := alone_step.2 ⟨left, step_⟩
    rw [stuck a] at goes
    cases goes
  have idle : s.frames = [] := by
    cases top : s.frames with
    | nil => rfl
    | cons f fs =>
        obtain ⟨inp, t, step_⟩ := handler_goes s f fs
        have active : ¬ s.Prompts := fun prompts => by
          rw [prompts.1] at top
          cases top
        exact absurd ((step_handler running top inp).trans step_) (no active)
  have waiting : s.main = .readLine ∨ s.main.Suspended := by
    by_cases busy : s.main = .readLine
    · exact Or.inl busy
    · refine Or.inr (by_contra fun awake => ?_)
      obtain ⟨inp, t, step_⟩ := main_goes busy awake
      exact no (a := .shell inp) (fun prompts => busy prompts.2)
        ((step_main running idle inp).trans step_)
  have handled : s.kern.pending = ∅ := by
    rw [Finset.eq_empty_iff_forall_notMem]
    intro sig pending
    have unblocked : sig ∉ s.mask := by
      rw [mask_waiting (masksOk_reachable reached) idle waiting]
      exact Finset.notMem_empty _
    have notCont : sig ≠ .sigcont := by
      rintro rfl
      exact notCont_reachable reached pending
    obtain ⟨t, step_⟩ := deliver_goes running pending unblocked notCont
    exact no (a := .deliver sig) trivial step_
  refine ⟨idle, handled, fun pid pr sig found runs pending => ?_, fun pid pr found => ?_,
    fun i occupied => ?_, ?_⟩
  · by_contra unblocked
    refine no (a := .child pid (.take sig)) (t := { s with kern := s.kern.take pid pr sig })
      trivial ?_
    simp only [step, running, if_true, found, Kern.child, runs, pending, unblocked,
      not_false_eq_true, and_self, Option.map_some]
  · by_contra unreported
    rcases told_reachable reached pid pr found (Bool.of_not_eq_false unreported) with
      pending | ⟨f, active, -⟩
    · rw [handled] at pending
      exact Finset.notMem_empty _ pending
    · rw [idle] at active
      cases active
  · exact tracking.child (not_holds_of_idle idle) occupied
  · refine waiting.imp_right fun suspended => ?_
    obtain ⟨pid, prev, orig, ret, at_⟩ := suspended.cases
    obtain ⟨pr, found, -⟩ := suspended_wakes reached running at_
    have waits := waitOk_reachable reached
    rw [at_] at waits
    exact ⟨pid, prev, orig, ret, at_, waits.2 trivial, mem_of_lookup found⟩

/-- A shell at rest cannot go on. -/
theorem Rests.stuck {s : St} (rests : Rests s) (a : Act) : alone.step s a = none := by
  rw [Option.eq_none_iff_forall_ne_some]
  intro t goes
  obtain ⟨left, step_⟩ := alone_step.1 goes
  have running := step_running step_
  cases a with
  | arrive sig => exact left
  | child pid act =>
      cases act with
      | take sig =>
          cases step_move step_ with
          | child found moved =>
              simp only [Kern.child, Option.ite_none_right_eq_some] at moved
              obtain ⟨⟨runs, pending, unblocked⟩, -⟩ := moved
              exact unblocked (rests.taken pid _ sig found runs pending)
      | _ => exact left
  | deliver sig =>
      have gone : sig ∉ s.kern.pending := by
        rw [rests.handled]
        exact Finset.notMem_empty _
      simp only [step, running, if_true, deliver, gone, false_and, if_false] at step_
      cases step_
  | shell inp =>
      rw [step_main running rests.idle] at step_
      rcases rests.waits with at_ | ⟨pid, prev, orig, ret, at_, -⟩
      · exact left ⟨rests.idle, at_⟩
      · cases inp <;> simp only [mainStep, at_, waitfgStep] at step_ <;> cases step_

/-- **Left alone, the shell comes to rest.** However the signals already pending
are delivered and taken and whatever `fork`, `kill` and `waitpid` answer, it takes at
most twelve steps for each child and 66 more, it stops only when it has ended or is
at rest, and at rest it stays. -/
theorem shell_settles {s : St} (reached : tsh.Reachable s) :
    (∃ as t, alone.exec s as = some t ∧ (t.status = .running → Rests t)) ∧
    ∀ as t, alone.exec s as = some t →
      as.length ≤ 12 * s.kern.procs.entries.length + 66 ∧
        ((∀ a, alone.step t a = none) ↔ (t.status = .running → Rests t)) := by
  have later : ∀ {as t}, alone.exec s as = some t → tsh.Reachable t := fun ran =>
    Machine.Reaches.exec reached (Machine.exec_of_restrict ran)
  have keeps : ∀ u a t, tsh.Reachable u → alone.step u a = some t → tsh.Reachable t :=
    fun _ _ _ before goes => .step before trivial (alone_step.1 goes).2
  constructor
  · obtain ⟨as, t, ran, stuck⟩ := Machine.exists_stuck keeps effort_step reached
    exact ⟨as, t, ran, fun running => rests_of_stuck (later ran) running stuck⟩
  · intro as t ran
    refine ⟨?_, fun stuck running => rests_of_stuck (later ran) running stuck, fun rests a => ?_⟩
    · have paid := Machine.exec_length_le keeps effort_step reached ran
      have budget := effort_le reached
      omega
    · by_cases running : t.status = .running
      · exact (rests running).stuck a
      · rw [Option.eq_none_iff_forall_ne_some]
        intro u goes
        exact running (step_running (alone_step.1 goes).2)

/-- A shell that sleeps in `waitfg` on a job that has just ended. -/
theorem shell_settles_ended :
    ∃ s, tsh.exec .start endsWhileWaiting = some s ∧
      (∃ as t, alone.exec s as = some t ∧ (t.status = .running → Rests t)) ∧
      ∀ as t, alone.exec s as = some t → as.length ≤ 78 := by
  obtain ⟨s, ran⟩ : ∃ s, tsh.exec .start endsWhileWaiting = some s :=
    Option.isSome_iff_exists.1 (by decide +kernel)
  have one : s.kern.procs.entries.length = 1 :=
    Machine.exec_map ran (f := fun s => s.kern.procs.entries.length) (by decide +kernel)
  obtain ⟨rests, bounded⟩ := shell_settles (Machine.reachable_of_exec ran)
  rw [one] at bounded
  exact ⟨s, ran, rests, fun as t ran' => (bounded as t ran').1⟩

end CsappLab.Tsh
