/-
# Tsh.Moves — what one step of the shell can do

`step` is a function of nested matches; every invariant would have to take all
of them apart again. This module does it once. A step of the shell's own code
either only moves a control point and the mask (`MainCtl`, `HandlerCtl`), or it
is one of the few that touch the job list or the kernel (`MainMove`,
`HandlerMove`). `step_move` is the inversion: a step is one of these, with the
guard it was taken under. Output is left open, and a step that ends or crashes
the shell changes nothing else.
-/
import CsappLab.Tsh.Shell

namespace CsappLab.Tsh

set_option autoImplicit false

/-- The control points `eval` can reach from a command line before it changes
anything. -/
def Main.Fresh : Main → Prop
  | .readLine | .jobsBlock | .bgfgBlock _ _ | .evalBlock _ => True
  | _ => False

theorem Main.Fresh.cases {pc : Main} (fresh : pc.Fresh) :
    pc = .readLine ∨ pc = .jobsBlock ∨ (∃ cmd arg, pc = .bgfgBlock cmd arg) ∨
      ∃ l, pc = .evalBlock l := by
  unfold Main.Fresh at fresh
  split at fresh
  · exact .inl rfl
  · exact .inr (.inl rfl)
  · exact .inr (.inr (.inl ⟨_, _, rfl⟩))
  · exact .inr (.inr (.inr ⟨_, rfl⟩))
  · exact fresh.elim

/-- The moves of `main` that change only the control point and the mask. -/
inductive MainCtl (s : St) : Main → SigSet → Prop where
  | dispatch {pc : Main} (at_ : s.main = .readLine) (fresh : pc.Fresh) : MainCtl s pc s.mask
  | jobsBlock (at_ : s.main = .jobsBlock) : MainCtl s (.jobsList s.mask) Finset.univ
  | jobsList {prev : SigSet} (at_ : s.main = .jobsList prev) : MainCtl s .readLine prev
  | evalBlock {l : Launch} (at_ : s.main = .evalBlock l) :
      MainCtl s (.evalFork l s.mask) (insert .sigchld s.mask)
  | addjobFails {l : Launch} {prev : SigSet} {pid : Int} (at_ : s.main = .addjob l prev pid)
      (full : pid < 1 ∨ freeSlot s.jobs = none) : MainCtl s (.added l prev pid) s.mask
  | addedBg {l : Launch} {prev : SigSet} {pid : Int} (at_ : s.main = .added l prev pid)
      (isBg : l.isBg = true) : MainCtl s .readLine prev
  | addedFg {l : Launch} {prev : SigSet} {pid : Int} (at_ : s.main = .added l prev pid)
      (isFg : l.isBg = false) : MainCtl s (.waitfg pid .top .eval) prev
  | waitTop {pid : Int} {ret : WaitRet} (at_ : s.main = .waitfg pid .top ret) :
      MainCtl s (.waitfg pid (.check s.mask) ret) Finset.univ
  | waitSuspend {pid : Int} {ret : WaitRet} {prev : SigSet}
      (at_ : s.main = .waitfg pid (.check prev) ret) (isFg : fgpid s.jobs = pid) :
      MainCtl s (.waitfg pid (.suspended prev s.mask) ret) ∅
  | waitBreak {pid : Int} {ret : WaitRet} {prev : SigSet}
      (at_ : s.main = .waitfg pid (.check prev) ret) (notFg : fgpid s.jobs ≠ pid) :
      MainCtl s (.waitfg pid (.done prev) ret) s.mask
  | waitResume {pid : Int} {ret : WaitRet} {prev : SigSet}
      (at_ : s.main = .waitfg pid (.resumed prev) ret) : MainCtl s (.waitfg pid .top ret) prev
  | waitDoneEval {pid : Int} {prev : SigSet} (at_ : s.main = .waitfg pid (.done prev) .eval) :
      MainCtl s .readLine prev
  | waitDoneBgfg {pid : Int} {prev prev' : SigSet}
      (at_ : s.main = .waitfg pid (.done prev) (.bgfg prev')) : MainCtl s (.bgfgDone prev') prev
  | bgfgBlock {cmd : BgFg} {arg : List Char} (at_ : s.main = .bgfgBlock cmd arg) :
      MainCtl s (.bgfgLook cmd arg s.mask) Finset.univ
  | bgfgNone {cmd : BgFg} {arg : List Char} {prev : SigSet}
      (at_ : s.main = .bgfgLook cmd arg prev) : MainCtl s (.bgfgDone prev) s.mask
  | bgfgStopped {cmd : BgFg} {arg : List Char} {prev : SigSet} {jid : Int} {i : Fin MAXJOBS}
      (at_ : s.main = .bgfgLook cmd arg prev) (found : getjobjid s.jobs jid = some i)
      (stopped : (s.jobs i).state = .st) : MainCtl s (.bgfgKill cmd i prev) s.mask
  | bgfgRunning {cmd : BgFg} {arg : List Char} {prev : SigSet} {jid : Int} {i : Fin MAXJOBS}
      (at_ : s.main = .bgfgLook cmd arg prev) (found : getjobjid s.jobs jid = some i)
      (running : (s.jobs i).state ≠ .st) : MainCtl s (.bgfgSet cmd i prev) s.mask
  | bgfgDone {prev : SigSet} (at_ : s.main = .bgfgDone prev) : MainCtl s .readLine prev

/-- The moves of `main`, given the input of the step. -/
inductive MainMove (s : St) (inp : Input) : St → Prop where
  | halt (status : Status) : MainMove s inp { s with status := status }
  | ctl {pc : Main} {mask : SigSet} (out : List String) (ctl : MainCtl s pc mask) :
      MainMove s inp { s with main := pc, mask := mask, out := out }
  | fork {l : Launch} {prev : SigSet} {pid : Int} (at_ : s.main = .evalFork l prev)
      (returned : inp = .forked pid) (pos : 2 ≤ pid) (fresh : pid ∉ s.kern.procs) :
      MainMove s inp { s with
        kern := { s.kern with procs := s.kern.procs.insert pid (newProc s prev) }
        main := .addjob l prev pid }
  | storePid {l : Launch} {prev : SigSet} {pid : Int} {i : Fin MAXJOBS}
      (at_ : s.main = .addjob l prev pid) (free : freeSlot s.jobs = some i) :
      MainMove s inp { s with list := s.list.storePid i pid, main := .addState l prev pid i }
  | storeState {l : Launch} {prev : SigSet} {pid : Int} {i : Fin MAXJOBS}
      (at_ : s.main = .addState l prev pid i) :
      MainMove s inp { s with
        list := s.list.storeState i (if l.isBg then .bg else .fg)
        main := .addJid l prev pid i }
  | storeJid {l : Launch} {prev : SigSet} {pid : Int} {i : Fin MAXJOBS}
      (at_ : s.main = .addJid l prev pid i) :
      MainMove s inp { s with list := s.list.storeJid i l.cmdline, main := .added l prev pid }
  | kill {cmd : BgFg} {i : Fin MAXJOBS} {prev : SigSet} (at_ : s.main = .bgfgKill cmd i prev)
      (sent : inp = .go) :
      MainMove s inp { s with
        kern := s.kern.kill (s.jobs i).pid .sigcont
        main := .bgfgSet cmd i prev }
  | setFg {i : Fin MAXJOBS} {prev : SigSet} (at_ : s.main = .bgfgSet .fg i prev) :
      MainMove s inp { s with
        list := { s.list with jobs := setState s.jobs i .fg }
        main := .waitfg (s.jobs i).pid .top (.bgfg prev) }
  | setBg {i : Fin MAXJOBS} {prev : SigSet} (at_ : s.main = .bgfgSet .bg i prev)
      (out : List String) :
      MainMove s inp { s with
        list := { s.list with jobs := setState s.jobs i .bg }
        main := .bgfgDone prev
        out := out }

/-- The moves of a handler that change only its control point and the mask. -/
inductive HandlerCtl (s : St) : Handler → Handler → SigSet → Prop where
  | intEnter : HandlerCtl s (.sigint .enter) (.sigint (.look s.mask)) Finset.univ
  | intNone {prev : SigSet} (none_ : fgpid s.jobs = 0) :
      HandlerCtl s (.sigint (.look prev)) (.sigint (.restore prev)) s.mask
  | intSome {prev : SigSet} (some_ : fgpid s.jobs ≠ 0) :
      HandlerCtl s (.sigint (.look prev)) (.sigint (.kill prev (fgpid s.jobs))) s.mask
  | intRestore {prev : SigSet} : HandlerCtl s (.sigint (.restore prev)) (.sigint .leave) prev
  | tstpEnter : HandlerCtl s (.sigtstp .enter) (.sigtstp (.look s.mask)) Finset.univ
  | tstpNone {prev : SigSet} (none_ : fgpid s.jobs = 0) :
      HandlerCtl s (.sigtstp (.look prev)) (.sigtstp (.restore prev)) s.mask
  | tstpRestore {prev : SigSet} : HandlerCtl s (.sigtstp (.restore prev)) (.sigtstp .leave) prev
  | chldNothing (nothing : s.kern.nothingToReport = true) :
      HandlerCtl s (.sigchld .wait) (.sigchld .leave) s.mask
  | chldGot {pid : Int} {status : ChStatus} :
      HandlerCtl s (.sigchld (.got pid status)) (.sigchld (.handle pid status s.mask)) Finset.univ
  | chldRestore {prev : SigSet} : HandlerCtl s (.sigchld (.restore prev)) (.sigchld .wait) prev

/-- The handler has nothing left to do but return. -/
def Handler.Leaves : Handler → Prop
  | .sigint .leave | .sigtstp .leave | .sigchld .leave => True
  | _ => False

theorem Handler.Leaves.cases {h : Handler} (leaves : h.Leaves) :
    h = .sigint .leave ∨ h = .sigtstp .leave ∨ h = .sigchld .leave := by
  unfold Handler.Leaves at leaves
  split at leaves
  · exact .inl rfl
  · exact .inr (.inl rfl)
  · exact .inr (.inr rfl)
  · exact leaves.elim

/-- The moves of the handler `f` on top of the frames `fs`. -/
inductive HandlerMove (s : St) (f : Frame) (fs : List Frame) (inp : Input) : St → Prop where
  | halt (status : Status) : HandlerMove s f fs inp { s with status := status }
  | ctl {h : Handler} {mask : SigSet} (ctl : HandlerCtl s f.handler h mask) :
      HandlerMove s f fs inp { s with frames := { f with handler := h } :: fs, mask := mask }
  | intKill {prev : SigSet} {pid : Int} (at_ : f.handler = .sigint (.kill prev pid))
      (sent : inp = .go) :
      HandlerMove s f fs inp { s with
        kern := s.kern.kill pid .sigint
        frames := { f with handler := .sigint (.restore prev) } :: fs }
  | tstpSet {prev : SigSet} {i : Fin MAXJOBS} (at_ : f.handler = .sigtstp (.look prev))
      (some_ : fgpid s.jobs ≠ 0) (found : getjobpid s.jobs (fgpid s.jobs) = some i) :
      HandlerMove s f fs inp { s with
        list := { s.list with jobs := setState s.jobs i .st }
        frames := { f with handler := .sigtstp (.kill prev (fgpid s.jobs)) } :: fs }
  | tstpKill {prev : SigSet} {pid : Int} (at_ : f.handler = .sigtstp (.kill prev pid))
      (sent : inp = .go) :
      HandlerMove s f fs inp { s with
        kern := s.kern.kill pid .sigtstp
        frames := { f with handler := .sigtstp (.restore prev) } :: fs }
  | waitpid {pid : Int} {status : ChStatus} {k : Kern} (at_ : f.handler = .sigchld .wait)
      (reported : s.kern.waitpid pid = some (status, k)) :
      HandlerMove s f fs inp { s with
        kern := k
        frames := { f with handler := .sigchld (.got pid status) } :: fs }
  | delete {pid : Int} {ending : Ending} {prev : SigSet}
      (at_ : f.handler = .sigchld (.handle pid (.ended ending) prev)) (out : List String) :
      HandlerMove s f fs inp { s with
        list := (deletejob s.list pid).2
        frames := { f with handler := .sigchld (.restore prev) } :: fs
        out := out }
  | stop {pid sig : Int} {prev : SigSet} {i : Fin MAXJOBS}
      (at_ : f.handler = .sigchld (.handle pid (.stopped sig) prev))
      (found : getjobpid s.jobs pid = some i) (out : List String) :
      HandlerMove s f fs inp { s with
        list := { s.list with jobs := setState s.jobs i .st }
        frames := { f with handler := .sigchld (.restore prev) } :: fs
        out := out }
  | pop (leaves : f.handler.Leaves) :
      HandlerMove s f fs inp { s with frames := fs, mask := f.saved }

/-- The moves of the whole machine. -/
inductive Move (s : St) : Act → St → Prop where
  | arrive (sig : Signal) (handled : sig ≠ .sigcont) :
      Move s (.arrive sig) { s with
        kern := { s.kern with pending := insert sig s.kern.pending } }
  | quit : Move s (.deliver .sigquit) s.exit
  | deliver {sig : Signal} {h : Handler} (pending : sig ∈ s.kern.pending)
      (unblocked : sig ∉ s.mask) (entry : entryPoint sig = some h) :
      Move s (.deliver sig) { s with
        kern := { s.kern with pending := s.kern.pending.erase sig }
        mask := insert sig s.mask
        main := (interrupted s).2
        frames := ⟨h, (interrupted s).1⟩ :: s.frames }
  | child {pid : Int} {act : ChildAct} {pr : Proc} {k : Kern}
      (alive : s.kern.procs.lookup pid = some pr) (moved : s.kern.child pid pr act = some k) :
      Move s (.child pid act) { s with kern := k }
  | main {inp : Input} {t : St} (idle : s.frames = []) (move : MainMove s inp t) :
      Move s (.shell inp) t
  | handler {inp : Input} {t : St} {f : Frame} {fs : List Frame} (top : s.frames = f :: fs)
      (move : HandlerMove s f fs inp t) : Move s (.shell inp) t

/-! ## The inversion -/

theorem dispatch_move {s : St} (at_ : s.main = .readLine) (cmdline : List Char) :
    MainMove s (.line cmdline) (dispatch s cmdline) := by
  have fresh : ∀ (pc : Main) (out : List String), pc.Fresh →
      MainMove s (.line cmdline) { s with main := pc, mask := s.mask, out := out } :=
    fun pc out fresh => .ctl out (.dispatch at_ fresh)
  unfold dispatch
  split
  · exact .halt .crashed
  · exact fresh .readLine s.out trivial
  · split
    · exact fresh .jobsBlock s.out trivial
    · split
      · split
        · exact fresh .readLine _ trivial
        · exact fresh (.bgfgBlock _ _) s.out trivial
      · split
        · exact .halt .exited
        · exact fresh (.evalBlock _) s.out trivial

theorem waitfgStep_move {s t : St} {inp : Input} {pid : Int} {pc : WaitPc} {ret : WaitRet}
    (at_ : s.main = .waitfg pid pc ret) (step : waitfgStep s pid ret pc = some t) :
    MainMove s inp t := by
  cases pc with
  | top => cases step; exact .ctl s.out (.waitTop at_)
  | check prev =>
      simp only [waitfgStep] at step
      split at step <;> cases step
      · exact .ctl s.out (.waitSuspend at_ ‹_›)
      · exact .ctl s.out (.waitBreak at_ ‹_›)
  | suspended prev orig => cases step
  | resumed prev => cases step; exact .ctl s.out (.waitResume at_)
  | done prev =>
      cases ret with
      | eval => cases step; exact .ctl s.out (.waitDoneEval at_)
      | bgfg prev' => cases step; exact .ctl s.out (.waitDoneBgfg at_)

theorem mainStep_move {s t : St} {inp : Input} (step : mainStep s inp = some t) :
    MainMove s inp t := by
  unfold mainStep at step
  split at step <;> rename_i at_
  case h_1 => cases step; exact dispatch_move at_ _
  case h_2 => cases step; exact .halt .exited
  case h_3 => cases step; exact .ctl s.out (.jobsBlock at_)
  case h_4 => cases step; exact .ctl _ (.jobsList at_)
  case h_5 => cases step; exact .ctl s.out (.evalBlock at_)
  case h_6 =>
      split at step
      · rename_i ok
        cases step
        exact .fork at_ rfl ok.1 ok.2
      · cases step
  case h_7 => cases step; exact .halt .exited
  case h_8 =>
      split at step
      · cases step; exact .ctl s.out (.addjobFails at_ (.inl ‹_›))
      · split at step <;> cases step
        · exact .storePid at_ ‹_›
        · exact .ctl _ (.addjobFails at_ (.inr ‹_›))
  case h_9 => cases step; exact .storeState at_
  case h_10 => cases step; exact .storeJid at_
  case h_11 =>
      split at step <;> rename_i isBg <;> cases step
      · exact .ctl _ (.addedBg at_ isBg)
      · exact .ctl s.out (.addedFg at_ (by simpa using isBg))
  case h_12 => exact waitfgStep_move at_ step
  case h_13 => cases step; exact .ctl s.out (.bgfgBlock at_)
  case h_14 =>
      split at step
      · cases step; exact .ctl _ (.bgfgNone at_)
      · split at step
        · split at step <;> cases step
          · exact .ctl s.out (.bgfgStopped at_ ‹_› ‹_›)
          · exact .ctl s.out (.bgfgRunning at_ ‹_› ‹_›)
        · cases step; exact .ctl _ (.bgfgNone at_)
  case h_15 => cases step; exact .kill at_ rfl
  case h_16 => cases step; exact .halt .exited
  case h_17 => cases step; exact .setFg at_
  case h_18 => cases step; exact .setBg at_ _
  case h_19 => cases step; exact .ctl s.out (.bgfgDone at_)
  case h_20 => cases step

section HandlerSteps

variable {s t : St} {f : Frame} {fs : List Frame} {inp : Input}

theorem sigintStep_move {pc : KillPc} (top : s.frames = f :: fs) (at_ : f.handler = .sigint pc)
    (step : sigintStep s pc inp = some t) : HandlerMove s f fs inp t := by
  have ctl : ∀ {h : Handler} {mask : SigSet}, HandlerCtl s (.sigint pc) h mask →
      HandlerMove s f fs inp { s with frames := { f with handler := h } :: fs, mask := mask } :=
    fun c => .ctl (at_ ▸ c)
  unfold sigintStep at step
  split at step
  case h_1 => cases step; simp only [St.handler, St.setMask, top]; exact ctl .intEnter
  case h_2 =>
      split at step <;> cases step <;> simp only [St.handler, top]
      · exact ctl (.intNone ‹_›)
      · exact ctl (.intSome ‹_›)
  case h_3 => cases step; simp only [St.handler, top]; exact .intKill at_ rfl
  case h_4 => cases step; exact .halt .exited
  case h_5 => cases step; simp only [St.handler, St.setMask, top]; exact ctl .intRestore
  case h_6 => cases step

theorem sigtstpStep_move {pc : KillPc} (top : s.frames = f :: fs) (at_ : f.handler = .sigtstp pc)
    (step : sigtstpStep s pc inp = some t) : HandlerMove s f fs inp t := by
  have ctl : ∀ {h : Handler} {mask : SigSet}, HandlerCtl s (.sigtstp pc) h mask →
      HandlerMove s f fs inp { s with frames := { f with handler := h } :: fs, mask := mask } :=
    fun c => .ctl (at_ ▸ c)
  unfold sigtstpStep at step
  split at step
  case h_1 => cases step; simp only [St.handler, St.setMask, top]; exact ctl .tstpEnter
  case h_2 =>
      split at step
      · cases step; simp only [St.handler, top]; exact ctl (.tstpNone ‹_›)
      · split at step <;> cases step
        · simp only [St.handler, St.setJobs, top]; exact .tstpSet at_ ‹_› ‹_›
        · exact .halt .crashed
  case h_3 => cases step; simp only [St.handler, top]; exact .tstpKill at_ rfl
  case h_4 => cases step; exact .halt .exited
  case h_5 => cases step; simp only [St.handler, St.setMask, top]; exact ctl .tstpRestore
  case h_6 => cases step

theorem sigchldStep_move {pc : ChldPc} (top : s.frames = f :: fs) (at_ : f.handler = .sigchld pc)
    (step : sigchldStep s pc inp = some t) : HandlerMove s f fs inp t := by
  have ctl : ∀ {h : Handler} {mask : SigSet}, HandlerCtl s (.sigchld pc) h mask →
      HandlerMove s f fs inp { s with frames := { f with handler := h } :: fs, mask := mask } :=
    fun c => .ctl (at_ ▸ c)
  unfold sigchldStep at step
  split at step
  case h_1 =>
      obtain ⟨r, reported, rfl⟩ := Option.map_eq_some_iff.1 step
      simp only [St.handler, top]
      exact .waitpid at_ reported
  case h_2 =>
      split at step <;> cases step
      simp only [St.handler, top]
      exact ctl (.chldNothing ‹_›)
  case h_3 => cases step; simp only [St.handler, St.setMask, top]; exact ctl .chldGot
  case h_4 => cases step; simp only [St.handler, top]; exact .delete at_ s.out
  case h_5 => cases step; simp only [St.handler, St.print, top]; exact .delete at_ _
  case h_6 =>
      split at step <;> cases step
      · simp only [St.handler, St.setJobs, St.print, top]; exact .stop at_ ‹_› _
      · exact .halt .crashed
  case h_7 => cases step; simp only [St.handler, St.setMask, top]; exact ctl .chldRestore
  case h_8 => cases step

theorem handlerStep_move (top : s.frames = f :: fs) (step : handlerStep s f fs inp = some t) :
    HandlerMove s f fs inp t := by
  unfold handlerStep at step
  split at step
  case h_1 at_ => cases step; exact .pop (by rw [at_]; trivial)
  case h_2 at_ => cases step; exact .pop (by rw [at_]; trivial)
  case h_3 at_ => cases step; exact .pop (by rw [at_]; trivial)
  case h_4 at_ _ => exact sigintStep_move top at_ step
  case h_5 at_ _ => exact sigtstpStep_move top at_ step
  case h_6 at_ _ => exact sigchldStep_move top at_ step

end HandlerSteps

/-- **What a step can do.** -/
theorem step_move {s t : St} {a : Act} (step_ : step s a = some t) : Move s a t := by
  unfold step at step_
  split at step_
  · cases a with
    | arrive sig =>
        simp only at step_
        split at step_ <;> cases step_
        exact .arrive sig ‹_›
    | deliver sig =>
        simp only [deliver] at step_
        split at step_
        · rename_i ok
          cases sig with
          | sigquit => cases step_; exact .quit
          | sigcont => cases step_
          | sigint => cases step_; exact .deliver ok.1 ok.2 rfl
          | sigtstp => cases step_; exact .deliver ok.1 ok.2 rfl
          | sigchld => cases step_; exact .deliver ok.1 ok.2 rfl
        · cases step_
    | child pid act =>
        simp only at step_
        split at step_
        · rename_i pr alive
          obtain ⟨k, moved, rfl⟩ := Option.map_eq_some_iff.1 step_
          exact .child alive moved
        · cases step_
    | shell inp =>
        simp only at step_
        split at step_
        · rename_i idle
          exact .main idle (mainStep_move step_)
        · rename_i f fs top
          exact .handler top (handlerStep_move top step_)
  · cases step_

theorem step_running {s t : St} {a : Act} (step_ : step s a = some t) : s.status = .running := by
  unfold step at step_
  split at step_
  · assumption
  · cases step_

/-- With no handler active it is `main` that goes on. -/
theorem step_main {s : St} (running : s.status = .running) (idle : s.frames = [])
    (inp : Input) : step s (.shell inp) = mainStep s inp := by
  simp only [step, running, idle, if_true]

theorem step_handler {s : St} {f : Frame} {fs : List Frame} (running : s.status = .running)
    (top : s.frames = f :: fs) (inp : Input) : step s (.shell inp) = handlerStep s f fs inp := by
  simp only [step, running, top, if_true]

end CsappLab.Tsh
