/-
# Tsh.Shell — the shell as a step machine

The control points of `main` (with `eval`, `builtin_cmd`, `do_bgfg`, `addjob` and
`waitfg` inlined where it calls them) and of the three handlers, and one step
function over them. An action is a signal arriving, a handler being entered, a
step of a child, or a step of the shell's own code: of the handler on top of the
stack if one is active, of `main` otherwise. Everything the kernel or the user
decides (the line read, the pid `fork` returns, what `waitpid` reports) is part
of the action.

Two statements are one step only where nothing can run between them that reads
or writes what they touch: either every signal is blocked, or they use local
variables only. `addjob` runs in `eval` with only SIGCHLD blocked, so its three
stores to the slot are three steps.

Each control point carries the locals that are still needed: a saved mask
`prev` is the source's `prevMask` or `maskPrev`. Entering a handler saves the
interrupted mask in the frame and adds the handler's own signal (`sa_mask` is
empty); returning restores it. `sigsuspend` installs the empty mask; a handler
that interrupts it saves the mask from before the call.
-/
import CsappLab.Lib.Transition
import CsappLab.Tsh.Kernel
import CsappLab.Tsh.Parseline

namespace CsappLab.Tsh

set_option autoImplicit false

open CsappLab.Lib

/-! ## Control points -/

/-- The locals of `eval` on the path that forks. -/
structure Launch where
  isBg : Bool
  cmdline : List Char
  deriving DecidableEq, Repr

/-- Where `waitfg` returns to: the end of `eval`, or `do_bgfg` with the mask it
still has to recover. -/
inductive WaitRet where
  | eval
  | bgfg (prev : SigSet)
  deriving DecidableEq

/-- The control points inside `waitfg`. -/
inductive WaitPc where
  | top
  | check (prev : SigSet)
  | suspended (prev orig : SigSet)
  | resumed (prev : SigSet)
  | done (prev : SigSet)
  deriving DecidableEq

/-- The two commands of `do_bgfg`. -/
inductive BgFg where
  | fg
  | bg
  deriving DecidableEq, Repr

/-- The control points of `main`. -/
inductive Main where
  | readLine
  | jobsBlock
  | jobsList (prev : SigSet)
  | evalBlock (l : Launch)
  | evalFork (l : Launch) (prev : SigSet)
  | addjob (l : Launch) (prev : SigSet) (pid : Int)
  | addState (l : Launch) (prev : SigSet) (pid : Int) (i : Fin MAXJOBS)
  | addJid (l : Launch) (prev : SigSet) (pid : Int) (i : Fin MAXJOBS)
  | added (l : Launch) (prev : SigSet) (pid : Int)
  | waitfg (pid : Int) (pc : WaitPc) (ret : WaitRet)
  | bgfgBlock (cmd : BgFg) (arg : List Char)
  | bgfgLook (cmd : BgFg) (arg : List Char) (prev : SigSet)
  | bgfgKill (cmd : BgFg) (i : Fin MAXJOBS) (prev : SigSet)
  | bgfgSet (cmd : BgFg) (i : Fin MAXJOBS) (prev : SigSet)
  | bgfgDone (prev : SigSet)
  deriving DecidableEq

/-- The control points of `sigint_handler` and `sigtstp_handler`. -/
inductive KillPc where
  | enter
  | look (prev : SigSet)
  | kill (prev : SigSet) (pid : Int)
  | restore (prev : SigSet)
  | leave
  deriving DecidableEq

/-- A status `waitpid` stores into `chStatus`. -/
inductive ChStatus where
  | ended (ending : Ending)
  | stopped (sig : Int)
  deriving DecidableEq, Repr

/-- The control points of `sigchld_handler`. -/
inductive ChldPc where
  | wait
  | got (pid : Int) (status : ChStatus)
  | handle (pid : Int) (status : ChStatus) (prev : SigSet)
  | restore (prev : SigSet)
  | leave
  deriving DecidableEq

inductive Handler where
  | sigint (pc : KillPc)
  | sigtstp (pc : KillPc)
  | sigchld (pc : ChldPc)
  deriving DecidableEq

/-- The signal a handler handles. -/
def Handler.sig : Handler → Signal
  | .sigint _ => .sigint
  | .sigtstp _ => .sigtstp
  | .sigchld _ => .sigchld

/-- An active handler and the mask the kernel restores when it returns. -/
structure Frame where
  handler : Handler
  saved : SigSet
  deriving DecidableEq

inductive Status where
  | running
  | exited
  | crashed
  deriving DecidableEq, Repr

/-- The state of the shell and of the kernel beneath it. -/
structure St where
  list : JobList
  mask : SigSet
  main : Main
  frames : List Frame
  kern : Kern
  status : Status
  out : List String

/-! ## Small updates -/

namespace St

variable (s : St)

abbrev jobs : Jobs := s.list.jobs

def goto (pc : Main) : St := { s with main := pc }

def setMask (mask : SigSet) : St := { s with mask := mask }

def print (msg : String) : St := { s with out := s.out ++ [msg] }

def exit : St := { s with status := .exited }

def crash : St := { s with status := .crashed }

def setJobs (jobs : Jobs) : St := { s with list := { s.list with jobs := jobs } }

/-- The top handler moves on. -/
def handler (h : Handler) : St :=
  match s.frames with
  | [] => s
  | f :: fs => { s with frames := { f with handler := h } :: fs }

@[simp] theorem handler_status (h : Handler) : (s.handler h).status = s.status := by
  unfold handler
  split <;> rfl

@[simp] theorem handler_kern (h : Handler) : (s.handler h).kern = s.kern := by
  unfold handler
  split <;> rfl

end St

/-! ## `main` -/

/-- What the kernel or the user supplies to a step of the shell's code. -/
inductive Input where
  | go
  | line (cmdline : List Char)
  | eof
  | forked (pid : Int)
  | forkFails
  | killFails
  | waited (pid : Int)
  | nothing
  deriving DecidableEq, Repr

/-- One line of `listjobs`. -/
def listjob (job : Job) : String :=
  let state :=
    match job.state with
    | .bg => "Running "
    | .fg => "Foreground "
    | .st => "Stopped "
    | .undef => "listjobs: Internal error: "
  s!"[{job.jid}] ({job.pid}) {state}{String.ofList job.cmdline}"

/-- `listjobs`: one line for each occupied slot. -/
def listjobs (jobs : Jobs) : List String :=
  ((List.finRange MAXJOBS).filter fun i => (jobs i).pid ≠ 0).map fun i => listjob (jobs i)

/-- The head of `eval`: `parseline`, then `builtin_cmd`'s tests on `argv[0]`. A
command other than a builtin one goes on to the fork. -/
def dispatch (s : St) (cmdline : List Char) : St :=
  match parseline cmdline with
  | none => s.crash
  | some ([], _) => s.goto .readLine
  | some (arg0 :: args, isBg) =>
      if arg0 = "jobs".toList then s.goto .jobsBlock
      else if arg0 = "fg".toList ∨ arg0 = "bg".toList then
        match args with
        | [] => (s.print s!"{String.ofList arg0} command requires PID or %jobid argument\n").goto
            .readLine
        | arg1 :: _ => s.goto (.bgfgBlock (if arg0 = "fg".toList then .fg else .bg) arg1)
      else if arg0 = "quit".toList then s.exit
      else s.goto (.evalBlock ⟨isBg, cString cmdline⟩)

/-- The name `do_bgfg` was called by. -/
def BgFg.name : BgFg → String
  | .fg => "fg"
  | .bg => "bg"

/-- `do_bgfg`'s reading of `argv[1]`: the job ID to look up, `none` if the
argument is invalid. Both `strtol` results are narrowed to `int`. -/
def bgfgJid (jobs : Jobs) (arg : List Char) : Option Int :=
  match arg with
  | '%' :: rest =>
      let curJid := narrowInt (strtol 10 rest).1
      if curJid = 0 then none else some curJid
  | _ =>
      let curPid := narrowInt (strtol 10 arg).1
      if curPid = 0 then none else some (pid2jid jobs curPid)

/-- A process `Fork` has just created. -/
def newProc (s : St) (prev : SigSet) : Proc where
  phase := .forked
  run := .running
  mask := s.mask
  pending := ∅
  prevMask := prev
  jobs := s.jobs
  onInt := .caught
  onTstp := .caught

/-- One step of `waitfg(pid)`. -/
def waitfgStep (s : St) (pid : Int) (ret : WaitRet) : WaitPc → Option St
  | .top => some ((s.setMask Finset.univ).goto (.waitfg pid (.check s.mask) ret))
  | .check prev =>
      if fgpid s.jobs = pid then
        some ((s.setMask ∅).goto (.waitfg pid (.suspended prev s.mask) ret))
      else some (s.goto (.waitfg pid (.done prev) ret))
  | .suspended _ _ => none
  | .resumed prev => some ((s.setMask prev).goto (.waitfg pid .top ret))
  | .done prev =>
      match ret with
      | .eval => some ((s.setMask prev).goto .readLine)
      | .bgfg prev' => some ((s.setMask prev).goto (.bgfgDone prev'))

/-- One step of `main`. -/
def mainStep (s : St) (inp : Input) : Option St :=
  match s.main, inp with
  | .readLine, .line cmdline => some (dispatch s cmdline)
  | .readLine, .eof => some s.exit
  | .jobsBlock, .go => some ((s.setMask Finset.univ).goto (.jobsList s.mask))
  | .jobsList prev, .go =>
      some (({ s with out := s.out ++ listjobs s.jobs }.setMask prev).goto .readLine)
  | .evalBlock l, .go => some ((s.setMask (insert .sigchld s.mask)).goto (.evalFork l s.mask))
  | .evalFork l prev, .forked pid =>
      -- pid 1 is the init process; a pid in use is not given out again
      if 2 ≤ pid ∧ pid ∉ s.kern.procs then
        some { s with
          kern := { s.kern with procs := s.kern.procs.insert pid (newProc s prev) }
          main := .addjob l prev pid }
      else none
  | .evalFork _ _, .forkFails => some s.exit
  | .addjob l prev pid, .go =>
      if pid < 1 then some (s.goto (.added l prev pid))
      else
        match freeSlot s.jobs with
        | some i => some ({ s with list := s.list.storePid i pid }.goto (.addState l prev pid i))
        | none => some ((s.print "Tried to create too many jobs\n").goto (.added l prev pid))
  | .addState l prev pid i, .go =>
      some ({ s with list := s.list.storeState i (if l.isBg then .bg else .fg) }.goto
        (.addJid l prev pid i))
  | .addJid l prev pid i, .go =>
      some ({ s with list := s.list.storeJid i l.cmdline }.goto (.added l prev pid))
  | .added l prev pid, .go =>
      if l.isBg then
        some (((s.print s!"[{pid2jid s.jobs pid}] ({pid}) {String.ofList l.cmdline}").setMask
          prev).goto .readLine)
      else some ((s.setMask prev).goto (.waitfg pid .top .eval))
  | .waitfg pid pc ret, .go => waitfgStep s pid ret pc
  | .bgfgBlock cmd arg, .go => some ((s.setMask Finset.univ).goto (.bgfgLook cmd arg s.mask))
  | .bgfgLook cmd arg prev, .go =>
      match bgfgJid s.jobs arg with
      | none =>
          some ((s.print s!"{cmd.name}: argument must be a PID or %jobid\n").goto (.bgfgDone prev))
      | some curJid =>
          match getjobjid s.jobs curJid with
          | some i =>
              if (s.jobs i).state = .st then some (s.goto (.bgfgKill cmd i prev))
              else some (s.goto (.bgfgSet cmd i prev))
          | none =>
              let kind := if arg.head? = some '%' then "job" else "process"
              some ((s.print s!"{String.ofList arg}: No such {kind}\n").goto (.bgfgDone prev))
  | .bgfgKill cmd i prev, .go =>
      some { s with kern := s.kern.kill (s.jobs i).pid .sigcont, main := .bgfgSet cmd i prev }
  | .bgfgKill _ _ _, .killFails => some s.exit
  | .bgfgSet .fg i prev, .go =>
      some ((s.setJobs (setState s.jobs i .fg)).goto
        (.waitfg (s.jobs i).pid .top (.bgfg prev)))
  | .bgfgSet .bg i prev, .go =>
      let job := s.jobs i
      some (((s.setJobs (setState s.jobs i .bg)).print
        s!"[{job.jid}] ({job.pid}) {String.ofList job.cmdline}").goto (.bgfgDone prev))
  | .bgfgDone prev, .go => some ((s.setMask prev).goto .readLine)
  | _, _ => none

/-! ## The handlers -/

/-- One step of `sigint_handler`. -/
def sigintStep (s : St) : KillPc → Input → Option St
  | .enter, .go => some ((s.setMask Finset.univ).handler (.sigint (.look s.mask)))
  | .look prev, .go =>
      if fgpid s.jobs = 0 then some (s.handler (.sigint (.restore prev)))
      else some (s.handler (.sigint (.kill prev (fgpid s.jobs))))
  | .kill prev pid, .go =>
      some ({ s with kern := s.kern.kill pid .sigint }.handler (.sigint (.restore prev)))
  | .kill _ _, .killFails => some s.exit
  | .restore prev, .go => some ((s.setMask prev).handler (.sigint .leave))
  | _, _ => none

/-- One step of `sigtstp_handler`: the state is set before the signal is sent. -/
def sigtstpStep (s : St) : KillPc → Input → Option St
  | .enter, .go => some ((s.setMask Finset.univ).handler (.sigtstp (.look s.mask)))
  | .look prev, .go =>
      if fgpid s.jobs = 0 then some (s.handler (.sigtstp (.restore prev)))
      else
        match getjobpid s.jobs (fgpid s.jobs) with
        | some i =>
            some ((s.setJobs (setState s.jobs i .st)).handler
              (.sigtstp (.kill prev (fgpid s.jobs))))
        | none => some s.crash
  | .kill prev pid, .go =>
      some ({ s with kern := s.kern.kill pid .sigtstp }.handler (.sigtstp (.restore prev)))
  | .kill _ _, .killFails => some s.exit
  | .restore prev, .go => some ((s.setMask prev).handler (.sigtstp .leave))
  | _, _ => none

/-- `waitpid(-1, &chStatus, WNOHANG | WUNTRACED)` returning `pid`: a zombie is
reaped, a stop is marked as reported. -/
def Kern.waitpid (k : Kern) (pid : Int) : Option (ChStatus × Kern) :=
  match k.procs.lookup pid with
  | none => none
  | some pr =>
      match pr.run with
      | .zombie ending => some (.ended ending, { k with procs := k.procs.erase pid })
      | .stopped sig false =>
          some (.stopped sig, k.put pid { pr with run := .stopped sig true })
      | _ => none

/-- No child has a status to report: `waitpid` returns 0, or -1 with ECHILD. -/
def Kern.nothingToReport (k : Kern) : Bool :=
  k.procs.entries.all fun e => !e.2.unreported

/-- The message of `sigchld_handler` for a job that was signaled or stopped. -/
def chldMessage (jobs : Jobs) (pid : Int) (what : String) (sig : Int) : String :=
  s!"Job [{pid2jid jobs pid}] ({pid}) {what} by signal {sig}\n"

/-- One step of `sigchld_handler`. -/
def sigchldStep (s : St) : ChldPc → Input → Option St
  | .wait, .waited pid =>
      (s.kern.waitpid pid).map fun r => { s with kern := r.2 }.handler (.sigchld (.got pid r.1))
  | .wait, .nothing => if s.kern.nothingToReport then some (s.handler (.sigchld .leave)) else none
  | .got pid status, .go =>
      some ((s.setMask Finset.univ).handler (.sigchld (.handle pid status s.mask)))
  | .handle pid (.ended (.exited _)) prev, .go =>
      some ({ s with list := (deletejob s.list pid).2 }.handler (.sigchld (.restore prev)))
  | .handle pid (.ended (.signaled sig)) prev, .go =>
      some (({ s with list := (deletejob s.list pid).2 }.print
        (chldMessage s.jobs pid "terminated" sig)).handler (.sigchld (.restore prev)))
  | .handle pid (.stopped sig) prev, .go =>
      -- `pJob->state = ST` through a null pointer when the pid is not listed
      match getjobpid s.jobs pid with
      | some i =>
          some (((s.setJobs (setState s.jobs i .st)).print
            (chldMessage s.jobs pid "stopped" sig)).handler (.sigchld (.restore prev)))
      | none => some s.crash
  | .restore prev, .go => some ((s.setMask prev).handler (.sigchld .wait))
  | _, _ => none

/-- The return of the top handler: the kernel restores the interrupted mask. -/
def popFrame (s : St) (f : Frame) (fs : List Frame) : St :=
  { s with frames := fs, mask := f.saved }

/-- One step of the handler on top of the stack. -/
def handlerStep (s : St) (f : Frame) (fs : List Frame) (inp : Input) : Option St :=
  match f.handler, inp with
  | .sigint .leave, .go | .sigtstp .leave, .go | .sigchld .leave, .go => some (popFrame s f fs)
  | .sigint pc, inp => sigintStep s pc inp
  | .sigtstp pc, inp => sigtstpStep s pc inp
  | .sigchld pc, inp => sigchldStep s pc inp

/-! ## The machine -/

inductive Act where
  | arrive (sig : Signal)
  | deliver (sig : Signal)
  | child (pid : Int) (act : ChildAct)
  | shell (inp : Input)
  deriving DecidableEq

/-- The first control point of a handler. -/
def entryPoint : Signal → Option Handler
  | .sigint => some (.sigint .enter)
  | .sigtstp => some (.sigtstp .enter)
  | .sigchld => some (.sigchld .wait)
  | _ => none

/-- The mask the kernel saves when a handler is entered, and where `main` goes
on: out of `sigsuspend` if that is where it was interrupted. -/
def interrupted (s : St) : SigSet × Main :=
  match s.frames, s.main with
  | [], .waitfg pid (.suspended prev orig) ret => (orig, .waitfg pid (.resumed prev) ret)
  | _, pc => (s.mask, pc)

/-- A pending signal that is not blocked is delivered. SIGQUIT ends the shell. -/
def deliver (s : St) (sig : Signal) : Option St :=
  if sig ∈ s.kern.pending ∧ sig ∉ s.mask then
    match sig with
    | .sigquit => some s.exit
    | _ =>
        (entryPoint sig).map fun h =>
          { s with
            kern := { s.kern with pending := s.kern.pending.erase sig }
            mask := insert sig s.mask
            main := (interrupted s).2
            frames := ⟨h, (interrupted s).1⟩ :: s.frames }
  else none

/-- One step of the shell, its children and the kernel. -/
def step (s : St) (a : Act) : Option St :=
  if s.status = .running then
    match a with
    | .arrive sig =>
        -- a SIGCONT does nothing to a shell that runs
        if sig = .sigcont then none
        else some { s with kern := { s.kern with pending := insert sig s.kern.pending } }
    | .deliver sig => deliver s sig
    | .child pid act =>
        match s.kern.procs.lookup pid with
        | some pr => (s.kern.child pid pr act).map fun k => { s with kern := k }
        | none => none
    | .shell inp =>
        match s.frames with
        | [] => mainStep s inp
        | f :: fs => handlerStep s f fs inp
  else none

/-- `main` before its first command line: handlers installed, no signal blocked,
no job listed, no child. -/
def St.start : St where
  list := .start
  mask := ∅
  main := .readLine
  frames := []
  kern := ⟨∅, ∅⟩
  status := .running
  out := []

/-- The shell. -/
def tsh : Machine St Act := ⟨.start, step⟩

/-! ## Two command lines -/

/-- A command run in the background up to the next command line. -/
def background (pid : Int) : List Act :=
  [.shell (.line "a &\n".toList), .shell .go, .shell (.forked pid)] ++
    List.replicate 4 (.shell .go)

/-- A job in the foreground, up to the suspended `waitfg`. -/
def foreground (pid : Int) : List Act :=
  [.shell (.line "a\n".toList), .shell .go, .shell (.forked pid)] ++
    List.replicate 6 (.shell .go)

end CsappLab.Tsh
