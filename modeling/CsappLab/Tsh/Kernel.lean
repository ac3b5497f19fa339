/-
# Tsh.Kernel — what the shell's code relies on the kernel for

Signals, signal sets, and the processes `Fork` has created and `waitpid` has not
yet reaped. A process is in the group of its own pid once it has called
`Setpgid(0, 0)`; until then it is in the shell's group. Before `Execve` it still
runs the shell's handlers over its own copy of the job list; the started program
handles a signal by its own disposition, which it may change at any time, as it
may its mask.

The kernel facts built in here, and no others: every exit, kill or stop of a
child makes SIGCHLD pending (one bit); `kill(-p, sig)` reaches nothing when no
process is in group `p`. A signal sent to a child becomes pending there, unless
it is one the program ignores and does not block; the child takes it in a later
step of its own, when it runs and does not block it. Only SIGCONT acts when it is
sent: it continues a stopped process, whose stop is then no longer reported, and
removes a pending SIGTSTP.
-/
import CsappLab.Tsh.Jobs
import Mathlib.Data.List.AList
import Mathlib.Data.Fintype.Basic

namespace CsappLab.Tsh

set_option autoImplicit false

inductive Signal where
  | sigint
  | sigtstp
  | sigchld
  | sigquit
  | sigcont
  deriving DecidableEq, Repr

instance : Fintype Signal where
  elems := {.sigint, .sigtstp, .sigchld, .sigquit, .sigcont}
  complete sig := by cases sig <;> decide

/-- `sigset_t`. `sigfillset` is `Finset.univ`, `sigemptyset` is `∅`. -/
abbrev SigSet : Type := Finset Signal

/-- How a process ended. -/
inductive Ending where
  | exited (code : Int)
  | signaled (sig : Int)
  deriving DecidableEq, Repr

/-- Whether a process runs, is stopped (and whether `waitpid` has reported the
stop), or has ended and is a zombie. -/
inductive RunState where
  | running
  | stopped (sig : Int) (reported : Bool)
  | zombie (ending : Ending)
  deriving DecidableEq, Repr

/-- How far the start of a child has got. -/
inductive Phase where
  | forked
  | grouped
  | unmasked
  | started
  deriving DecidableEq, Repr

/-- What a program does with a signal. -/
inductive Disposition where
  | default_
  | caught
  | ignored
  deriving DecidableEq, Repr

/-- A child of the shell. `pending` are the signals it has been sent and has not
taken, `prevMask` is the local `prevMask` it inherited from `eval`, `jobs` its own
copy of the job list. -/
structure Proc where
  phase : Phase
  run : RunState
  mask : SigSet
  pending : SigSet
  prevMask : SigSet
  jobs : Jobs
  onInt : Disposition
  onTstp : Disposition

/-- The children that have not been reaped, by pid. -/
abbrev Procs : Type := AList fun _ : Int => Proc

namespace Proc

variable (pr : Proc)

/-- The process has a status `waitpid` has not returned yet. -/
def unreported : Bool :=
  match pr.run with
  | .running => false
  | .stopped _ reported => !reported
  | .zombie _ => true

/-- The process has ended. -/
def ended : Bool :=
  match pr.run with
  | .zombie _ => true
  | _ => false

/-- The disposition of the started program for a signal the shell forwards. -/
def disposition : Signal → Disposition
  | .sigint => pr.onInt
  | .sigtstp => pr.onTstp
  | _ => .ignored

/-- The program ignores the signal and does not block it: the kernel drops it. -/
def Discards (sig : Signal) : Prop :=
  pr.phase = .started ∧ pr.disposition sig = .ignored ∧ sig ∉ pr.mask

instance (sig : Signal) : Decidable (pr.Discards sig) :=
  inferInstanceAs (Decidable (_ ∧ _))

/-- The process has been sent a signal. -/
def sent (sig : Signal) : Proc :=
  { pr with pending := insert sig pr.pending }

/-- The process has taken a signal. -/
def taken (sig : Signal) : Proc :=
  { pr with pending := pr.pending.erase sig }

/-- The process writes its own copy of the job list. -/
def setJobs (jobs : Jobs) : Proc :=
  { pr with jobs := jobs }

/-- The process has been sent SIGCONT. -/
def continued : Proc :=
  { pr with run := .running, pending := pr.pending.erase .sigtstp }

end Proc

/-- The numbers of the signals the shell sends. -/
def Signal.number : Signal → Int
  | .sigint => 2
  | .sigquit => 3
  | .sigchld => 17
  | .sigcont => 18
  | .sigtstp => 20

/-- Children and the shell's pending signals: what `kill` and the children change. -/
structure Kern where
  procs : Procs
  pending : SigSet

namespace Kern

/-- The process of a pid changes. -/
def put (k : Kern) (pid : Int) (pr : Proc) : Kern :=
  { k with procs := k.procs.insert pid pr }

/-- The status of a child changes in a way its parent is told of. -/
def report (k : Kern) (pid : Int) (pr : Proc) (run : RunState) : Kern where
  procs := k.procs.insert pid { pr with run := run }
  pending := insert .sigchld k.pending

/-- The process of pid `pid`, if it is in the group of its own pid. -/
def member (k : Kern) (pid : Int) : Option Proc :=
  match k.procs.lookup pid with
  | some pr => if pr.phase = .forked then none else some pr
  | none => none

/-- A signal reaches the process `pid`. -/
def post (k : Kern) (pid : Int) (pr : Proc) (sig : Signal) : Kern :=
  if pr.ended then k
  else if sig = .sigcont then k.put pid pr.continued
  else if pr.Discards sig then k
  else k.put pid (pr.sent sig)

/-- `kill(-pid, sig)`. -/
def kill (k : Kern) (pid : Int) (sig : Signal) : Kern :=
  match k.member pid with
  | none => k
  | some pr => k.post pid pr sig

/-- The handler a child has inherited, before it has come to `Execve`: it looks
for a foreground job in the child's own copy of the job list and sends the signal
on to that job's group. Here it runs in one step. -/
def forward (k : Kern) (pid : Int) (pr : Proc) (sig : Signal) : Kern :=
  if fgpid pr.jobs = 0 then k.put pid pr
  else
    let jobs :=
      match sig, getjobpid pr.jobs (fgpid pr.jobs) with
      | .sigtstp, some i => setState pr.jobs i .st
      | _, _ => pr.jobs
    (k.put pid (pr.setJobs jobs)).kill (fgpid pr.jobs) sig

/-- A child takes a signal that is pending: the started program by its own
disposition, a child that has not reached `Execve` by the handler it inherited. -/
def take (k : Kern) (pid : Int) (pr : Proc) (sig : Signal) : Kern :=
  if pr.phase = .started then
    match pr.disposition sig, sig with
    | .default_, .sigint => k.report pid (pr.taken sig) (.zombie (.signaled sig.number))
    | .default_, .sigtstp => k.report pid (pr.taken sig) (.stopped sig.number false)
    | _, _ => k.put pid (pr.taken sig)
  else if sig = .sigint ∨ sig = .sigtstp then k.forward pid (pr.taken sig) sig
  else k.put pid (pr.taken sig)

end Kern

/-- What a child can do on its own, or have done to it by others. -/
inductive ChildAct where
  | setpgid
  | unmask
  | execve
  | take (sig : Signal)
  | sigaction (sig : Signal) (d : Disposition)
  | sigprocmask (mask : SigSet)
  | exit (code : Int)
  | killed (sig : Int)
  | stop (sig : Int)
  | cont
  deriving DecidableEq

/-- One step of a child. -/
def Kern.child (k : Kern) (pid : Int) (pr : Proc) : ChildAct → Option Kern
  | .setpgid =>
      if pr.run = .running ∧ pr.phase = .forked then
        some (k.put pid { pr with phase := .grouped })
      else none
  | .unmask =>
      if pr.run = .running ∧ pr.phase = .grouped then
        some (k.put pid { pr with phase := .unmasked, mask := pr.prevMask })
      else none
  | .execve =>
      -- the handlers the child inherited are reset to the default action
      if pr.run = .running ∧ pr.phase = .unmasked then
        some (k.put pid { pr with phase := .started, onInt := .default_, onTstp := .default_ })
      else none
  | .take sig =>
      if pr.run = .running ∧ sig ∈ pr.pending ∧ sig ∉ pr.mask then some (k.take pid pr sig)
      else none
  | .sigaction sig d =>
      -- a pending signal that comes to be ignored is dropped
      let pending := if d = .ignored then pr.pending.erase sig else pr.pending
      if pr.run = .running ∧ pr.phase = .started then
        match sig with
        | .sigint => some (k.put pid { pr with onInt := d, pending := pending })
        | .sigtstp => some (k.put pid { pr with onTstp := d, pending := pending })
        | _ => none
      else none
  | .sigprocmask mask =>
      if pr.run = .running ∧ pr.phase = .started then some (k.put pid { pr with mask := mask })
      else none
  | .exit code =>
      if pr.run = .running then some (k.report pid pr (.zombie (.exited code))) else none
  | .killed sig =>
      if pr.ended then none else some (k.report pid pr (.zombie (.signaled sig)))
  | .stop sig =>
      if pr.run = .running then some (k.report pid pr (.stopped sig false)) else none
  | .cont =>
      if pr.ended then none else some (k.put pid pr.continued)

theorem mem_of_lookup {procs : Procs} {pid : Int} {pr : Proc}
    (found : procs.lookup pid = some pr) : pid ∈ procs :=
  AList.lookup_isSome.1 (by rw [found]; rfl)

theorem lookup_of_mem {procs : Procs} {pid : Int} (alive : pid ∈ procs) :
    ∃ pr, procs.lookup pid = some pr :=
  Option.isSome_iff_exists.1 (AList.lookup_isSome.2 alive)

/-- Replacing a process creates none. -/
theorem mem_insert_of_lookup {procs : Procs} {pid : Int} {pr : Proc}
    (found : procs.lookup pid = some pr) (pr' : Proc) (p : Int) :
    p ∈ procs.insert pid pr' ↔ p ∈ procs := by
  rw [AList.mem_insert]
  constructor
  · rintro (rfl | alive)
    · exact mem_of_lookup found
    · exact alive
  · exact Or.inr

/-- After a process is replaced, each one is the new one or was there before. -/
theorem lookup_insert_cases {procs : Procs} {pid p : Int} {pr' q : Proc}
    (found : (procs.insert pid pr').lookup p = some q) :
    p = pid ∧ q = pr' ∨ p ≠ pid ∧ procs.lookup p = some q := by
  by_cases same : p = pid
  · subst same
    rw [AList.lookup_insert] at found
    exact .inl ⟨rfl, (Option.some.inj found).symm⟩
  · rw [AList.lookup_insert_ne same] at found
    exact .inr ⟨same, found⟩

/-- After a process is reaped, the others are the ones there were. -/
theorem lookup_erase_cases {procs : Procs} {pid p : Int} {q : Proc}
    (found : (procs.erase pid).lookup p = some q) : p ≠ pid ∧ procs.lookup p = some q := by
  by_cases same : p = pid
  · subst same
    rw [AList.lookup_erase] at found
    cases found
  · rw [AList.lookup_erase_ne same] at found
    exact ⟨same, found⟩

/-! ## What a signal and a child's own step do -/

/-- What sending a signal can do. -/
inductive Kern.Sends (k : Kern) (sig : Signal) : Kern → Prop where
  | nothing : Sends k sig k
  | pending {pid : Int} {pr : Proc} (found : k.procs.lookup pid = some pr)
      (alive : pr.ended = false) (other : sig ≠ .sigcont) :
      Sends k sig (k.put pid (pr.sent sig))
  | continues {pid : Int} {pr : Proc} (found : k.procs.lookup pid = some pr)
      (alive : pr.ended = false) (isCont : sig = .sigcont) : Sends k sig (k.put pid pr.continued)

/-- What taking a signal can do. -/
inductive Kern.Takes (k : Kern) (pid : Int) (pr : Proc) (sig : Signal) : Kern → Prop where
  | ends (started : pr.phase = .started) (isInt : sig = .sigint) (default_ : pr.onInt = .default_) :
      Takes k pid pr sig (k.report pid (pr.taken sig) (.zombie (.signaled sig.number)))
  | stops (started : pr.phase = .started) (isTstp : sig = .sigtstp)
      (default_ : pr.onTstp = .default_) :
      Takes k pid pr sig (k.report pid (pr.taken sig) (.stopped sig.number false))
  | handled (survives : pr.phase = .started → pr.disposition sig = .default_ →
      sig ≠ .sigint ∧ sig ≠ .sigtstp) : Takes k pid pr sig (k.put pid (pr.taken sig))
  | forwards {jobs : Jobs} {k' : Kern} (inherited : pr.phase ≠ .started)
      (listed : fgpid pr.jobs ≠ 0)
      (sends : Kern.Sends (k.put pid ((pr.taken sig).setJobs jobs)) sig k')
      (other : sig ≠ .sigcont) : Takes k pid pr sig k'

/-- What a step of a child can do, with the guard it is taken under. -/
inductive Kern.ChildMove (k : Kern) (pid : Int) (pr : Proc) : ChildAct → Kern → Prop where
  | setpgid (running : pr.run = .running) (at_ : pr.phase = .forked) :
      ChildMove k pid pr .setpgid (k.put pid { pr with phase := .grouped })
  | unmask (running : pr.run = .running) (at_ : pr.phase = .grouped) :
      ChildMove k pid pr .unmask (k.put pid { pr with phase := .unmasked, mask := pr.prevMask })
  | execve (running : pr.run = .running) (at_ : pr.phase = .unmasked) :
      ChildMove k pid pr .execve
        (k.put pid { pr with phase := .started, onInt := .default_, onTstp := .default_ })
  | take {sig : Signal} {k' : Kern} (running : pr.run = .running) (pending : sig ∈ pr.pending)
      (unblocked : sig ∉ pr.mask) (takes : k.Takes pid pr sig k') :
      ChildMove k pid pr (.take sig) k'
  | sigaction {sig : Signal} {d onInt onTstp : Disposition} (running : pr.run = .running)
      (at_ : pr.phase = .started) :
      ChildMove k pid pr (.sigaction sig d) (k.put pid { pr with
        onInt := onInt
        onTstp := onTstp
        pending := if d = .ignored then pr.pending.erase sig else pr.pending })
  | sigprocmask {mask : SigSet} (running : pr.run = .running) (at_ : pr.phase = .started) :
      ChildMove k pid pr (.sigprocmask mask) (k.put pid { pr with mask := mask })
  | ends {act : ChildAct} (ending : Ending) (alive : pr.ended = false)
      (by_ : (∃ code, act = .exit code) ∨ ∃ sig, act = .killed sig) :
      ChildMove k pid pr act (k.report pid pr (.zombie ending))
  | stop {sig : Int} (running : pr.run = .running) :
      ChildMove k pid pr (.stop sig) (k.report pid pr (.stopped sig false))
  | cont (alive : pr.ended = false) : ChildMove k pid pr .cont (k.put pid pr.continued)

namespace Kern

variable {cont : Prop} {k k' : Kern} {pid : Int} {pr : Proc} {sig : Signal}

theorem member_lookup (isMember : k.member pid = some pr) : k.procs.lookup pid = some pr := by
  unfold member at isMember
  split at isMember
  · split at isMember <;> cases isMember
    assumption
  · cases isMember

theorem post_sends (found : k.procs.lookup pid = some pr) (sig : Signal) :
    k.Sends sig (k.post pid pr sig) := by
  unfold post
  split_ifs with ended isCont discards
  · exact .nothing
  · exact .continues found (Bool.eq_false_of_not_eq_true ended) isCont
  · exact .nothing
  · exact .pending found (Bool.eq_false_of_not_eq_true ended) isCont

theorem kill_sends (k : Kern) (pid : Int) (sig : Signal) : k.Sends sig (k.kill pid sig) := by
  unfold kill
  split
  · exact .nothing
  · rename_i pr isMember
    exact post_sends (member_lookup isMember) sig

theorem take_takes (k : Kern) (pid : Int) (pr : Proc) (sig : Signal) :
    k.Takes pid pr sig (k.take pid pr sig) := by
  unfold take
  split_ifs with started forwarded
  · split
    · rename_i default_
      exact .ends started rfl default_
    · rename_i default_
      exact .stops started rfl default_
    · rename_i notInt notTstp
      exact .handled fun _ default_ => ⟨fun isInt => notInt default_ isInt,
        fun isTstp => notTstp default_ isTstp⟩
  · unfold forward
    split_ifs with none_
    · exact .handled fun isStarted => absurd isStarted started
    · refine .forwards started none_ (kill_sends _ _ sig) ?_
      rintro rfl
      rcases forwarded with isInt | isTstp
      · cases isInt
      · cases isTstp
  · exact .handled fun isStarted => absurd isStarted started

/-- **What a child can do.** -/
theorem child_move {act : ChildAct} (moved : k.child pid pr act = some k') :
    k.ChildMove pid pr act k' := by
  cases act with
  | sigaction sig d =>
      simp only [child, Option.ite_none_right_eq_some] at moved
      obtain ⟨⟨running, at_⟩, moved⟩ := moved
      cases sig <;> cases moved <;> exact .sigaction running at_
  | killed sig =>
      simp only [child, Option.ite_none_left_eq_some, Option.some.injEq] at moved
      rw [← moved.2]
      exact .ends _ (Bool.eq_false_of_not_eq_true moved.1) (.inr ⟨sig, rfl⟩)
  | cont =>
      simp only [child, Option.ite_none_left_eq_some, Option.some.injEq] at moved
      rw [← moved.2]
      exact .cont (Bool.eq_false_of_not_eq_true moved.1)
  | exit code =>
      simp only [child, Option.ite_none_right_eq_some, Option.some.injEq] at moved
      rw [← moved.2]
      exact .ends _ (by rw [Proc.ended, moved.1]) (.inl ⟨code, rfl⟩)
  | setpgid =>
      simp only [child, Option.ite_none_right_eq_some, Option.some.injEq] at moved
      rw [← moved.2]
      exact .setpgid moved.1.1 moved.1.2
  | unmask =>
      simp only [child, Option.ite_none_right_eq_some, Option.some.injEq] at moved
      rw [← moved.2]
      exact .unmask moved.1.1 moved.1.2
  | execve =>
      simp only [child, Option.ite_none_right_eq_some, Option.some.injEq] at moved
      rw [← moved.2]
      exact .execve moved.1.1 moved.1.2
  | take sig =>
      simp only [child, Option.ite_none_right_eq_some, Option.some.injEq] at moved
      rw [← moved.2]
      exact .take moved.1.1 moved.1.2.1 moved.1.2.2 (take_takes k pid pr sig)
  | sigprocmask mask =>
      simp only [child, Option.ite_none_right_eq_some, Option.some.injEq] at moved
      rw [← moved.2]
      exact .sigprocmask moved.1.1 moved.1.2
  | stop sig =>
      simp only [child, Option.ite_none_right_eq_some, Option.some.injEq] at moved
      rw [← moved.2]
      exact .stop moved.1

end Kern

/-! ## What becomes of the processes

Neither a signal nor a step of a child creates or reaps a process. Each process
keeps its run state, or ends or stops, and then SIGCHLD is pending, or is
continued. -/

/-- One change of a process's run state; `told` is that SIGCHLD is pending
afterwards, `cont` that the step can continue a stopped process. -/
inductive RunMove (cont told : Prop) : RunState → RunState → Prop where
  | same (r : RunState) : RunMove cont told r r
  | ends {r : RunState} (e : Ending) (told_ : told) : RunMove cont told r (.zombie e)
  | stops (sig : Int) (told_ : told) : RunMove cont told .running (.stopped sig false)
  | continues {sig : Int} {reported : Bool} (cont_ : cont) :
      RunMove cont told (.stopped sig reported) .running

/-- What a step of the kernel or of a child changes. -/
structure Kern.Evolves (cont : Prop) (k k' : Kern) : Prop where
  alive : ∀ p, p ∈ k'.procs ↔ p ∈ k.procs
  pending : k.pending ⊆ k'.pending
  moves : ∀ p pr', k'.procs.lookup p = some pr' → ∃ pr, k.procs.lookup p = some pr ∧
    RunMove cont (.sigchld ∈ k'.pending) pr.run pr'.run

namespace Kern

variable {cont : Prop} {k k' k'' : Kern} {pid : Int} {pr : Proc} {sig : Signal}

theorem Evolves.refl (cont : Prop) (k : Kern) : Evolves cont k k :=
  ⟨fun _ => Iff.rfl, Finset.Subset.refl _, fun _ pr' found => ⟨pr', found, .same _⟩⟩

/-- Replacing one process. -/
theorem evolves_insert {pr' : Proc} {pending : SigSet} (found : k.procs.lookup pid = some pr)
    (grows : k.pending ⊆ pending) (move : RunMove cont (.sigchld ∈ pending) pr.run pr'.run) :
    Evolves cont k ⟨k.procs.insert pid pr', pending⟩ := by
  refine ⟨mem_insert_of_lookup found pr', grows, fun p q found' => ?_⟩
  rcases lookup_insert_cases found' with ⟨rfl, rfl⟩ | ⟨-, there⟩
  · exact ⟨pr, found, move⟩
  · exact ⟨q, there, .same _⟩

theorem evolves_report {run : RunState} {pr' : Proc} (found : k.procs.lookup pid = some pr)
    (move : RunMove cont (.sigchld ∈ insert .sigchld k.pending) pr.run run) :
    Evolves cont k (k.report pid pr' run) :=
  evolves_insert found (Finset.subset_insert _ _) move

/-- A change of a process that leaves its run state alone. -/
theorem evolves_put {pr' : Proc} (found : k.procs.lookup pid = some pr)
    (same : pr'.run = pr.run) : Evolves cont k (k.put pid pr') :=
  evolves_insert found (Finset.Subset.refl _) (same ▸ .same _)

theorem evolves_continued (found : k.procs.lookup pid = some pr) (alive : pr.ended = false)
    (c : cont) : Evolves cont k (k.put pid pr.continued) := by
  refine evolves_insert found (Finset.Subset.refl _) ?_
  show RunMove cont _ pr.run .running
  cases run : pr.run with
  | running => exact .same _
  | stopped sig reported => exact .continues c
  | zombie ending => simp [Proc.ended, run] at alive

theorem Sends.evolves (sends : k.Sends sig k') (c : sig = .sigcont → cont) :
    Evolves cont k k' := by
  cases sends with
  | nothing => exact .refl cont k
  | pending found alive other => exact evolves_put found rfl
  | continues found alive isCont => exact evolves_continued found alive (c isCont)

/-- A signal sent to a group. -/
theorem evolves_kill (pid : Int) (sig : Signal) (c : sig = .sigcont → cont) :
    Evolves cont k (k.kill pid sig) :=
  (kill_sends k pid sig).evolves c

/-- After a change that leaves the run state alone, a step evolves as from before it. -/
theorem Evolves.after_put {pr' : Proc} (found : k.procs.lookup pid = some pr)
    (same : pr'.run = pr.run) (evolves : Evolves cont (k.put pid pr') k') :
    Evolves cont k k' where
  alive p := (evolves.alive p).trans (mem_insert_of_lookup found pr' p)
  pending := evolves.pending
  moves p q found' := by
    obtain ⟨before, there, move⟩ := evolves.moves p q found'
    rcases lookup_insert_cases there with ⟨rfl, rfl⟩ | ⟨-, first⟩
    · exact ⟨pr, found, same ▸ move⟩
    · exact ⟨before, first, move⟩

theorem Takes.evolves (takes : k.Takes pid pr sig k') (found : k.procs.lookup pid = some pr)
    (running : pr.run = .running) : Evolves cont k k' := by
  cases takes with
  | ends started isInt default_ =>
      exact evolves_report found (.ends _ (Finset.mem_insert_self _ _))
  | stops started isTstp default_ =>
      exact evolves_report found (running ▸ .stops _ (Finset.mem_insert_self _ _))
  | handled survives => exact evolves_put found rfl
  | @forwards jobs _ inherited listed sends other =>
      have same : ((pr.taken sig).setJobs jobs).run = pr.run := rfl
      exact .after_put found same (sends.evolves fun isCont => absurd isCont other)

/-- A step of a child. -/
theorem evolves_child {act : ChildAct} (found : k.procs.lookup pid = some pr)
    (moved : k.child pid pr act = some k') : Evolves (act = .cont) k k' := by
  cases child_move moved with
  | setpgid running at_ => exact evolves_put found rfl
  | unmask running at_ => exact evolves_put found rfl
  | execve running at_ => exact evolves_put found rfl
  | take running pending unblocked takes => exact takes.evolves found running
  | sigaction running at_ => exact evolves_put found rfl
  | sigprocmask running at_ => exact evolves_put found rfl
  | ends ending alive by_ => exact evolves_report found (.ends _ (Finset.mem_insert_self _ _))
  | stop running =>
      exact evolves_report found (running ▸ .stops _ (Finset.mem_insert_self _ _))
  | cont alive => exact evolves_continued found alive rfl

/-- A process with a status to report had it before, or SIGCHLD is pending. -/
theorem Evolves.unreported (evolves : Evolves cont k k') {pr' : Proc}
    (found : k'.procs.lookup pid = some pr') (new : pr'.unreported = true) :
    .sigchld ∈ k'.pending ∨ ∃ pr, k.procs.lookup pid = some pr ∧ pr.unreported = true := by
  obtain ⟨pr, found', move⟩ := evolves.moves pid pr' found
  obtain ⟨_, run, _, _, _, _, _, _⟩ := pr
  obtain ⟨_, run', _, _, _, _, _, _⟩ := pr'
  cases move with
  | same => exact Or.inr ⟨_, found', new⟩
  | ends e told => exact Or.inl told
  | stops sig told => exact Or.inl told
  | continues => simp [Proc.unreported] at new

end Kern

end CsappLab.Tsh
