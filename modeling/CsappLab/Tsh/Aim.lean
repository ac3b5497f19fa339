/-
# Tsh.Aim — ctrl-c and ctrl-z on a job that is just being started

The shell is run under a watch that only looks on. It keeps the pids that `eval`
has forked for the foreground and that have neither ended nor stopped since
(`fresh`); for every active handler the ones among them its signal is still owed
to (`aims`): all fresh ones when `sigint_handler` or `sigtstp_handler` is entered,
less the one its `Kill` reaches; and the signals the shell has sent them that the
started program has not handled (`sent`). `AimsOk` says what is expected: a handler
calls `Kill` for what its signal was aimed at, and when the call is over nothing is
owed; the shell does not end while anything is owed; what has been sent is in
flight until the started program handles it.

`aims_along_iff` is the exact condition, step by step (`Hits`): the handler finds
the fresh job in state `FG`, its process has called `Setpgid` and has not ended at
the call, nothing ends the shell before, and only the started program takes the
signal. Between `Fork` and the end of `addjob`, and until the child has come to
`Execve`, it can fail, and the signal is lost.
-/
import CsappLab.Tsh.Flight

namespace CsappLab.Tsh

set_option autoImplicit false

open CsappLab.Lib

/-- What the watch remembers. -/
structure Watch where
  fresh : List Int
  aims : List (List Int)
  sent : List (Int × Signal)

/-- The process runs. -/
def Kern.runs (k : Kern) (pid : Int) : Bool :=
  match k.procs.lookup pid with
  | some pr => pr.run == .running
  | none => false

/-- The pids forked for the foreground after a step from `s`. -/
def forkedFg (s : St) (a : Act) (fresh : List Int) : List Int :=
  match s.main, a with
  | .evalFork l _, .shell (.forked pid) => if l.isBg then fresh else pid :: fresh
  | _, _ => fresh

/-- What the active handlers still owe after a step from `s`. -/
def owed (s : St) (a : Act) (w : Watch) : List (List Int) :=
  match a with
  | .deliver .sigint | .deliver .sigtstp => w.fresh :: w.aims
  | .deliver .sigchld => [] :: w.aims
  | .shell .go =>
      match s.frames, w.aims with
      | f :: _, ps :: rest =>
          match f.handler with
          | .sigint (.kill _ pid) | .sigtstp (.kill _ pid) =>
              ps.filter (fun p => !(p == pid && s.kern.reaches pid)) :: rest
          | .sigint .leave | .sigtstp .leave | .sigchld .leave => rest
          | _ => ps :: rest
      | _, aims => aims
  | _ => w.aims

/-- The call a handler is at. -/
def Handler.killing : Handler → Option (Int × Signal)
  | .sigint (.kill _ pid) => some (pid, .sigint)
  | .sigtstp (.kill _ pid) => some (pid, .sigtstp)
  | _ => none

/-- What a call sends to one of the pids it is owed to, if it stays pending there. -/
def sentOff (s : St) (a : Act) (w : Watch) : List (Int × Signal) :=
  match a, s.frames, w.aims with
  | .shell .go, f :: _, ps :: _ =>
      match f.handler.killing with
      | some x => if x.1 ∈ ps ∧ s.kern.pends x.1 x.2 then [x] else []
      | none => []
  | _, _, _ => []

/-- The shell under the watch. -/
def watched : Machine (St × Watch) Act where
  start := (.start, ⟨[], [], []⟩)
  step m a := (step m.1 a).map fun t => (t, {
    fresh := (forkedFg m.1 a m.2.fresh).filter t.kern.runs
    aims := owed m.1 a m.2
    sent := sentOff m.1 a m.2 ++ m.2.sent.filter fun x => !handles m.1 x a })

/-- What is expected of a handler that owes its signal to `ps`. -/
def Handler.AimOk (ps : List Int) : Handler → Prop
  | .sigint (.kill _ pid) | .sigtstp (.kill _ pid) => ∀ p ∈ ps, p = pid
  | .sigint (.restore _) | .sigtstp (.restore _) => ps = []
  | .sigint .leave | .sigtstp .leave => ps = []
  | _ => True

/-- Every handler sends its signal to the jobs it was aimed at. -/
def Aimed (frames : List Frame) (aims : List (List Int)) : Prop :=
  List.Forall₂ (fun f ps => f.handler.AimOk ps) frames aims

/-- **No ctrl-c and no ctrl-z is lost.** -/
structure AimsOk (m : St × Watch) : Prop where
  aimed : Aimed m.1.frames m.2.aims
  ended : m.1.status ≠ .running → ∀ ps ∈ m.2.aims, ps = []
  flies : ∀ x ∈ m.2.sent, InFlight m.1.kern.procs x

/-! ## When it holds -/

/-- A look-up finds the fresh job in state `FG`; at the call its process has called
`Setpgid` and has not ended. -/
def Finds (s : St) (w : Watch) : Act → Prop
  | .shell .go =>
      match s.frames, w.aims with
      | f :: _, ps :: _ =>
          match f.handler with
          | .sigint (.look _) | .sigtstp (.look _) =>
              ∀ p ∈ ps, ∃ i, (s.jobs i).pid = p ∧ (s.jobs i).state = .fg
          | .sigint (.kill _ _) | .sigtstp (.kill _ _) => ∀ p ∈ ps, s.kern.reaches p = true
          | _ => True
      | _, _ => True
  | _ => True

/-- The steps that end a shell with handlers active: SIGQUIT, a `Kill` that fails, and
`sigchld_handler` with a stopped child that is not listed. -/
def Ends (s : St) : Act → Prop
  | .deliver .sigquit | .shell .killFails => True
  | .shell .go =>
      match s.frames with
      | [] => False
      | f :: _ =>
          match f.handler with
          | .sigchld (.handle pid (.stopped _) _) => getjobpid s.jobs pid = none
          | _ => False
  | _ => False

/-- The step neither misses nor loses a signal. -/
structure Hits (m : St × Watch) (a : Act) : Prop where
  finds : Finds m.1 m.2 a
  goesOn : Ends m.1 a → ∀ ps ∈ m.2.aims, ps = []
  handled : ∀ x ∈ m.2.sent, Drops m.1 x a → handles m.1 x a = true

/-! ## The watch only looks on -/

theorem watched_step {m m' : St × Watch} {a : Act} (step_ : watched.step m a = some m') :
    step m.1 a = some m'.1 ∧ m'.2.aims = owed m.1 a m.2 ∧
      m'.2.sent = sentOff m.1 a m.2 ++ m.2.sent.filter fun x => !handles m.1 x a := by
  obtain ⟨t, stepped, rfl⟩ := Option.map_eq_some_iff.1 step_
  exact ⟨stepped, rfl, rfl⟩

theorem watched_reachable {m : St × Watch} (reached : watched.Reachable m) :
    tsh.Reachable m.1 := by
  induction reached with
  | start => exact .start
  | step _ _ stepped ih => exact .step ih trivial (watched_step stepped).1

/-- Every run of the shell is a run under the watch. -/
theorem watched_exec {m : St × Watch} (as : List Act) :
    (watched.exec m as).map Prod.fst = tsh.exec m.1 as := by
  induction as generalizing m with
  | nil => rfl
  | cons a as ih =>
      show ((watched.step m a).bind fun m' => watched.exec m' as).map Prod.fst =
        (step m.1 a).bind fun t => tsh.exec t as
      cases stepped : step m.1 a with
      | none =>
          have halted : watched.step m a = none := by simp only [watched, stepped, Option.map_none]
          rw [halted]
          rfl
      | some t =>
          obtain ⟨w, looked⟩ : ∃ w, watched.step m a = some (t, w) :=
            ⟨_, by simp only [watched, stepped, Option.map_some]; rfl⟩
          rw [looked]
          exact ih

/-! ## One step -/

theorem MainMove.frames_eq {s t : St} {inp : Input} (move : MainMove s inp t) :
    t.frames = s.frames := by
  cases move <;> rfl

/-- A step of `sigchld_handler` other than its return. -/
theorem sigchldStep_frames {s t : St} {f : Frame} {fs : List Frame} {pc : ChldPc} {inp : Input}
    (top : s.frames = f :: fs) (at_ : f.handler = .sigchld pc)
    (step_ : sigchldStep s pc inp = some t) :
    ∃ pc', t.frames = { f with handler := .sigchld pc' } :: fs := by
  have same : s.frames = { f with handler := .sigchld pc } :: fs := by rw [top, ← at_]
  unfold sigchldStep at step_
  split at step_
  case h_1 =>
      obtain ⟨r, -, rfl⟩ := Option.map_eq_some_iff.1 step_
      exact ⟨_, by simp only [St.handler, top]; rfl⟩
  case h_2 =>
      split at step_ <;> cases step_
      exact ⟨_, by simp only [St.handler, top]; rfl⟩
  case h_3 => cases step_; exact ⟨_, by simp only [St.handler, St.setMask, top]; rfl⟩
  case h_4 => cases step_; exact ⟨_, by simp only [St.handler, top]; rfl⟩
  case h_5 => cases step_; exact ⟨_, by simp only [St.handler, St.print, top]; rfl⟩
  case h_6 =>
      split at step_ <;> cases step_
      · exact ⟨_, by simp only [St.handler, St.print, St.setJobs, top]; rfl⟩
      · exact ⟨_, same⟩
  case h_7 => cases step_; exact ⟨_, by simp only [St.handler, St.setMask, top]; rfl⟩
  case h_8 => cases step_

/-- The top handler has moved on and owes `ps'`; the frames below owe what they did. -/
theorem aimed_top {t : St} {f : Frame} {fs : List Frame} {ps' : List Int}
    {rest : List (List Int)} {h : Handler} (below : Aimed fs rest)
    (frames : t.frames = { f with handler := h } :: fs) :
    Aimed t.frames (ps' :: rest) ↔ h.AimOk ps' := by
  unfold Aimed
  rw [frames, List.forall₂_cons]
  exact ⟨fun both => both.1, fun top => ⟨top, below⟩⟩

/-- What the filter at a call leaves is nothing exactly when the call reaches what it
is for. -/
theorem filter_eq_nil_iff {ps : List Int} {pid : Int} {k : Kern} (aimed : ∀ p ∈ ps, p = pid) :
    ps.filter (fun p => !(p == pid && k.reaches pid)) = [] ↔ ∀ p ∈ ps, k.reaches p = true := by
  rw [List.filter_eq_nil_iff]
  refine forall₂_congr fun p member => ?_
  simp [aimed p member]

section Top

variable {s t : St} {f : Frame} {fs : List Frame} {w : Watch} {ps : List Int}
  {rest : List (List Int)}

theorem owed_go (top : s.frames = f :: fs) (owes : w.aims = ps :: rest) :
    owed s (.shell .go) w =
      match f.handler with
      | .sigint (.kill _ pid) | .sigtstp (.kill _ pid) =>
          ps.filter (fun p => !(p == pid && s.kern.reaches pid)) :: rest
      | .sigint .leave | .sigtstp .leave | .sigchld .leave => rest
      | _ => ps :: rest := by
  simp only [owed, top, owes]

theorem finds_go (top : s.frames = f :: fs) (owes : w.aims = ps :: rest) :
    Finds s w (.shell .go) ↔
      match f.handler with
      | .sigint (.look _) | .sigtstp (.look _) =>
          ∀ p ∈ ps, ∃ i, (s.jobs i).pid = p ∧ (s.jobs i).state = .fg
      | .sigint (.kill _ _) | .sigtstp (.kill _ _) => ∀ p ∈ ps, s.kern.reaches p = true
      | _ => True := by
  simp only [Finds, top, owes]

/-- A step of `sigint_handler`. -/
theorem aimed_sigint_iff {pc : KillPc} (tracking : Tracking s) (fg : FgOk s)
    (top : s.frames = f :: fs) (owes : w.aims = ps :: rest) (below : Aimed fs rest)
    (at_ : f.handler = .sigint pc) (ok : f.handler.AimOk ps)
    (step_ : handlerStep s f fs .go = some t) :
    Aimed t.frames (owed s (.shell .go) w) ↔ Finds s w (.shell .go) := by
  rw [owed_go top owes, finds_go top owes]
  simp only [at_] at ok ⊢
  cases pc with
  | enter =>
      simp only [handlerStep, at_, sigintStep, Option.some.injEq] at step_
      rw [aimed_top below (by rw [← step_]; simp only [St.handler, St.setMask, top]; rfl)]
      rfl
  | look prev =>
      simp only [handlerStep, at_, sigintStep] at step_
      split at step_ <;> rename_i some_ <;> cases step_
      · -- no foreground job: the signal goes nowhere
        rw [aimed_top below (by simp only [St.handler, top]; rfl)]
        simp only [Handler.AimOk, fg.listed_iff tracking, some_, ne_eq, not_true_eq_false,
          false_and, imp_false]
        exact List.eq_nil_iff_forall_not_mem
      · rw [aimed_top below (by simp only [St.handler, top]; rfl)]
        simp only [Handler.AimOk, fg.listed_iff tracking, some_, ne_eq, not_false_eq_true,
          true_and]
  | kill prev pid =>
      simp only [handlerStep, at_, sigintStep, Option.some.injEq] at step_
      rw [aimed_top below (by rw [← step_]; simp only [St.handler, top]; rfl)]
      exact filter_eq_nil_iff ok
  | restore prev =>
      simp only [handlerStep, at_, sigintStep, Option.some.injEq] at step_
      rw [aimed_top below (by rw [← step_]; simp only [St.handler, St.setMask, top]; rfl)]
      exact ⟨fun _ => trivial, fun _ => ok⟩
  | leave =>
      simp only [handlerStep, at_, Option.some.injEq] at step_
      rw [← step_]
      exact ⟨fun _ => trivial, fun _ => below⟩

/-- A step of `sigtstp_handler`. -/
theorem aimed_sigtstp_iff {pc : KillPc} (tracking : Tracking s) (fg : FgOk s)
    (top : s.frames = f :: fs) (owes : w.aims = ps :: rest) (below : Aimed fs rest)
    (at_ : f.handler = .sigtstp pc) (ok : f.handler.AimOk ps)
    (step_ : handlerStep s f fs .go = some t) :
    Aimed t.frames (owed s (.shell .go) w) ↔ Finds s w (.shell .go) := by
  rw [owed_go top owes, finds_go top owes]
  simp only [at_] at ok ⊢
  cases pc with
  | enter =>
      simp only [handlerStep, at_, sigtstpStep, Option.some.injEq] at step_
      rw [aimed_top below (by rw [← step_]; simp only [St.handler, St.setMask, top]; rfl)]
      rfl
  | look prev =>
      simp only [handlerStep, at_, sigtstpStep] at step_
      split at step_
      · rename_i none_
        cases step_
        rw [aimed_top below (by simp only [St.handler, top]; rfl)]
        simp only [Handler.AimOk, fg.listed_iff tracking, none_, ne_eq, not_true_eq_false,
          false_and, imp_false]
        exact List.eq_nil_iff_forall_not_mem
      · rename_i some_
        obtain ⟨i, -, pid⟩ := fgpid_entry some_
        have pos := tracking.wf.nonneg i
        rw [tracking.wf.getjobpid (by omega) pid] at step_
        cases step_
        rw [aimed_top below (by simp only [St.handler, St.setJobs, top]; rfl)]
        simp only [Handler.AimOk, fg.listed_iff tracking, some_, ne_eq, not_false_eq_true,
          true_and]
  | kill prev pid =>
      simp only [handlerStep, at_, sigtstpStep, Option.some.injEq] at step_
      rw [aimed_top below (by rw [← step_]; simp only [St.handler, top]; rfl)]
      exact filter_eq_nil_iff ok
  | restore prev =>
      simp only [handlerStep, at_, sigtstpStep, Option.some.injEq] at step_
      rw [aimed_top below (by rw [← step_]; simp only [St.handler, St.setMask, top]; rfl)]
      exact ⟨fun _ => trivial, fun _ => ok⟩
  | leave =>
      simp only [handlerStep, at_, Option.some.injEq] at step_
      rw [← step_]
      exact ⟨fun _ => trivial, fun _ => below⟩

/-- Without input only a failing call moves these handlers, and it ends the shell. -/
theorem killStep_fails {pc : KillPc} {inp : Input} (notGo : inp ≠ .go)
    (at_ : f.handler = .sigint pc ∨ f.handler = .sigtstp pc)
    (step_ : handlerStep s f fs inp = some t) : inp = .killFails ∧ t = s.exit := by
  rcases at_ with at_ | at_
  · cases pc <;> cases inp <;> simp [handlerStep, at_, sigintStep] at step_ notGo
    exact ⟨rfl, step_.symm⟩
  · cases pc <;> cases inp <;> simp [handlerStep, at_, sigtstpStep] at step_ notGo
    exact ⟨rfl, step_.symm⟩

/-- Until its return `sigchld_handler` takes its own steps. -/
theorem sigchldStep_of_stays {pc : ChldPc} {inp : Input} (at_ : f.handler = .sigchld pc)
    (stays : ¬ (pc = .leave ∧ inp = .go)) (step_ : handlerStep s f fs inp = some t) :
    sigchldStep s pc inp = some t := by
  cases pc <;> cases inp <;> simp [handlerStep, at_] at step_ stays <;> exact step_

/-- A step of the top handler. -/
theorem aimed_handler_iff {inp : Input} (tracking : Tracking s) (fg : FgOk s)
    (top : s.frames = f :: fs) (owes : w.aims = ps :: rest) (below : Aimed fs rest)
    (ok : f.handler.AimOk ps) (step_ : handlerStep s f fs inp = some t) :
    Aimed t.frames (owed s (.shell inp) w) ↔ Finds s w (.shell inp) := by
  have failed : t = s.exit → inp ≠ .go →
      (Aimed t.frames (owed s (.shell inp) w) ↔ Finds s w (.shell inp)) := by
    rintro rfl notGo
    have owed_ : owed s (.shell inp) w = ps :: rest := by
      cases inp with
      | go => exact absurd rfl notGo
      | _ => exact owes
    have finds : Finds s w (.shell inp) := by
      cases inp with
      | go => exact absurd rfl notGo
      | _ => trivial
    rw [owed_]
    exact iff_of_true ((aimed_top (f := f) (h := f.handler) below top).2 ok) finds
  cases at_ : f.handler with
  | sigint pc =>
      by_cases go : inp = .go
      · subst go
        exact aimed_sigint_iff tracking fg top owes below at_ ok step_
      · exact failed (killStep_fails go (Or.inl at_) step_).2 go
  | sigtstp pc =>
      by_cases go : inp = .go
      · subst go
        exact aimed_sigtstp_iff tracking fg top owes below at_ ok step_
      · exact failed (killStep_fails go (Or.inr at_) step_).2 go
  | sigchld pc =>
      -- nothing is owed by `sigchld_handler`
      have finds : Finds s w (.shell inp) := by
        cases inp with
        | go => rw [finds_go top owes, at_]; trivial
        | _ => trivial
      refine iff_of_true ?_ finds
      by_cases leaves : pc = .leave ∧ inp = .go
      · obtain ⟨rfl, rfl⟩ := leaves
        rw [owed_go top owes, at_]
        simp only [handlerStep, at_, Option.some.injEq] at step_
        rw [← step_]
        exact below
      · have owed_ : owed s (.shell inp) w = ps :: rest := by
          cases inp with
          | go =>
              rw [owed_go top owes, at_]
              cases pc with
              | leave => exact absurd ⟨rfl, rfl⟩ leaves
              | _ => rfl
          | _ => exact owes
        obtain ⟨pc', frames⟩ := sigchldStep_frames top at_ (sigchldStep_of_stays at_ leaves step_)
        rw [owed_, aimed_top below frames]
        trivial

end Top

/-- Where nothing is active nothing is owed. -/
theorem aims_idle {s : St} {w : Watch} (aimed : Aimed s.frames w.aims) (idle : s.frames = []) :
    w.aims = [] := by
  unfold Aimed at aimed
  rw [idle] at aimed
  exact List.forall₂_nil_left_iff.1 aimed

theorem aims_top {s : St} {w : Watch} {f : Frame} {fs : List Frame}
    (aimed : Aimed s.frames w.aims) (top : s.frames = f :: fs) :
    ∃ ps rest, w.aims = ps :: rest ∧ f.handler.AimOk ps ∧ Aimed fs rest := by
  unfold Aimed at aimed
  rw [top] at aimed
  cases owes : w.aims with
  | nil => rw [owes] at aimed; cases aimed
  | cons ps rest =>
      rw [owes, List.forall₂_cons] at aimed
      exact ⟨ps, rest, rfl, aimed.1, aimed.2⟩

theorem owed_idle {s : St} {w : Watch} (idle : s.frames = []) (none_ : w.aims = [])
    (inp : Input) : owed s (.shell inp) w = [] := by
  cases inp with
  | go => simp only [owed, idle, none_]
  | _ => exact none_

/-- The handlers' share: from handlers on their way to their aims, a step keeps them
there exactly when it finds them. -/
theorem aimed_step_iff {s t : St} {w : Watch} {a : Act} (reached : tsh.Reachable s)
    (aimed : Aimed s.frames w.aims) (step_ : step s a = some t) :
    Aimed t.frames (owed s a w) ↔ Finds s w a := by
  have running := step_running step_
  cases step_move step_ with
  | arrive sig handled => exact iff_of_true aimed trivial
  | quit => exact iff_of_true aimed trivial
  | @deliver sig h pending unblocked entry =>
      refine iff_of_true ?_ trivial
      cases sig <;> cases entry <;> exact List.Forall₂.cons trivial aimed
  | child alive moved => exact iff_of_true aimed trivial
  | @main inp _ idle move =>
      have none_ := aims_idle aimed idle
      rw [owed_idle idle none_, move.frames_eq, idle]
      refine iff_of_true List.Forall₂.nil ?_
      cases inp with
      | go => simp only [Finds, idle]
      | _ => trivial
  | @handler inp _ f fs top move =>
      obtain ⟨ps, rest, owes, ok, below⟩ := aims_top aimed top
      rw [step_handler running top] at step_
      exact aimed_handler_iff (tracking_reachable reached) (fgOk_reachable reached) top owes below
        ok step_

/-! ### The end of the shell -/

section Ending

variable {s t : St} {f : Frame} {fs : List Frame} {inp : Input}

theorem sigint_ends_iff {pc : KillPc} (running : s.status = .running) (top : s.frames = f :: fs)
    (at_ : f.handler = .sigint pc) (step_ : handlerStep s f fs inp = some t) :
    t.status ≠ .running ↔ Ends s (.shell inp) := by
  by_cases go : inp = .go
  · subst go
    refine iff_of_false (not_not.2 ?_) (by simp only [Ends, top, at_, not_false_eq_true])
    cases pc with
    | look prev =>
        simp only [handlerStep, at_, sigintStep] at step_
        split at step_ <;> cases step_ <;> exact (St.handler_status _ _).trans running
    | leave =>
        simp only [handlerStep, at_, Option.some.injEq] at step_
        rw [← step_]
        exact running
    | _ =>
        simp only [handlerStep, at_, sigintStep, Option.some.injEq] at step_
        rw [← step_]
        exact (St.handler_status _ _).trans running
  · obtain ⟨rfl, rfl⟩ := killStep_fails go (.inl at_) step_
    exact iff_of_true (by rintro ⟨⟩) trivial

theorem sigtstp_ends_iff {pc : KillPc} (tracking : Tracking s) (running : s.status = .running)
    (top : s.frames = f :: fs) (at_ : f.handler = .sigtstp pc)
    (step_ : handlerStep s f fs inp = some t) : t.status ≠ .running ↔ Ends s (.shell inp) := by
  by_cases go : inp = .go
  · subst go
    refine iff_of_false (not_not.2 ?_) (by simp only [Ends, top, at_, not_false_eq_true])
    cases pc with
    | look prev =>
        simp only [handlerStep, at_, sigtstpStep] at step_
        split at step_
        · cases step_
          exact (St.handler_status _ _).trans running
        · rename_i some_
          obtain ⟨i, -, pid⟩ := fgpid_entry some_
          have pos := tracking.wf.nonneg i
          rw [tracking.wf.getjobpid (by omega) pid] at step_
          cases step_
          exact (St.handler_status _ _).trans running
    | leave =>
        simp only [handlerStep, at_, Option.some.injEq] at step_
        rw [← step_]
        exact running
    | _ =>
        simp only [handlerStep, at_, sigtstpStep, Option.some.injEq] at step_
        rw [← step_]
        exact (St.handler_status _ _).trans running
  · obtain ⟨rfl, rfl⟩ := killStep_fails go (.inr at_) step_
    exact iff_of_true (by rintro ⟨⟩) trivial

theorem sigchld_ends_iff {pc : ChldPc} (running : s.status = .running) (top : s.frames = f :: fs)
    (at_ : f.handler = .sigchld pc) (step_ : handlerStep s f fs inp = some t) :
    t.status ≠ .running ↔ Ends s (.shell inp) := by
  by_cases null : ∃ pid sig prev, pc = .handle pid (.stopped sig) prev ∧ inp = .go
  · obtain ⟨pid, sig, prev, rfl, rfl⟩ := null
    have ends : Ends s (.shell .go) ↔ getjobpid s.jobs pid = none := by
      simp only [Ends, top, at_]
    rw [ends]
    simp only [handlerStep, at_, sigchldStep] at step_
    split at step_ <;> rename_i found <;> cases step_
    · rw [found]
      exact iff_of_false (not_not.2 ((St.handler_status _ _).trans running)) (by rintro ⟨⟩)
    · exact iff_of_true (by rintro ⟨⟩) found
  · refine iff_of_false (not_not.2 ?_) fun ends => ?_
    · by_cases leaves : pc = .leave ∧ inp = .go
      · obtain ⟨rfl, rfl⟩ := leaves
        simp only [handlerStep, at_, Option.some.injEq] at step_
        rw [← step_]
        exact running
      · have moved := sigchldStep_of_stays at_ leaves step_
        unfold sigchldStep at moved
        split at moved
        case h_1 =>
            obtain ⟨r, -, rfl⟩ := Option.map_eq_some_iff.1 moved
            exact (St.handler_status _ _).trans running
        case h_2 => split at moved <;> cases moved; exact (St.handler_status _ _).trans running
        case h_6 => exact absurd ⟨_, _, _, rfl, rfl⟩ null
        case h_8 => cases moved
        all_goals cases moved; exact (St.handler_status _ _).trans running
    · cases inp with
      | go =>
          simp only [Ends, top, at_] at ends
          split at ends
          · rename_i same
            cases same
            exact null ⟨_, _, _, rfl, rfl⟩
          · exact ends
      | killFails => cases pc <;> simp [handlerStep, at_, sigchldStep] at step_
      | _ => exact ends

/-- A step that ends the shell settles nothing. -/
theorem owed_ends {w : Watch} {ps : List Int} {rest : List (List Int)} (top : s.frames = f :: fs)
    (owes : w.aims = ps :: rest) (ends : Ends s (.shell inp)) : owed s (.shell inp) w = w.aims := by
  cases inp with
  | go =>
      simp only [Ends, top] at ends
      split at ends
      · rename_i at_
        rw [owed_go top owes, at_, owes]
      · exact ends.elim
  | _ => rfl

/-- The shell's share: it ends with nothing owed. -/
theorem ended_step_iff {w : Watch} {a : Act} (reached : tsh.Reachable s)
    (aimed : Aimed s.frames w.aims) (step_ : step s a = some t) :
    (t.status ≠ .running → ∀ ps ∈ owed s a w, ps = []) ↔ (Ends s a → ∀ ps ∈ w.aims, ps = []) := by
  have running := step_running step_
  cases step_move step_ with
  | arrive sig handled => exact iff_of_true (fun ended => absurd running ended) False.elim
  | quit => exact ⟨fun none_ _ => none_ (by rintro ⟨⟩), fun none_ _ => none_ trivial⟩
  | @deliver sig h pending unblocked entry =>
      refine iff_of_true (fun ended => absurd running ended) ?_
      cases sig <;> cases entry <;> exact False.elim
  | child alive moved => exact iff_of_true (fun ended => absurd running ended) False.elim
  | @main inp _ idle move =>
      have none_ := aims_idle aimed idle
      rw [owed_idle idle none_, none_]
      exact iff_of_true (fun _ ps owes => by cases owes) fun _ ps owes => by cases owes
  | @handler inp _ f fs top move =>
      obtain ⟨ps, rest, owes, -, -⟩ := aims_top aimed top
      rw [step_handler running top] at step_
      have ends : t.status ≠ .running ↔ Ends s (.shell inp) := by
        cases at_ : f.handler with
        | sigint pc => exact sigint_ends_iff running top at_ step_
        | sigtstp pc => exact sigtstp_ends_iff (tracking_reachable reached) running top at_ step_
        | sigchld pc => exact sigchld_ends_iff running top at_ step_
      rw [ends]
      refine imp_congr_right fun over_ => ?_
      rw [owed_ends top owes over_]

end Ending

/-! ### What has been sent -/

/-- What is sent off is in flight. -/
theorem inFlight_sentOff {s t : St} {w : Watch} {a : Act} {x : Int × Signal}
    (sent : x ∈ sentOff s a w) (step_ : step s a = some t) : InFlight t.kern.procs x := by
  unfold sentOff at sent
  split at sent
  · rename_i f fs ps rest top owes
    rw [step_handler (step_running step_) top] at step_
    split at sent
    · rename_i y calls
      split at sent
      · rename_i goes
        cases List.mem_singleton.1 sent
        unfold Handler.killing at calls
        split at calls
        · rename_i at_
          cases calls
          simp only [handlerStep, at_, sigintStep, Option.some.injEq] at step_
          rw [← step_, St.handler_kern]
          exact inFlight_kill goes.2 (by rintro ⟨⟩)
        · rename_i at_
          cases calls
          simp only [handlerStep, at_, sigtstpStep, Option.some.injEq] at step_
          rw [← step_, St.handler_kern]
          exact inFlight_kill goes.2 (by rintro ⟨⟩)
        · cases calls
      · cases sent
    · cases sent
  · cases sent

/-- The children's share: what leaves its flight has been handled. -/
theorem flies_step_iff {s t : St} {w : Watch} {a : Act} (reached : tsh.Reachable s)
    (flies : ∀ x ∈ w.sent, InFlight s.kern.procs x) (step_ : step s a = some t) :
    (∀ x ∈ sentOff s a w ++ w.sent.filter (fun x => !handles s x a), InFlight t.kern.procs x) ↔
      ∀ x ∈ w.sent, Drops s x a → handles s x a = true := by
  have children := childrenOk_reachable reached
  constructor
  · intro still x sent drops
    cases handled : handles s x a with
    | true => rfl
    | false =>
        have kept : x ∈ w.sent.filter fun x => !handles s x a :=
          List.mem_filter.2 ⟨sent, by rw [handled]; rfl⟩
        have flight := still x (List.mem_append_right _ kept)
        exact absurd drops ((inFlight_step_iff children (flies x sent) step_).1 flight)
  · intro handled x there
    rcases List.mem_append.1 there with new | kept
    · exact inFlight_sentOff new step_
    · obtain ⟨sent, unhandled⟩ := List.mem_filter.1 kept
      refine (inFlight_step_iff children (flies x sent) step_).2 fun drops => ?_
      simp [handled x sent drops] at unhandled

/-- **One step.** Where no signal has been lost so far, none is lost by a step exactly
when it hits. -/
theorem aimsOk_step_iff {m m' : St × Watch} {a : Act} (reached : watched.Reachable m)
    (ok : AimsOk m) (step_ : watched.step m a = some m') : AimsOk m' ↔ Hits m a := by
  obtain ⟨stepped, aims, sent⟩ := watched_step step_
  have before := watched_reachable reached
  have aimed_iff := aimed_step_iff before ok.aimed stepped
  have ended_iff := ended_step_iff before ok.aimed stepped
  have flies_iff := flies_step_iff before ok.flies stepped
  rw [← aims] at aimed_iff ended_iff
  rw [← sent] at flies_iff
  constructor
  · exact fun ok' => ⟨aimed_iff.1 ok'.aimed, ended_iff.1 ok'.ended, flies_iff.1 ok'.flies⟩
  · exact fun hits => ⟨aimed_iff.2 hits.finds, ended_iff.2 hits.goesOn, flies_iff.2 hits.handled⟩

theorem aimsOk_start : AimsOk watched.start :=
  ⟨.nil, fun _ _ owes => (by cases owes), fun _ sent => by cases sent⟩

/-- **Ctrl-c and ctrl-z reach the job they are aimed at** throughout a run exactly
when every handler that owes its signal to a fresh job finds that job in the
foreground and its process in a group of its own, nothing ends the shell before
that, and no signal leaves its process but by the started program. -/
theorem aims_along_iff {as : List Act} {final : St × Watch}
    (ran : watched.exec watched.start as = some final) :
    (∀ pre post mid, as = pre ++ post → watched.exec watched.start pre = some mid →
      AimsOk mid) ↔
      ∀ pre a post mid, as = pre ++ a :: post → watched.exec watched.start pre = some mid →
        Hits mid a :=
  Machine.holds_along_iff (M := watched) (P := AimsOk) aimsOk_start
    (fun _ _ _ reached ok step_ => aimsOk_step_iff reached ok step_) ran

/-! ## Ctrl-c between `Fork` and `addjob` -/

/-- SIGINT is delivered when `Fork` has just returned, and `sigint_handler` looks
for a foreground job. -/
def interruptAtFork : List Act :=
  [.shell (.line "a\n".toList), .shell .go, .shell (.forked 2), .arrive .sigint,
    .deliver .sigint, .shell .go, .shell .go]

/-- The handler returns, the job is added and started, `waitfg` suspends. -/
def startAfterInterrupt : List Act :=
  List.replicate 8 (.shell .go) ++ [.child 2 .setpgid, .child 2 .unmask, .child 2 .execve]

theorem interruptAtFork_misses :
    ∃ m, watched.exec watched.start interruptAtFork = some m ∧ ¬ AimsOk m := by
  obtain ⟨m, ran⟩ : ∃ m, watched.exec watched.start interruptAtFork = some m :=
    Option.isSome_iff_exists.1 (by decide +kernel)
  have frames : m.1.frames = [⟨.sigint (.restore {.sigint, .sigchld}), {.sigchld}⟩] :=
    Machine.exec_map ran (f := fun m => m.1.frames) (by decide +kernel)
  have aims : m.2.aims = [[2]] :=
    Machine.exec_map ran (f := fun m => m.2.aims) (by decide +kernel)
  refine ⟨m, ran, fun ok => ?_⟩
  have aimed := ok.aimed
  unfold Aimed at aimed
  rw [frames, aims, List.forall₂_cons] at aimed
  exact absurd aimed.1 (List.cons_ne_nil _ _)

/-- A step of that run does not hit. -/
theorem aims_along_interruptAtFork :
    ¬ ∀ pre a post mid, interruptAtFork = pre ++ a :: post →
      watched.exec watched.start pre = some mid → Hits mid a := by
  obtain ⟨m, ran, misses⟩ := interruptAtFork_misses
  intro hits
  have ok := (aims_along_iff ran).2 hits
  exact misses (ok interruptAtFork [] m (by simp) ran)

/-- **The interrupt is lost**: the handler sends it nowhere, and the job's program
runs with no signal pending, for it or for the shell, and no handler active. -/
theorem interrupt_lost :
    ∃ mid final, watched.exec watched.start interruptAtFork = some mid ∧ ¬ AimsOk mid ∧
      watched.exec mid startAfterInterrupt = some final ∧
      (final.1.kern.procs.lookup 2).map (fun pr => (pr.run, pr.phase, pr.pending)) =
        some (.running, .started, ∅) ∧
      final.1.frames = [] ∧ final.1.kern.pending = ∅ := by
  obtain ⟨mid, ran, misses⟩ := interruptAtFork_misses
  obtain ⟨final, ran'⟩ : ∃ m, watched.exec watched.start
      (interruptAtFork ++ startAfterInterrupt) = some m :=
    Option.isSome_iff_exists.1 (by decide +kernel)
  have job : (final.1.kern.procs.lookup 2).map (fun pr => (pr.run, pr.phase, pr.pending)) =
      some (.running, .started, ∅) :=
    Machine.exec_map ran' (f := fun m =>
      (m.1.kern.procs.lookup 2).map fun pr => (pr.run, pr.phase, pr.pending)) (by decide +kernel)
  refine ⟨mid, final, ran, misses, ?_, job, ?_, ?_⟩
  · rw [Machine.exec_append, ran] at ran'
    exact ran'
  · exact Machine.exec_map ran' (f := fun m => m.1.frames) (by decide +kernel)
  · exact Machine.exec_map ran' (f := fun m => m.1.kern.pending) (by decide +kernel)

end CsappLab.Tsh
