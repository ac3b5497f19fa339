/-
# Tsh.Tracking — the job list follows the children

`Tracking` ties the job list to the children that have not been reaped. Every
listed pid is such a child, except between the `waitpid` that reaped it and the
`deletejob` that follows in `sigchld_handler` (`listed`); what the handler holds
in `curPid` is accordingly a reaped or a live child (`got`); and while `eval` is
between `Fork` and the end of `addjob` its child is alive and not yet listed
(`adding`). The last needs the masks: a `sigchld_handler` there could reap the
child, and none is active because SIGCHLD is blocked.

`Told` is the other half, on the kernel's side: a child with a status to report
has SIGCHLD pending, or a `sigchld_handler` that still has a `waitpid` to make.
-/
import CsappLab.Tsh.Masks

namespace CsappLab.Tsh

set_option autoImplicit false

open CsappLab.Lib

/-- `curPid` of a `sigchld_handler` between the `waitpid` that returned it and
the end of its turn, with the status. -/
def Handler.current : Handler → Option (Int × ChStatus)
  | .sigchld (.got pid status) => some (pid, status)
  | .sigchld (.handle pid status _) => some (pid, status)
  | _ => none

/-- Some active `sigchld_handler` is between `waitpid` and the end of its turn
with the pid and status `c`. -/
def Holds (frames : List Frame) (c : Int × ChStatus) : Prop :=
  ∃ f ∈ frames, f.handler.current = some c

/-- `pid` has been reaped and its job not yet deleted. -/
def Reaped (frames : List Frame) (pid : Int) : Prop :=
  ∃ ending, Holds frames (pid, .ended ending)

/-- A pid that `waitpid` returned is gone if it ended, alive if it stopped. -/
def ChStatus.Fits (procs : Procs) (pid : Int) : ChStatus → Prop
  | .ended _ => pid ∉ procs
  | .stopped _ => pid ∈ procs

/-- What `main` relies on where it is about to write the job list. -/
def Main.AddOk (jobs : Jobs) (procs : Procs) : Main → Prop
  | .addjob _ _ pid => pid ∈ procs ∧ ∀ i, (jobs i).pid ≠ pid
  | .addState _ _ pid i => pid ∈ procs ∧ jobs i = { clearjob with pid := pid }
  | .addJid _ _ pid i => pid ∈ procs ∧ (jobs i).pid = pid
  | .bgfgKill _ i _ => (jobs i).pid ≠ 0 ∧ (jobs i).state = .st
  | .bgfgSet _ i _ => (jobs i).pid ≠ 0
  | _ => True

/-- The job list follows the children. -/
structure Tracking (s : St) : Prop where
  wf : s.jobs.WF
  pids : ∀ p ∈ s.kern.procs, 2 ≤ p
  listed : ∀ i, (s.jobs i).pid ≠ 0 →
    (s.jobs i).pid ∈ s.kern.procs ∨ Reaped s.frames (s.jobs i).pid
  adding : s.main.AddOk s.jobs s.kern.procs
  got : ∀ pid status, Holds s.frames (pid, status) → status.Fits s.kern.procs pid

/-! ## Facts about the two sides -/

theorem Handler.current_sig {h : Handler} {c : Int × ChStatus} (is_ : h.current = some c) :
    h.sig = .sigchld := by
  unfold Handler.current at is_
  split at is_
  · rfl
  · rfl
  · cases is_

theorem ChStatus.Fits.congr {procs procs' : Procs} {pid : Int} {status : ChStatus}
    (alive : ∀ p, p ∈ procs' ↔ p ∈ procs) (fits : status.Fits procs pid) :
    status.Fits procs' pid := by
  cases status with
  | ended ending => exact fun there => fits ((alive pid).1 there)
  | stopped sig => exact (alive pid).2 fits

theorem Main.AddOk.congr {jobs : Jobs} {procs procs' : Procs} {main : Main}
    (alive : ∀ p, p ∈ procs' ↔ p ∈ procs) (ok : main.AddOk jobs procs) :
    main.AddOk jobs procs' := by
  cases main with
  | addjob l prev pid => exact ⟨(alive pid).2 ok.1, ok.2⟩
  | addState l prev pid i => exact ⟨(alive pid).2 ok.1, ok.2⟩
  | addJid l prev pid i => exact ⟨(alive pid).2 ok.1, ok.2⟩
  | bgfgKill cmd i prev => exact ok
  | bgfgSet cmd i prev => exact ok
  | _ => trivial

/-- The pid `eval` has forked and not yet put into the list. -/
def Main.adding : Main → Option Int
  | .addjob _ _ pid | .addState _ _ pid _ | .addJid _ _ pid _ => some pid
  | _ => none

theorem MasksOk.not_sigchld {s : St} (ok : MasksOk ∅ s) {pid : Int}
    (adding : s.main.adding = some pid) : ∀ f ∈ s.frames, f.handler.sig ≠ .sigchld := by
  apply ok.no_handler
  unfold Main.adding at adding
  split at adding
  · rename_i at_; rw [at_]; exact Finset.mem_insert_self _ _
  · rename_i at_; rw [at_]; exact Finset.mem_insert_self _ _
  · rename_i at_; rw [at_]; exact Finset.mem_insert_self _ _
  · cases adding

/-- The slot that `getjobpid` finds for `fgpid` is one in state `FG`. -/
theorem Jobs.WF.fg_slot {jobs : Jobs} (wf : jobs.WF) {i : Fin MAXJOBS} (some_ : fgpid jobs ≠ 0)
    (found : Tsh.getjobpid jobs (fgpid jobs) = some i) : (jobs i).state = .fg := by
  obtain ⟨k, isFg, pid⟩ := fgpid_entry some_
  have same := (getjobpid_eq_some found).2
  have : k = i := wf.distinct k i (by omega) (by omega)
  exact this ▸ isFg

/-- What `deletejob` leaves: the entries of all other pids. -/
theorem deletejob_entry {t : JobList} (wf : t.jobs.WF) {pid : Int} {j : Fin MAXJOBS}
    (entry : ((deletejob t pid).2.jobs j).pid ≠ 0) :
    (deletejob t pid).2.jobs j = t.jobs j ∧ (t.jobs j).pid ≠ pid := by
  rcases deletejob_cases t pid with ⟨none_, eq⟩ | ⟨i, found, eq⟩ <;>
    simp only [eq] at entry ⊢
  · refine ⟨trivial, fun same => ?_⟩
    have pos : 1 ≤ pid := by
      have := wf.nonneg j
      omega
    rw [wf.getjobpid pos same] at none_
    cases none_
  · have ne : j ≠ i := by
      rintro rfl
      simp [clearjob] at entry
    refine ⟨by simp [ne], fun same => ne ?_⟩
    have pids := (getjobpid_eq_some found)
    exact wf.distinct j i (by omega) (by omega)

/-- The entries of other pids stay. -/
theorem deletejob_other {t : JobList} {pid : Int} {j : Fin MAXJOBS}
    (other : (t.jobs j).pid ≠ pid) : (deletejob t pid).2.jobs j = t.jobs j := by
  rcases deletejob_cases t pid with ⟨-, eq⟩ | ⟨i, found, eq⟩
  · rw [eq]
  · have ne : j ≠ i := by
      rintro rfl
      exact other (getjobpid_eq_some found).2
    rw [eq]
    exact Function.update_of_ne ne _ _

/-- An entry in use after `deletejob` was there before. -/
theorem deletejob_live {t : JobList} (wf : t.jobs.WF) {pid : Int} {j : Fin MAXJOBS}
    (live : ((deletejob t pid).2.jobs j).state ≠ .undef) :
    (deletejob t pid).2.jobs j = t.jobs j := by
  have occupied := (wf_deletejob wf pid).occupied live
  exact (deletejob_entry wf (by omega)).1

theorem holds_nil (c : Int × ChStatus) : ¬ Holds [] c := by
  rintro ⟨f, active, -⟩
  cases active

theorem holds_cons {f : Frame} {fs : List Frame} {c : Int × ChStatus} :
    Holds (f :: fs) c ↔ f.handler.current = some c ∨ Holds fs c := by
  simp [Holds]

/-- With no handler active nothing is held. -/
theorem not_holds_of_idle {s : St} (idle : s.frames = []) (c : Int × ChStatus) :
    ¬ Holds s.frames c := by
  rw [idle]
  exact holds_nil c

/-- The handler on top goes on with what it holds. -/
theorem holds_moved {s : St} {f : Frame} {fs : List Frame} (top : s.frames = f :: fs)
    {h : Handler} (same : h.current = f.handler.current) (c : Int × ChStatus) :
    Holds ({ f with handler := h } :: fs) c ↔ Holds s.frames c := by
  rw [top, holds_cons, holds_cons, same]

/-- Below a `sigchld_handler` no other one holds anything. -/
theorem MasksOk.holds_top {s : St} {f : Frame} {fs : List Frame} (ok : MasksOk ∅ s)
    (top : s.frames = f :: fs) (isChld : f.handler.sig = .sigchld) (c : Int × ChStatus) :
    ¬ Holds fs c := by
  rintro ⟨g, active, is_⟩
  exact ok.no_other top g active (isChld ▸ Handler.current_sig is_)

/-- So what is held is what the `sigchld_handler` on top holds. -/
theorem MasksOk.holds_iff {s : St} {f : Frame} {fs : List Frame} (ok : MasksOk ∅ s)
    (top : s.frames = f :: fs) (isChld : f.handler.sig = .sigchld) {h : Handler}
    {c : Int × ChStatus} : Holds ({ f with handler := h } :: fs) c ↔ h.current = some c := by
  rw [holds_cons]
  exact or_iff_left (ok.holds_top top isChld c)

theorem MasksOk.holds_frames {s : St} {f : Frame} {fs : List Frame} (ok : MasksOk ∅ s)
    (top : s.frames = f :: fs) (isChld : f.handler.sig = .sigchld) {c : Int × ChStatus} :
    Holds s.frames c ↔ f.handler.current = some c := by
  rw [top]
  exact ok.holds_iff top isChld (h := f.handler)

theorem HandlerCtl.current {s : St} {h h' : Handler} {mask : SigSet}
    (ctl : HandlerCtl s h h' mask) : h'.current = h.current := by
  cases ctl <;> rfl

theorem Handler.Leaves.current {h : Handler} (leaves : h.Leaves) : h.current = none := by
  rcases leaves.cases with rfl | rfl | rfl <;> rfl

/-- What one call of `waitpid` can do. -/
theorem Kern.waitpid_cases {k k' : Kern} {pid : Int} {status : ChStatus}
    (reported : k.waitpid pid = some (status, k')) :
    ∃ pr, k.procs.lookup pid = some pr ∧
      ((∃ ending, pr.run = .zombie ending ∧ status = .ended ending ∧
          k' = { k with procs := k.procs.erase pid }) ∨
        ∃ sig, pr.run = .stopped sig false ∧ status = .stopped sig ∧
          k' = k.put pid { pr with run := .stopped sig true }) := by
  unfold Kern.waitpid at reported
  split at reported
  · cases reported
  · rename_i pr found
    refine ⟨pr, found, ?_⟩
    split at reported <;> cases reported
    · rename_i zombie
      exact Or.inl ⟨_, zombie, rfl, rfl⟩
    · rename_i stopped
      exact Or.inr ⟨_, stopped, rfl, rfl⟩

/-- The children after a call of `waitpid`: the ones before it, but the one it
reported is stopped or gone. -/
theorem Kern.waitpid_lookup {k k' : Kern} {pid p : Int} {status : ChStatus} {pr' : Proc}
    (reported : k.waitpid pid = some (status, k')) (found : k'.procs.lookup p = some pr') :
    (p ≠ pid ∧ k.procs.lookup p = some pr') ∨
      (p = pid ∧ ∃ sig, status = .stopped sig ∧ pr'.run = .stopped sig true) := by
  obtain ⟨pr, -, ⟨ending, -, -, rfl⟩ | ⟨sig, -, isStopped, rfl⟩⟩ := Kern.waitpid_cases reported
  · exact Or.inl (lookup_erase_cases found)
  · rcases lookup_insert_cases found with ⟨rfl, rfl⟩ | there
    · exact Or.inr ⟨rfl, sig, isStopped, rfl⟩
    · exact Or.inl there

/-- A job found by its id occupies its slot. -/
theorem Jobs.WF.jid_occupied {jobs : Jobs} (wf : jobs.WF) {jid : Int} {i : Fin MAXJOBS}
    (found : getjobjid jobs jid = some i) : (jobs i).pid ≠ 0 := by
  intro free
  obtain ⟨pos, same⟩ := getjobjid_eq_some found
  rw [wf.free i free] at same
  simp only [clearjob] at same
  omega

/-- A listed job that no handler is about to delete has its child. -/
theorem Tracking.child {s : St} (ok : Tracking s) (none_ : ∀ c, ¬ Holds s.frames c)
    {i : Fin MAXJOBS} (occupied : (s.jobs i).pid ≠ 0) : (s.jobs i).pid ∈ s.kern.procs := by
  rcases ok.listed i occupied with there | ⟨ending, holds⟩
  · exact there
  · exact absurd holds (none_ _)

/-! ## Every step keeps `Tracking` -/

/-- A step that neither reaps nor changes what is held, nor the pid of a slot. -/
theorem Tracking.samePids {s t : St} (ok : Tracking s) (wf : t.jobs.WF)
    (pids : ∀ i, (t.jobs i).pid = (s.jobs i).pid)
    (alive : ∀ p, p ∈ t.kern.procs ↔ p ∈ s.kern.procs)
    (held : ∀ c, Holds t.frames c ↔ Holds s.frames c)
    (adding : t.main.AddOk t.jobs t.kern.procs) : Tracking t where
  wf := wf
  pids p there := ok.pids p ((alive p).1 there)
  listed i occupied := by
    rw [pids] at occupied ⊢
    rcases ok.listed i occupied with there | ⟨ending, holds⟩
    · exact Or.inl ((alive _).2 there)
    · exact Or.inr ⟨ending, (held _).2 holds⟩
  adding := adding
  got pid status holds := (ok.got pid status ((held _).1 holds)).congr alive

/-- The list is not written. -/
theorem Tracking.keep {s t : St} (ok : Tracking s) (list : t.jobs = s.jobs)
    (alive : ∀ p, p ∈ t.kern.procs ↔ p ∈ s.kern.procs)
    (held : ∀ c, Holds t.frames c ↔ Holds s.frames c)
    (adding : t.main.AddOk t.jobs t.kern.procs) : Tracking t :=
  ok.samePids (list ▸ ok.wf) (fun i => by rw [list]) alive held adding

/-- Only the list is written. -/
theorem Tracking.rewrite {s t : St} (ok : Tracking s) (frames : t.frames = s.frames)
    (kern : t.kern = s.kern) (pids : ∀ i, (t.jobs i).pid = (s.jobs i).pid) (wf : t.jobs.WF)
    (adding : t.main.AddOk t.jobs t.kern.procs) : Tracking t :=
  ok.samePids wf pids (fun p => by rw [kern]) (fun c => by rw [frames]) adding

theorem addOk_mainCtl {s : St} {pc : Main} {mask : SigSet} (ok : Tracking s)
    (ctl : MainCtl s pc mask) : pc.AddOk s.jobs s.kern.procs := by
  cases ctl with
  | dispatch at_ fresh =>
      rcases fresh.cases with rfl | rfl | ⟨cmd, arg, rfl⟩ | ⟨l, rfl⟩ <;> trivial
  | bgfgStopped at_ found stopped => exact ⟨ok.wf.jid_occupied found, stopped⟩
  | bgfgRunning at_ found running => exact ok.wf.jid_occupied found
  | _ => trivial

theorem storeJid_pid (l : JobList) (i j : Fin MAXJOBS) (cmdline : List Char) :
    ((l.storeJid i cmdline).jobs j).pid = (l.jobs j).pid := by
  unfold JobList.storeJid
  by_cases same : j = i
  · subst same; simp
  · simp [same]

theorem storeJid_state (l : JobList) (i j : Fin MAXJOBS) (cmdline : List Char) :
    ((l.storeJid i cmdline).jobs j).state = (l.jobs j).state := by
  unfold JobList.storeJid
  by_cases same : j = i
  · subst same; simp
  · simp [same]

theorem setState_pid (jobs : Jobs) (i j : Fin MAXJOBS) (state : JobState) :
    (setState jobs i state j).pid = (jobs j).pid := by
  unfold setState
  by_cases same : j = i
  · subst same; simp
  · simp [same]

theorem setState_st {jobs : Jobs} {k i : Fin MAXJOBS} :
    (setState jobs k .st i).state = .st ↔ i = k ∨ (jobs i).state = .st := by
  by_cases here : i = k
  · subst here; simp [setState]
  · simp [setState, here]

theorem tracking_main {s t : St} {inp : Input} (ok : Tracking s) (idle : s.frames = [])
    (move : MainMove s inp t) : Tracking t := by
  have adding := ok.adding
  have noneHeld := not_holds_of_idle idle
  cases move with
  | halt status => exact ok.keep rfl (fun _ => Iff.rfl) (fun _ => Iff.rfl) adding
  | ctl out ctl =>
      have pcOk := addOk_mainCtl ok ctl
      exact ok.keep rfl (fun _ => Iff.rfl) (fun _ => Iff.rfl) pcOk
  | @fork l prev pid at_ returned pos fresh =>
      have unlisted : ∀ i, (s.jobs i).pid ≠ pid := by
        intro i same
        exact fresh (same ▸ ok.child noneHeld (by omega))
      refine ⟨ok.wf, fun p there => ?_, fun i occupied => ?_, ?_,
        fun p status holds => absurd holds (noneHeld _)⟩
      · rcases AList.mem_insert _ |>.1 there with rfl | old
        · exact pos
        · exact ok.pids p old
      · rcases ok.listed i occupied with there | reaped
        · exact Or.inl ((AList.mem_insert _).2 (Or.inr there))
        · exact Or.inr reaped
      · exact ⟨(AList.mem_insert _).2 (Or.inl rfl), unlisted⟩
  | @storePid l prev pid i at_ free =>
      rw [at_] at adding
      obtain ⟨there, unlisted⟩ := adding
      have pos := ok.pids pid there
      have clear := ok.wf.free i (freeSlot_eq_some free)
      refine ⟨ok.wf.store (by simp only; omega) unlisted, ok.pids, fun j occupied => ?_, ?_,
        fun p status holds => absurd holds (noneHeld _)⟩
      · by_cases same : j = i
        · subst same
          simp only [St.jobs, JobList.storePid, Function.update_self]
          exact Or.inl there
        · simp only [St.jobs, JobList.storePid, Function.update_of_ne same] at occupied ⊢
          exact ok.listed j occupied
      · refine ⟨there, ?_⟩
        simp only [St.jobs, JobList.storePid, Function.update_self]
        rw [show s.list.jobs i = clearjob from clear]
  | @storeState l prev pid i at_ =>
      rw [at_] at adding
      obtain ⟨there, clear⟩ := adding
      have pos := ok.pids pid there
      have same : (s.jobs i).pid = pid := by rw [clear]
      refine ok.rewrite rfl rfl (fun j => setState_pid _ _ _ _)
        (ok.wf.setState (by omega) _) ⟨there, ?_⟩
      rw [show (St.jobs _ i).pid = (s.jobs i).pid from setState_pid _ _ _ _, same]
  | @storeJid l prev pid i at_ =>
      rw [at_] at adding
      obtain ⟨there, same⟩ := adding
      have pos := ok.pids pid there
      exact ok.rewrite rfl rfl (fun j => storeJid_pid _ _ _ _) (ok.wf.update rfl (by omega))
        trivial
  | kill at_ sent =>
      rw [at_] at adding
      exact ok.keep rfl (Kern.evolves_kill _ _ fun _ => trivial).alive (fun _ => Iff.rfl)
        adding.1
  | setFg at_ =>
      rw [at_] at adding
      exact ok.rewrite rfl rfl (fun j => setState_pid _ _ _ _) (ok.wf.setState adding _)
        trivial
  | setBg at_ out =>
      rw [at_] at adding
      exact ok.rewrite rfl rfl (fun j => setState_pid _ _ _ _) (ok.wf.setState adding _)
        trivial

/-- Where `main` relies on the list, no handler that reaps can be active. -/
theorem MasksOk.addOk_chld {s : St} {f : Frame} {fs : List Frame} (ok : MasksOk ∅ s)
    (top : s.frames = f :: fs) (isChld : f.handler.sig = .sigchld) (jobs : Jobs)
    (procs : Procs) : s.main.AddOk jobs procs := by
  have active : f ∈ s.frames := by simp [top]
  have busy : s.main.openMask ∅ ≠ Finset.univ := by
    intro full
    rw [ok.frames_nil full] at top
    cases top
  cases at_ : s.main with
  | addjob l prev pid => exact absurd isChld (ok.not_sigchld (by rw [at_]; rfl) f active)
  | addState l prev pid i => exact absurd isChld (ok.not_sigchld (by rw [at_]; rfl) f active)
  | addJid l prev pid i => exact absurd isChld (ok.not_sigchld (by rw [at_]; rfl) f active)
  | bgfgKill cmd i prev => rw [at_] at busy; exact absurd rfl busy
  | bgfgSet cmd i prev => rw [at_] at busy; exact absurd rfl busy
  | _ => trivial

/-- Setting a foreground job to `ST` does not touch a slot `addjob` is filling. -/
theorem Main.AddOk.stopFg {jobs : Jobs} {procs : Procs} {main : Main} {i : Fin MAXJOBS}
    (ok : main.AddOk jobs procs) (isFg : (jobs i).state = .fg) :
    main.AddOk (setState jobs i .st) procs := by
  cases main with
  | addjob l prev pid => exact ⟨ok.1, fun j => by rw [setState_pid]; exact ok.2 j⟩
  | addState l prev pid j =>
      have ne : j ≠ i := by
        rintro rfl
        rw [ok.2] at isFg
        cases isFg
      exact ⟨ok.1, by simp only [setState, Function.update_of_ne ne]; exact ok.2⟩
  | addJid l prev pid j => exact ⟨ok.1, by rw [setState_pid]; exact ok.2⟩
  | bgfgKill cmd j prev =>
      refine ⟨by rw [setState_pid]; exact ok.1, ?_⟩
      by_cases same : j = i
      · subst same; simp [setState]
      · simp only [setState, Function.update_of_ne same]; exact ok.2
  | bgfgSet cmd j prev => exact fun free => ok (by rw [← free, setState_pid])
  | _ => trivial

theorem tracking_handler {s t : St} {f : Frame} {fs : List Frame} {inp : Input} (ok : Tracking s)
    (masks : MasksOk ∅ s) (top : s.frames = f :: fs) (move : HandlerMove s f fs inp t) :
    Tracking t := by
  have adding := ok.adding
  cases move with
  | halt status => exact ok.keep rfl (fun _ => Iff.rfl) (fun _ => Iff.rfl) adding
  | ctl ctl => exact ok.keep rfl (fun _ => Iff.rfl) (holds_moved top ctl.current) adding
  | @intKill prev pid at_ sent =>
      have evolves : s.kern.Evolves False (s.kern.kill pid .sigint) :=
        Kern.evolves_kill _ _ (by rintro ⟨⟩)
      exact ok.keep rfl evolves.alive (holds_moved top (by rw [at_]; rfl))
        (adding.congr evolves.alive)
  | @tstpSet prev i at_ some_ found =>
      have isFg := ok.wf.fg_slot some_ found
      have occupied := (getjobpid_eq_some found).2
      exact ok.samePids (ok.wf.setState (by omega) _) (fun j => setState_pid _ _ _ _)
        (fun _ => Iff.rfl) (holds_moved top (by rw [at_]; rfl)) (adding.stopFg isFg)
  | @tstpKill prev pid at_ sent =>
      have evolves : s.kern.Evolves False (s.kern.kill pid .sigtstp) :=
        Kern.evolves_kill _ _ (by rintro ⟨⟩)
      exact ok.keep rfl evolves.alive (holds_moved top (by rw [at_]; rfl))
        (adding.congr evolves.alive)
  | @waitpid pid status k at_ reported =>
      have isChld : f.handler.sig = .sigchld := by rw [at_]; rfl
      have noneHeld : ∀ c, ¬ Holds s.frames c := by
        intro c holds
        rw [masks.holds_frames top isChld, at_] at holds
        cases holds
      have held : ∀ {c}, Holds ({ f with handler := .sigchld (.got pid status) } :: fs) c →
          some (pid, status) = some c :=
        (masks.holds_iff top isChld).1
      obtain ⟨pr, found, ⟨ending, -, rfl, rfl⟩ | ⟨sig, stopped, rfl, rfl⟩⟩ :=
        Kern.waitpid_cases reported
      · refine ⟨ok.wf, fun p there => ok.pids p (AList.mem_erase.1 there).2, fun i occ => ?_,
          masks.addOk_chld top isChld _ _, fun p status holds => ?_⟩
        · by_cases same : (s.jobs i).pid = pid
          · exact Or.inr ⟨ending, holds_cons.2 (Or.inl (by rw [same]; rfl))⟩
          · exact Or.inl (AList.mem_erase.2 ⟨same, ok.child noneHeld occ⟩)
        · cases held holds
          exact fun still => (AList.mem_erase.1 still).1 rfl
      · have alive : ∀ p, p ∈ (s.kern.put pid { pr with run := .stopped sig true }).procs ↔
            p ∈ s.kern.procs :=
          mem_insert_of_lookup found _
        refine ⟨ok.wf, fun p there => ok.pids p ((alive p).1 there), fun i occ => ?_,
          masks.addOk_chld top isChld _ _, fun p status holds => ?_⟩
        · exact Or.inl ((alive _).2 (ok.child noneHeld occ))
        · cases held holds
          exact (alive _).2 (mem_of_lookup found)
  | @delete pid ending prev at_ out =>
      have isChld : f.handler.sig = .sigchld := by rw [at_]; rfl
      refine ⟨wf_deletejob ok.wf pid, ok.pids, fun i occ => ?_,
        masks.addOk_chld top isChld _ _, fun p status holds => ?_⟩
      · obtain ⟨same, ne⟩ := deletejob_entry ok.wf occ
        rw [show St.jobs _ i = s.jobs i from same] at occ ⊢
        rcases ok.listed i occ with there | ⟨ending, holds⟩
        · exact Or.inl there
        · rw [masks.holds_frames top isChld, at_] at holds
          cases holds
          exact absurd rfl ne
      · cases (masks.holds_iff top isChld).1 holds
  | @stop pid sig prev i at_ found out =>
      have isChld : f.handler.sig = .sigchld := by rw [at_]; rfl
      have occupied := getjobpid_eq_some found
      refine ⟨ok.wf.setState (by omega) _, ok.pids, fun j occ => ?_,
        masks.addOk_chld top isChld _ _, fun p status holds => ?_⟩
      · rw [show (St.jobs _ j).pid = (s.jobs j).pid from setState_pid _ _ _ _] at occ ⊢
        rcases ok.listed j occ with there | ⟨ending, holds⟩
        · exact Or.inl there
        · rw [masks.holds_frames top isChld, at_] at holds
          cases holds
      · cases (masks.holds_iff top isChld).1 holds
  | pop leaves =>
      refine ok.keep rfl (fun _ => Iff.rfl) (fun c => ?_) adding
      simp [top, holds_cons, leaves.current]

/-- Where `main` goes on when it is interrupted: where it was, or out of
`sigsuspend`. -/
theorem interrupted_cases (s : St) : (interrupted s).2 = s.main ∨
    ∃ pid prev orig ret, s.main = .waitfg pid (.suspended prev orig) ret ∧
      (interrupted s).2 = .waitfg pid (.resumed prev) ret := by
  unfold interrupted
  split
  · rename_i at_
    exact Or.inr ⟨_, _, _, _, at_, rfl⟩
  · exact Or.inl rfl

theorem entryPoint_current {sig : Signal} {h : Handler} (entry : entryPoint sig = some h) :
    h.current = none := by
  cases sig <;> cases entry <;> rfl

/-- **Every step keeps `Tracking`.** -/
theorem tracking_step {s t : St} {a : Act} (ok : Tracking s) (masks : MasksOk ∅ s)
    (step_ : step s a = some t) : Tracking t := by
  cases step_move step_ with
  | arrive sig handled => exact ok.keep rfl (fun _ => Iff.rfl) (fun _ => Iff.rfl) ok.adding
  | quit => exact ok.keep rfl (fun _ => Iff.rfl) (fun _ => Iff.rfl) ok.adding
  | deliver pending unblocked entry =>
      refine ok.keep rfl (fun _ => Iff.rfl) (fun c => ?_) ?_
      · simp [holds_cons, entryPoint_current entry]
      · show (interrupted s).2.AddOk s.jobs s.kern.procs
        rcases interrupted_cases s with same | ⟨pid, prev, orig, ret, -, resumed⟩
        · rw [same]; exact ok.adding
        · rw [resumed]; trivial
  | child alive moved =>
      have same := (Kern.evolves_child alive moved).alive
      exact ok.keep rfl same (fun _ => Iff.rfl) (ok.adding.congr same)
  | main idle move => exact tracking_main ok idle move
  | handler top move => exact tracking_handler ok masks top move

theorem tracking_start : Tracking .start where
  wf := Jobs.WF.initjobs
  pids p there := absurd there (AList.notMem_empty p)
  listed _ occupied := absurd rfl occupied
  adding := trivial
  got _ _ holds := absurd holds (holds_nil _)

theorem tracking_reachable {s : St} (reached : tsh.Reachable s) : Tracking s :=
  Machine.invariant (P := Tracking) tracking_start
    (fun _ _ _ before ok _ step_ => tracking_step ok (masksOk_reachable before) step_) reached

/-! ## No status is lost -/

/-- A `sigchld_handler` that has not yet made its last `waitpid` call. -/
def Handler.WillWait : Handler → Prop
  | .sigchld .leave => False
  | .sigchld _ => True
  | _ => False

theorem Handler.Leaves.not_willWait {h : Handler} (leaves : h.Leaves) : ¬ h.WillWait := by
  rcases leaves.cases with rfl | rfl | rfl <;> exact id

/-- A child with a status to report will be asked for it. -/
def Told (s : St) : Prop :=
  ∀ p pr, s.kern.procs.lookup p = some pr → pr.unreported = true →
    .sigchld ∈ s.kern.pending ∨ ∃ f ∈ s.frames, f.handler.WillWait

/-- No status is new, and what would ask for one still does. -/
theorem Told.keep {s t : St} (told : Told s)
    (new : ∀ p pr, t.kern.procs.lookup p = some pr → pr.unreported = true →
      .sigchld ∈ t.kern.pending ∨
        ∃ q pr, s.kern.procs.lookup q = some pr ∧ pr.unreported = true)
    (asks : (.sigchld ∈ s.kern.pending ∨ ∃ f ∈ s.frames, f.handler.WillWait) →
      .sigchld ∈ t.kern.pending ∨ ∃ f ∈ t.frames, f.handler.WillWait) : Told t := by
  intro p pr found unreported
  rcases new p pr found unreported with pending | ⟨q, pr', found', unreported'⟩
  · exact Or.inl pending
  · exact asks (told q pr' found' unreported')

theorem told_kernel {s t : St} {cont : Prop} (told : Told s) (evolves : s.kern.Evolves cont t.kern)
    (frames : (∃ f ∈ s.frames, f.handler.WillWait) → ∃ f ∈ t.frames, f.handler.WillWait) :
    Told t := by
  refine told.keep (fun p pr found unreported => ?_) ?_
  · rcases evolves.unreported found unreported with pending | ⟨pr', found', unreported'⟩
    · exact Or.inl pending
    · exact Or.inr ⟨p, pr', found', unreported'⟩
  · rintro (pending | active)
    · exact Or.inl (evolves.pending pending)
    · exact Or.inr (frames active)

theorem nothingToReport_lookup {k : Kern} (nothing : k.nothingToReport = true) {p : Int}
    {pr : Proc} (found : k.procs.lookup p = some pr) : pr.unreported = false := by
  have all := List.all_eq_true.1 nothing ⟨p, pr⟩ (AList.mem_lookup_iff.1 found)
  simpa using all

theorem told_main {s t : St} {inp : Input} (told : Told s) (move : MainMove s inp t) : Told t := by
  have same : ∀ {u : St}, u.kern = s.kern → u.frames = s.frames → Told u := by
    intro u kern frames p pr found unreported
    rw [kern] at found
    rw [kern, frames]
    exact told p pr found unreported
  cases move with
  | halt status => exact same rfl rfl
  | ctl out ctl => exact same rfl rfl
  | @fork l prev pid at_ returned pos fresh =>
      intro p pr found unreported
      rcases lookup_insert_cases found with ⟨-, rfl⟩ | ⟨-, there⟩
      · cases unreported
      · exact told p pr there unreported
  | storePid at_ free => exact same rfl rfl
  | storeState at_ => exact same rfl rfl
  | storeJid at_ => exact same rfl rfl
  | kill at_ sent => exact told_kernel told (Kern.evolves_kill _ _ fun _ => trivial) id
  | setFg at_ => exact same rfl rfl
  | setBg at_ out => exact same rfl rfl

theorem told_handler {s t : St} {f : Frame} {fs : List Frame} {inp : Input} (told : Told s)
    (top : s.frames = f :: fs) (move : HandlerMove s f fs inp t) : Told t := by
  have moved : ∀ {h : Handler}, (f.handler.WillWait → h.WillWait) →
      (∃ g ∈ s.frames, g.handler.WillWait) →
      ∃ g ∈ ({ f with handler := h } :: fs : List Frame), g.handler.WillWait := by
    rintro h onward ⟨g, active, waits⟩
    rw [top] at active
    rcases List.mem_cons.1 active with rfl | below
    · exact ⟨_, List.mem_cons_self, onward waits⟩
    · exact ⟨g, List.mem_cons_of_mem _ below, waits⟩
  cases move with
  | halt status => exact told
  | @ctl h mask ctl =>
      by_cases nothing : s.kern.nothingToReport = true
      · intro p pr found unreported
        rw [nothingToReport_lookup nothing found] at unreported
        cases unreported
      · refine told.keep (fun p pr found unreported => Or.inr ⟨p, pr, found, unreported⟩)
          (Or.imp_right (moved ?_))
        generalize f.handler = h' at ctl
        cases ctl with
        | chldNothing nothing' => exact absurd nothing' nothing
        | chldGot => exact id
        | chldRestore => exact id
        | _ => exact False.elim
  | @intKill prev pid at_ sent =>
      have evolves : s.kern.Evolves False (s.kern.kill pid .sigint) :=
        Kern.evolves_kill _ _ (by rintro ⟨⟩)
      refine told_kernel told evolves (moved ?_)
      rw [at_]
      exact False.elim
  | tstpSet at_ some_ found =>
      refine told.keep (fun p pr found unreported => Or.inr ⟨p, pr, found, unreported⟩)
        (Or.imp_right (moved ?_))
      rw [at_]
      exact False.elim
  | @tstpKill prev pid at_ sent =>
      have evolves : s.kern.Evolves False (s.kern.kill pid .sigtstp) :=
        Kern.evolves_kill _ _ (by rintro ⟨⟩)
      refine told_kernel told evolves (moved ?_)
      rw [at_]
      exact False.elim
  | waitpid at_ reported =>
      exact fun _ _ _ _ => Or.inr ⟨_, List.mem_cons_self, trivial⟩
  | delete at_ out => exact fun _ _ _ _ => Or.inr ⟨_, List.mem_cons_self, trivial⟩
  | stop at_ found out => exact fun _ _ _ _ => Or.inr ⟨_, List.mem_cons_self, trivial⟩
  | pop leaves =>
      refine told.keep (fun p pr found unreported => Or.inr ⟨p, pr, found, unreported⟩)
        (Or.imp_right ?_)
      rintro ⟨g, active, waits⟩
      rw [top] at active
      rcases List.mem_cons.1 active with rfl | below
      · exact absurd waits leaves.not_willWait
      · exact ⟨g, below, waits⟩

/-- **Every step keeps `Told`.** -/
theorem told_step {s t : St} {a : Act} (told : Told s) (step_ : step s a = some t) : Told t := by
  cases step_move step_ with
  | arrive sig handled =>
      exact told.keep (fun p pr found unreported => Or.inr ⟨p, pr, found, unreported⟩)
        (Or.imp_left (Finset.mem_insert_of_mem ·))
  | quit => exact told
  | @deliver sig h pending unblocked entry =>
      refine told.keep (fun p pr found unreported => Or.inr ⟨p, pr, found, unreported⟩) ?_
      rintro (isPending | ⟨g, active, waits⟩)
      · by_cases isChld : sig = .sigchld
        · subst isChld
          cases entry
          exact Or.inr ⟨_, List.mem_cons_self, trivial⟩
        · exact Or.inl (Finset.mem_erase.2 ⟨Ne.symm isChld, isPending⟩)
      · exact Or.inr ⟨g, List.mem_cons_of_mem _ active, waits⟩
  | child alive moved => exact told_kernel told (Kern.evolves_child alive moved) id
  | main idle move => exact told_main told move
  | handler top move => exact told_handler told top move

theorem told_reachable {s : St} (reached : tsh.Reachable s) : Told s :=
  Machine.invariant (P := Told) (fun p pr found => by cases found)
    (fun _ _ _ _ told _ step_ => told_step told step_) reached

end CsappLab.Tsh
