/-
# Tsh.Jobs — the job list of the shell

`struct job_t jobs[MAXJOBS]` and the helper routines that manipulate it, as
`tsh.c` writes them: six scans over the sixteen slots, each by its own field.
A slot is free when its `pid` is 0; nothing else marks it, so `maxjid`, `fgpid`
and `getjobjid` read free slots too and rely on `clearjob` having zeroed them.

A scan that stops at the first match is `Fin.find?`; its two lemmas in Batteries
(`find?_eq_some_iff`, `find?_eq_none_iff`) are the only facts about loops used
here. `Jobs.WF` is the representation invariant: free slots are entirely clear
and two occupied slots never share a pid. Every writer of the list keeps it
(`wf_addjob`, `wf_deletejob`, `Jobs.WF.setState`).

The three stores of `addjob` are named (`storePid`, `storeState`, `storeJid`),
because two of the shell's handlers may run between them (`Tsh.Shell`).

Job ids are `int`s. `nextjid++` and `maxjid(jobs)+1` overflow at the largest one,
which C leaves undefined; here they wrap (`narrowInt`).
-/
import CsappLab.Lib.CString
import Mathlib.Data.Fin.Tuple.Basic

namespace CsappLab.Tsh

set_option autoImplicit false

open CsappLab.Lib

/-- `MAXJOBS`: max jobs at any point in time. -/
abbrev MAXJOBS : Nat := 16

/-- `MAXJID`: max job ID, written `1<<16` in the source. -/
abbrev MAXJID : Int := 65536

/-- The job states `UNDEF`, `FG`, `BG` and `ST`. -/
inductive JobState where
  | undef
  | fg
  | bg
  | st
  deriving DecidableEq, Repr

/-- `struct job_t`. `cmdline` is the C string the slot's buffer holds. -/
structure Job where
  pid : Int
  jid : Int
  state : JobState
  cmdline : List Char
  deriving DecidableEq, Repr

/-- The job list: one entry per slot. -/
abbrev Jobs : Type := Fin MAXJOBS → Job

/-- `clearjob`: clear the entries in a job struct. -/
def clearjob : Job := ⟨0, 0, .undef, []⟩

/-- `initjobs`: every slot cleared. -/
def initjobs : Jobs := fun _ => clearjob

/-- `maxjid`: the largest allocated job ID. -/
def maxjid (jobs : Jobs) : Int :=
  Fin.foldl MAXJOBS (fun max i => if (jobs i).jid > max then (jobs i).jid else max) 0

/-- The slot `addjob` takes: the first one whose pid is 0. -/
def freeSlot (jobs : Jobs) : Option (Fin MAXJOBS) :=
  Fin.find? fun i => (jobs i).pid == 0

/-- `fgpid`: the pid of the current foreground job, 0 if there is none. -/
def fgpid (jobs : Jobs) : Int :=
  match Fin.find? fun i => (jobs i).state == .fg with
  | some i => (jobs i).pid
  | none => 0

/-- `getjobpid`: find a job by pid. `none` is the null pointer. -/
def getjobpid (jobs : Jobs) (pid : Int) : Option (Fin MAXJOBS) :=
  if pid < 1 then none else Fin.find? fun i => (jobs i).pid == pid

/-- `getjobjid`: find a job by job ID. -/
def getjobjid (jobs : Jobs) (jid : Int) : Option (Fin MAXJOBS) :=
  if jid < 1 then none else Fin.find? fun i => (jobs i).jid == jid

/-- `pid2jid`: map process ID to job ID, 0 when the pid is not listed. -/
def pid2jid (jobs : Jobs) (pid : Int) : Int :=
  if pid < 1 then 0
  else
    match Fin.find? fun i => (jobs i).pid == pid with
    | some i => (jobs i).jid
    | none => 0

/-- `job->state = state` on one slot. -/
def setState (jobs : Jobs) (i : Fin MAXJOBS) (state : JobState) : Jobs :=
  Function.update jobs i { jobs i with state := state }

/-- The job list together with the global `nextjid`. -/
structure JobList where
  jobs : Jobs
  nextjid : Int

/-- `initjobs(jobs)` with `int nextjid = 1`. -/
def JobList.start : JobList := ⟨initjobs, 1⟩

/-- `nextjid++` followed by the wrap at `MAXJID`. -/
def advance (nextjid : Int) : Int :=
  if narrowInt (nextjid + 1) > MAXJID then 1 else narrowInt (nextjid + 1)

namespace JobList

/-- `jobs[i].pid = pid`. -/
def storePid (t : JobList) (i : Fin MAXJOBS) (pid : Int) : JobList :=
  { t with jobs := Function.update t.jobs i { t.jobs i with pid := pid } }

/-- `jobs[i].state = state`. -/
def storeState (t : JobList) (i : Fin MAXJOBS) (state : JobState) : JobList :=
  { t with jobs := setState t.jobs i state }

/-- `jobs[i].jid = nextjid++`, the wrap, and the copy of the command line. No
handler that can run inside `addjob` reads any of these. -/
def storeJid (t : JobList) (i : Fin MAXJOBS) (cmdline : List Char) : JobList where
  jobs := Function.update t.jobs i { t.jobs i with jid := t.nextjid, cmdline := cmdline }
  nextjid := advance t.nextjid

end JobList

/-- `addjob`: add a job in the first free slot; false is the C result 0. -/
def addjob (t : JobList) (pid : Int) (state : JobState) (cmdline : List Char) :
    Bool × JobList :=
  if pid < 1 then (false, t)
  else
    match freeSlot t.jobs with
    | some i => (true, ((t.storePid i pid).storeState i state).storeJid i cmdline)
    | none => (false, t)

/-- `deletejob`: clear the slot of a pid and recompute `nextjid`, with no wrap. -/
def deletejob (t : JobList) (pid : Int) : Bool × JobList :=
  if pid < 1 then (false, t)
  else
    match Fin.find? fun i => (t.jobs i).pid == pid with
    | some i =>
        let jobs := Function.update t.jobs i clearjob
        (true, ⟨jobs, narrowInt (maxjid jobs + 1)⟩)
    | none => (false, t)

/-! ## What the scans find -/

theorem freeSlot_eq_some {jobs : Jobs} {i : Fin MAXJOBS} (found : freeSlot jobs = some i) :
    (jobs i).pid = 0 := by
  simpa using (Fin.find?_eq_some_iff.1 found).1

theorem freeSlot_eq_none_iff {jobs : Jobs} :
    freeSlot jobs = none ↔ ∀ i, (jobs i).pid ≠ 0 := by
  unfold freeSlot
  rw [Fin.find?_eq_none_iff]
  simp

theorem getjobpid_eq_some {jobs : Jobs} {pid : Int} {i : Fin MAXJOBS}
    (found : getjobpid jobs pid = some i) : 1 ≤ pid ∧ (jobs i).pid = pid := by
  unfold getjobpid at found
  split at found
  · simp at found
  · exact ⟨by omega, by simpa using (Fin.find?_eq_some_iff.1 found).1⟩

theorem getjobpid_isSome {jobs : Jobs} {pid : Int} {i : Fin MAXJOBS} (pos : 1 ≤ pid)
    (entry : (jobs i).pid = pid) : ∃ j, getjobpid jobs pid = some j := by
  have isSome : (Fin.find? fun i => (jobs i).pid == pid).isSome :=
    Fin.isSome_find?_iff.2 ⟨i, by simpa using entry⟩
  refine ⟨(Fin.find? fun i => (jobs i).pid == pid).get isSome, ?_⟩
  unfold getjobpid
  rw [if_neg (by omega), Option.some_get]

theorem getjobjid_eq_some {jobs : Jobs} {jid : Int} {i : Fin MAXJOBS}
    (found : getjobjid jobs jid = some i) : 1 ≤ jid ∧ (jobs i).jid = jid := by
  unfold getjobjid at found
  split at found
  · simp at found
  · exact ⟨by omega, by simpa using (Fin.find?_eq_some_iff.1 found).1⟩

/-- A nonzero answer of `fgpid` is the pid of an entry in state `FG`. -/
theorem fgpid_entry {jobs : Jobs} (found : fgpid jobs ≠ 0) :
    ∃ i, (jobs i).state = .fg ∧ (jobs i).pid = fgpid jobs := by
  unfold fgpid at found ⊢
  split at found
  · rename_i i hi
    exact ⟨i, by simpa using (Fin.find?_eq_some_iff.1 hi).1, rfl⟩
  · simp at found

/-- When nothing is in state `FG`, `fgpid` answers 0. -/
theorem fgpid_eq_zero {jobs : Jobs} (noFg : ∀ i, (jobs i).state ≠ .fg) : fgpid jobs = 0 := by
  by_contra found
  obtain ⟨i, isFg, -⟩ := fgpid_entry found
  exact noFg i isFg

/-- `pid2jid` reads the job ID of the slot `getjobpid` finds. -/
theorem pid2jid_of_getjobpid {jobs : Jobs} {pid : Int} {i : Fin MAXJOBS}
    (found : getjobpid jobs pid = some i) : pid2jid jobs pid = (jobs i).jid := by
  unfold getjobpid at found
  unfold pid2jid
  split at found
  · simp at found
  · rename_i pos
    rw [if_neg pos, found]

/-! ## `maxjid` is the largest job ID -/

theorem le_foldl_max {n : Nat} (f : Fin n → Int) (i : Fin n) :
    f i ≤ Fin.foldl n (fun max i => if f i > max then f i else max) 0 := by
  induction n with
  | zero => exact i.elim0
  | succ n ih =>
      rw [Fin.foldl_succ_last]
      induction i using Fin.lastCases with
      | last => split <;> omega
      | cast i =>
          have := ih (fun k => f k.castSucc) i
          split <;> omega

theorem foldl_max_attained {n : Nat} (f : Fin n → Int) :
    Fin.foldl n (fun max i => if f i > max then f i else max) 0 = 0 ∨
      ∃ i, f i = Fin.foldl n (fun max i => if f i > max then f i else max) 0 := by
  induction n with
  | zero => exact Or.inl (by simp)
  | succ n ih =>
      rw [Fin.foldl_succ_last]
      split
      · exact Or.inr ⟨Fin.last n, rfl⟩
      · rcases ih fun k => f k.castSucc with zero | ⟨i, same⟩
        · exact Or.inl zero
        · exact Or.inr ⟨i.castSucc, same⟩

theorem foldl_max_nonneg {n : Nat} (f : Fin n → Int) :
    0 ≤ Fin.foldl n (fun max i => if f i > max then f i else max) 0 := by
  induction n with
  | zero => simp
  | succ n ih =>
      rw [Fin.foldl_succ_last]
      have := ih fun k => f k.castSucc
      split <;> omega

theorem maxjid_nonneg (jobs : Jobs) : 0 ≤ maxjid jobs :=
  foldl_max_nonneg fun i => (jobs i).jid

theorem jid_le_maxjid (jobs : Jobs) (i : Fin MAXJOBS) : (jobs i).jid ≤ maxjid jobs :=
  le_foldl_max (fun i => (jobs i).jid) i

theorem maxjid_attained (jobs : Jobs) :
    maxjid jobs = 0 ∨ ∃ i, (jobs i).jid = maxjid jobs :=
  foldl_max_attained fun i => (jobs i).jid

theorem maxjid_eq {jobs : Jobs} {i : Fin MAXJOBS} (pos : 0 ≤ (jobs i).jid)
    (le : ∀ j, (jobs j).jid ≤ (jobs i).jid) : maxjid jobs = (jobs i).jid := by
  have lower := jid_le_maxjid jobs i
  rcases maxjid_attained jobs with zero | ⟨j, hj⟩
  · omega
  · have := le j
    omega

/-- The id after `jid` is the next number, unless it is past the last `int`. -/
theorem narrowInt_succ {jid : Int} (nonneg : 0 ≤ jid) (below : jid + 1 < 2 ^ 31) :
    narrowInt (jid + 1) = jid + 1 :=
  narrowInt_of_fits (by omega) below

theorem advance_of_fits {nextjid : Int} (nonneg : 0 ≤ nextjid) (below : nextjid + 1 < 2 ^ 31) :
    advance nextjid = if nextjid + 1 > MAXJID then 1 else nextjid + 1 := by
  rw [advance, narrowInt_succ nonneg below]

/-! ## The representation invariant -/

/-- Free slots are entirely clear, pids are not negative, and no two occupied
slots share a pid. -/
structure Jobs.WF (jobs : Jobs) : Prop where
  free : ∀ i, (jobs i).pid = 0 → jobs i = clearjob
  nonneg : ∀ i, 0 ≤ (jobs i).pid
  distinct : ∀ i j, (jobs i).pid ≠ 0 → (jobs i).pid = (jobs j).pid → i = j

namespace Jobs.WF

variable {jobs : Jobs}

theorem initjobs : WF Tsh.initjobs where
  free _ _ := rfl
  nonneg _ := Int.le_refl 0
  distinct _ _ occupied := absurd rfl occupied

/-- An entry in a job state is an occupied slot. -/
theorem occupied (wf : WF jobs) {i : Fin MAXJOBS} (entry : (jobs i).state ≠ .undef) :
    1 ≤ (jobs i).pid := by
  have := wf.nonneg i
  by_contra zero
  exact entry (by rw [wf.free i (by omega)]; rfl)

theorem occupied_st (wf : WF jobs) {i : Fin MAXJOBS} (isSt : (jobs i).state = .st) :
    1 ≤ (jobs i).pid :=
  wf.occupied (by rw [isSt]; rintro ⟨⟩)

/-- Rewriting an occupied slot without touching its pid. -/
theorem update (wf : WF jobs) {i : Fin MAXJOBS} {job : Job} (samePid : job.pid = (jobs i).pid)
    (occupied : (jobs i).pid ≠ 0) : WF (Function.update jobs i job) := by
  have pids : ∀ j, (Function.update jobs i job j).pid = (jobs j).pid := by
    intro j
    by_cases same : j = i
    · subst same; simpa using samePid
    · simp [same]
  refine ⟨fun j zero => ?_, fun j => ?_, fun j k occ eq => ?_⟩
  · rw [pids] at zero
    have ne : j ≠ i := fun same => occupied (same ▸ zero)
    simpa [ne] using wf.free j zero
  · rw [pids]; exact wf.nonneg j
  · rw [pids] at occ eq
    rw [pids] at eq
    exact wf.distinct j k occ eq

theorem setState (wf : WF jobs) {i : Fin MAXJOBS} (occupied : (jobs i).pid ≠ 0)
    (state : JobState) : WF (setState jobs i state) :=
  wf.update rfl occupied

theorem clear (wf : WF jobs) (i : Fin MAXJOBS) : WF (Function.update jobs i clearjob) := by
  refine ⟨fun j zero => ?_, fun j => ?_, fun j k occ eq => ?_⟩
  · by_cases same : j = i
    · simp [same]
    · simpa [same] using wf.free j (by simpa [same] using zero)
  · by_cases same : j = i
    · simp [same, clearjob]
    · simpa [same] using wf.nonneg j
  · have hj : j ≠ i := by rintro rfl; simp [clearjob] at occ
    have hk : k ≠ i := by rintro rfl; simp [hj] at occ eq; simp [clearjob] at eq; exact occ eq
    simp only [Function.update_of_ne hj, Function.update_of_ne hk] at occ eq
    exact wf.distinct j k occ eq

/-- Taking a free slot for a pid the list does not have. -/
theorem store (wf : WF jobs) {i : Fin MAXJOBS} {job : Job} (pos : 1 ≤ job.pid)
    (fresh : ∀ j, (jobs j).pid ≠ job.pid) : WF (Function.update jobs i job) := by
  refine ⟨fun j zero => ?_, fun j => ?_, fun j k occ eq => ?_⟩
  · by_cases same : j = i
    · subst same; simp at zero; omega
    · simpa [same] using wf.free j (by simpa [same] using zero)
  · by_cases same : j = i
    · subst same; simp; omega
    · simpa [same] using wf.nonneg j
  · by_cases hj : j = i <;> by_cases hk : k = i
    · rw [hj, hk]
    · subst hj; simp [hk] at eq; exact absurd eq.symm (fresh k)
    · subst hk; simp [hj] at eq; exact absurd eq (fresh j)
    · simp only [Function.update_of_ne hj, Function.update_of_ne hk] at occ eq
      exact wf.distinct j k occ eq

/-- With distinct pids the scan by pid finds the one slot that has it. -/
theorem getjobpid (wf : WF jobs) {i : Fin MAXJOBS} {pid : Int} (pos : 1 ≤ pid)
    (entry : (jobs i).pid = pid) : getjobpid jobs pid = some i := by
  obtain ⟨j, found⟩ := getjobpid_isSome pos entry
  have samePid := (getjobpid_eq_some found).2
  have : i = j := wf.distinct i j (by omega) (by omega)
  exact this ▸ found

end Jobs.WF

/-! ## The two calls that change which pids are listed -/

/-- What a call of `addjob` can do: fail and change nothing, or write one free slot. -/
theorem addjob_cases (t : JobList) {pid : Int} (pos : 1 ≤ pid) (state : JobState)
    (cmdline : List Char) :
    (freeSlot t.jobs = none ∧ addjob t pid state cmdline = (false, t)) ∨
      ∃ i, freeSlot t.jobs = some i ∧ (t.jobs i).pid = 0 ∧
        addjob t pid state cmdline =
          (true, ⟨Function.update t.jobs i ⟨pid, t.nextjid, state, cmdline⟩,
            advance t.nextjid⟩) := by
  unfold addjob
  rw [if_neg (by omega)]
  cases free : freeSlot t.jobs with
  | none => exact Or.inl ⟨rfl, rfl⟩
  | some i =>
      refine Or.inr ⟨i, rfl, freeSlot_eq_some free, ?_⟩
      simp [JobList.storePid, JobList.storeState, JobList.storeJid, setState]

/-- What a call of `deletejob` can do. -/
theorem deletejob_cases (t : JobList) (pid : Int) :
    (getjobpid t.jobs pid = none ∧ deletejob t pid = (false, t)) ∨
      ∃ i, getjobpid t.jobs pid = some i ∧
        deletejob t pid =
          (true, ⟨Function.update t.jobs i clearjob,
            narrowInt (maxjid (Function.update t.jobs i clearjob) + 1)⟩) := by
  unfold deletejob getjobpid
  by_cases low : pid < 1
  · simp [low]
  · simp only [low, if_false]
    cases found : Fin.find? fun i => (t.jobs i).pid == pid with
    | none => exact Or.inl ⟨rfl, rfl⟩
    | some i => exact Or.inr ⟨i, rfl, rfl⟩

/-- `addjob` with a free slot in the list. -/
theorem addjob_of_free {t : JobList} {pid : Int} {i : Fin MAXJOBS}
    (free : freeSlot t.jobs = some i) (pos : 1 ≤ pid) (state : JobState) (cmdline : List Char) :
    addjob t pid state cmdline =
      (true, ⟨Function.update t.jobs i ⟨pid, t.nextjid, state, cmdline⟩, advance t.nextjid⟩) := by
  rcases addjob_cases t pos state cmdline with ⟨none_, -⟩ | ⟨j, some_, -, eq⟩
  · simp [free] at none_
  · rw [free] at some_
    cases some_
    exact eq

/-- `deletejob` of a listed pid, where slot `k` has the largest id of those that stay. -/
theorem deletejob_of_found {t : JobList} {pid : Int} (jid : Int) {i k : Fin MAXJOBS}
    (found : getjobpid t.jobs pid = some i) (pos : 0 ≤ jid)
    (top : (Function.update t.jobs i clearjob k).jid = jid)
    (le : ∀ j, (Function.update t.jobs i clearjob j).jid ≤ jid) :
    deletejob t pid = (true, ⟨Function.update t.jobs i clearjob, narrowInt (jid + 1)⟩) := by
  have max_ : maxjid (Function.update t.jobs i clearjob) = jid :=
    top ▸ maxjid_eq (by omega) (by simpa only [top] using le)
  rcases deletejob_cases t pid with ⟨none_, -⟩ | ⟨j, some_, eq⟩
  · simp [found] at none_
  · rw [found] at some_
    cases some_
    rw [eq, max_]

theorem wf_addjob {t : JobList} (wf : t.jobs.WF) {pid : Int} (pos : 1 ≤ pid)
    (fresh : ∀ i, (t.jobs i).pid ≠ pid) (state : JobState) (cmdline : List Char) :
    (addjob t pid state cmdline).2.jobs.WF := by
  rcases addjob_cases t pos state cmdline with ⟨-, eq⟩ | ⟨i, -, -, eq⟩ <;> rw [eq]
  · exact wf
  · exact wf.store pos fresh

theorem wf_deletejob {t : JobList} (wf : t.jobs.WF) (pid : Int) :
    (deletejob t pid).2.jobs.WF := by
  rcases deletejob_cases t pid with ⟨-, eq⟩ | ⟨i, -, eq⟩ <;> rw [eq]
  · exact wf
  · exact wf.clear i

end CsappLab.Tsh
