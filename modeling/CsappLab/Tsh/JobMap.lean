/-
# Tsh.JobMap — the job list as a finite map

What the sixteen slots are for: a map from pid to job id, state and command line,
of at most `MAXJOBS` keys, and the id the next job will get. A `JobBook` is that,
with `addjob`, `deletejob` and the assignment of a state as one would write them
on a map. `Refines` says which books a job list stands for: free slots are
clear, the occupied ones hold the map, and listed ids are positive.

The ids of a book are numbers, those of the list are `int`s, and `deletejob` lets
them grow: `nextjid` goes to the largest listed id plus one, with no wrap at
`MAXJID`. `FitsInt` says that a call computes no id past the last `int`.
`refines_run` is the step lemma: the same call gives the same answer on both, and
leads to related states again where it meets `FitsInt`. `jobOps_refine` is what
follows for any order of such calls, with what the scans find on the way: they
read free slots too, and none of them is misled. Fewer than 2^31 - 1 calls meet it
always (`exec_of_short`). `maxjid_misses_overflowed_job` is a run that does not:
its one job has an id below 0, which `maxjid` does not see.
-/
import CsappLab.Lib.Slots
import CsappLab.Tsh.JobIds

namespace CsappLab.Tsh

set_option autoImplicit false

open CsappLab.Lib

/-! ## The calls -/

/-- One call on the job list, or an assignment to the state of a listed job. -/
inductive JobOp where
  | addjob (pid : Int) (state : JobState) (cmdline : List Char)
  | deletejob (pid : Int)
  | assign (pid : Int) (state : JobState)

namespace JobOp

/-- `addjob` is given a pid that is not listed and the state FG or BG; a state is only
assigned to a listed job. -/
def Legal (t : JobList) : JobOp → Prop
  | addjob pid state _ =>
      (state = .fg ∨ state = .bg) ∧ ∀ i, (t.jobs i).pid ≠ 0 → (t.jobs i).pid ≠ pid
  | deletejob _ => True
  | assign pid state => state ≠ .undef ∧ ∃ i, (t.jobs i).pid ≠ 0 ∧ (t.jobs i).pid = pid

instance (t : JobList) : DecidablePred (Legal t)
  | addjob pid state _ => inferInstanceAs (Decidable
      ((state = .fg ∨ state = .bg) ∧ ∀ i, (t.jobs i).pid ≠ 0 → (t.jobs i).pid ≠ pid))
  | deletejob _ => inferInstanceAs (Decidable True)
  | assign pid state => inferInstanceAs (Decidable
      (state ≠ .undef ∧ ∃ i, (t.jobs i).pid ≠ 0 ∧ (t.jobs i).pid = pid))

/-- No id computed by the call is past the last `int`: `nextjid++` in an `addjob` that
stores its job, `maxjid(jobs)+1` over the jobs that a `deletejob` leaves. -/
def FitsInt (t : JobList) : JobOp → Prop
  | addjob pid _ _ => 1 ≤ pid → freeSlot t.jobs ≠ none → t.nextjid < 2 ^ 31 - 1
  | deletejob pid =>
      getjobpid t.jobs pid ≠ none → ∀ i, (t.jobs i).pid ≠ pid → (t.jobs i).jid < 2 ^ 31 - 1
  | assign _ _ => True

instance (t : JobList) : DecidablePred (FitsInt t)
  | addjob pid _ _ => inferInstanceAs (Decidable
      (1 ≤ pid → freeSlot t.jobs ≠ none → t.nextjid < 2 ^ 31 - 1))
  | deletejob pid => inferInstanceAs (Decidable
      (getjobpid t.jobs pid ≠ none → ∀ i, (t.jobs i).pid ≠ pid → (t.jobs i).jid < 2 ^ 31 - 1))
  | assign _ _ => inferInstanceAs (Decidable True)

/-- The answer of a call, and the job list after it. -/
def run (t : JobList) : JobOp → Bool × JobList
  | addjob pid state cmdline => Tsh.addjob t pid state cmdline
  | deletejob pid => Tsh.deletejob t pid
  | assign pid state =>
      match getjobpid t.jobs pid with
      | some i => (true, { t with jobs := setState t.jobs i state })
      | none => (false, t)

end JobOp

/-- The job list under any legal calls. -/
def jobOps : Machine JobList JobOp where
  start := .start
  step t op := if op.Legal t then some (op.run t).2 else none

theorem jobOps_step {t u : JobList} {op : JobOp} (step : jobOps.step t op = some u) :
    op.Legal t ∧ u = (op.run t).2 := by
  simp only [jobOps, Option.ite_none_right_eq_some, Option.some.injEq] at step
  exact ⟨step.1, step.2.symm⟩

/-! ## The map -/

/-- What is kept for a pid. -/
structure Entry where
  jid : Int
  state : JobState
  cmdline : List Char
  deriving DecidableEq, Repr

abbrev JobMap : Type := Finmap fun _ : Int => Entry

/-- The largest job id in use, 0 if there is none. -/
def JobMap.largestJid (m : JobMap) : Int :=
  m.keys.fold max 0 fun pid => ((m.lookup pid).map Entry.jid).getD 0

structure JobBook where
  map : JobMap
  nextjid : Int

namespace JobBook

def start : JobBook := ⟨∅, 1⟩

/-- The id after `nextjid`, back to 1 behind `MAXJID`. -/
def following (nextjid : Int) : Int := if nextjid + 1 > MAXJID then 1 else nextjid + 1

/-- The answer of a call, and the book after it. -/
def run (b : JobBook) : JobOp → Bool × JobBook
  | .addjob pid state cmdline =>
      if 1 ≤ pid ∧ b.map.keys.card < MAXJOBS then
        (true, ⟨b.map.insert pid ⟨b.nextjid, state, cmdline⟩, following b.nextjid⟩)
      else (false, b)
  | .deletejob pid =>
      if pid ∈ b.map then (true, ⟨b.map.erase pid, JobMap.largestJid (b.map.erase pid) + 1⟩)
      else (false, b)
  | .assign pid state =>
      match b.map.lookup pid with
      | some entry => (true, { b with map := b.map.insert pid { entry with state := state } })
      | none => (false, b)

end JobBook

/-- The book under any calls. -/
def jobBook : Machine JobBook JobOp where
  start := .start
  step b op := some (b.run op).2

/-! ## Which book a list stands for -/

/-- What a slot holds. -/
def Job.held (job : Job) : Option (Int × Entry) :=
  if job.pid = 0 then none else some (job.pid, ⟨job.jid, job.state, job.cmdline⟩)

/-- The slots of a job list, as a table. -/
def Jobs.slots (jobs : Jobs) : Fin MAXJOBS → Option (Int × Entry) := fun i => (jobs i).held

structure Refines (t : JobList) (b : JobBook) : Prop where
  wf : t.jobs.WF
  map : Represents t.jobs.slots b.map
  nextjid : t.nextjid = b.nextjid
  jidPos : ∀ i, (t.jobs i).pid ≠ 0 → 1 ≤ (t.jobs i).jid
  nextPos : 1 ≤ t.nextjid

section Held

variable {jobs : Jobs} {m : JobMap} {i : Fin MAXJOBS}

theorem slots_eq_none_iff : jobs.slots i = none ↔ (jobs i).pid = 0 := by
  simp [Jobs.slots, Job.held]

theorem slots_of_occupied (occupied : (jobs i).pid ≠ 0) :
    jobs.slots i = some ((jobs i).pid, ⟨(jobs i).jid, (jobs i).state, (jobs i).cmdline⟩) :=
  if_neg occupied

theorem slots_eq_some {pid : Int} {entry : Entry} (held : jobs.slots i = some (pid, entry)) :
    (jobs i).pid ≠ 0 ∧ (jobs i).pid = pid ∧
      entry = ⟨(jobs i).jid, (jobs i).state, (jobs i).cmdline⟩ := by
  by_cases free : (jobs i).pid = 0
  · rw [slots_eq_none_iff.2 free] at held
    cases held
  · rw [slots_of_occupied free, Option.some.injEq, Prod.mk.injEq] at held
    exact ⟨free, held.1, held.2.symm⟩

theorem slots_update (jobs : Jobs) (i : Fin MAXJOBS) (job : Job) :
    Jobs.slots (Function.update jobs i job) = Function.update jobs.slots i job.held := by
  funext j
  by_cases at_ : j = i
  · subst at_
    simp [Jobs.slots]
  · simp [Jobs.slots, at_]

/-- The listed pids are the keys. -/
theorem mem_map_iff (map : Represents jobs.slots m) {pid : Int} :
    pid ∈ m ↔ ∃ i, (jobs i).pid ≠ 0 ∧ (jobs i).pid = pid := by
  rw [map.mem_iff]
  constructor
  · intro held
    obtain ⟨i, entry, held⟩ := held
    obtain ⟨occupied, same, -⟩ := slots_eq_some held
    exact ⟨i, occupied, same⟩
  · intro listed
    obtain ⟨i, occupied, rfl⟩ := listed
    exact ⟨i, _, slots_of_occupied occupied⟩

/-! ## What the scans find -/

theorem getjobpid_isSome_iff (wf : jobs.WF) (map : Represents jobs.slots m) {pid : Int} :
    (∃ i, getjobpid jobs pid = some i) ↔ pid ∈ m := by
  rw [mem_map_iff map]
  constructor
  · intro found
    obtain ⟨i, found⟩ := found
    obtain ⟨pos, rfl⟩ := getjobpid_eq_some found
    exact ⟨i, by omega, rfl⟩
  · intro listed
    obtain ⟨i, occupied, rfl⟩ := listed
    have nonneg := wf.nonneg i
    exact ⟨i, wf.getjobpid (by omega) rfl⟩

/-- The slot found for a pid holds its entry. -/
theorem held_of_getjobpid {pid : Int} (found : getjobpid jobs pid = some i) :
    jobs.slots i = some (pid, ⟨(jobs i).jid, (jobs i).state, (jobs i).cmdline⟩) := by
  obtain ⟨pos, rfl⟩ := getjobpid_eq_some found
  exact slots_of_occupied (by omega)

/-- `fgpid` gives a foreground job if there is one, and 0 if there is none. -/
theorem fgpid_spec (wf : jobs.WF) (map : Represents jobs.slots m) :
    (∃ entry, m.lookup (fgpid jobs) = some entry ∧ entry.state = .fg) ∨
      (fgpid jobs = 0 ∧ ∀ pid entry, m.lookup pid = some entry → entry.state ≠ .fg) := by
  by_cases some_ : ∃ i, (jobs i).state = .fg
  · obtain ⟨i, isFg⟩ := some_
    have pos := wf.occupied (i := i) (by rw [isFg]; decide)
    have found : fgpid jobs ≠ 0 := by
      unfold fgpid
      cases scan : Fin.find? fun i => (jobs i).state == .fg with
      | none =>
          have none_ := Fin.find?_eq_none_iff.1 scan i
          simp [isFg] at none_
      | some j =>
          have isFg' : (jobs j).state = .fg := by simpa using (Fin.find?_eq_some_iff.1 scan).1
          have pos' := wf.occupied (i := j) (by rw [isFg']; decide)
          show (jobs j).pid ≠ 0
          omega
    obtain ⟨j, isFg', same⟩ := fgpid_entry found
    have held := @slots_of_occupied jobs j (by omega)
    rw [same] at held
    exact .inl ⟨_, map.lookup_of_held held, isFg'⟩
  · refine .inr ⟨fgpid_eq_zero fun i isFg => some_ ⟨i, isFg⟩, fun pid entry found isFg => ?_⟩
    obtain ⟨i, held⟩ := map.lookup.1 found
    obtain ⟨-, -, rfl⟩ := slots_eq_some held
    exact some_ ⟨i, isFg⟩

/-- A free slot has job id 0, so `maxjid` is not misled. -/
theorem maxjid_eq_largestJid (wf : jobs.WF) (map : Represents jobs.slots m) :
    maxjid jobs = m.largestJid := by
  apply Int.le_antisymm
  · rcases maxjid_attained jobs with zero | ⟨i, attained⟩
    · rw [zero]
      exact (Finset.le_fold_max _).2 (.inl (Int.le_refl 0))
    · by_cases free : (jobs i).pid = 0
      · rw [← attained, wf.free i free]
        exact (Finset.le_fold_max _).2 (.inl (Int.le_refl 0))
      · have found := map.lookup_of_held (slots_of_occupied free)
        refine (Finset.le_fold_max _).2 (.inr ⟨(jobs i).pid, ?_, ?_⟩)
        · rw [Finmap.mem_keys, mem_map_iff map]
          exact ⟨i, free, rfl⟩
        · rw [found, ← attained]
          exact Int.le_refl _
  · refine (Finset.fold_max_le _).2 ⟨maxjid_nonneg jobs, fun pid _ => ?_⟩
    cases found : m.lookup pid with
    | none => exact maxjid_nonneg jobs
    | some entry =>
        obtain ⟨i, held⟩ := map.lookup.1 found
        obtain ⟨-, -, rfl⟩ := slots_eq_some held
        exact jid_le_maxjid jobs i

end Held

/-! ## One call -/

section OneCall

variable {t : JobList} {b : JobBook}

theorem Refines.start : Refines .start .start where
  wf := .initjobs
  map := .empty
  nextjid := rfl
  jidPos _ occupied := absurd rfl occupied
  nextPos := by decide

/-- There is a free slot exactly while the map has fewer than `MAXJOBS` keys. -/
theorem Refines.freeSlot_eq_none_iff (ref : Refines t b) :
    freeSlot t.jobs = none ↔ ¬ b.map.keys.card < MAXJOBS := by
  rw [Tsh.freeSlot_eq_none_iff, ref.map.card_lt_iff]
  simp [slots_eq_none_iff]

theorem Refines.addjob (ref : Refines t b) {pid : Int} {state : JobState} {cmdline : List Char}
    (legal : (JobOp.addjob pid state cmdline).Legal t) :
    (addjob t pid state cmdline).1 = (b.run (.addjob pid state cmdline)).1 ∧
      ((JobOp.addjob pid state cmdline).FitsInt t →
        Refines (addjob t pid state cmdline).2 (b.run (.addjob pid state cmdline)).2) := by
  by_cases pos : 1 ≤ pid
  · rcases addjob_cases t pos state cmdline with ⟨full, eq⟩ | ⟨i, found, free, eq⟩
    · have room : ¬ (1 ≤ pid ∧ b.map.keys.card < MAXJOBS) :=
        fun both => ref.freeSlot_eq_none_iff.1 full both.2
      simp only [eq, JobBook.run, if_neg room]
      exact ⟨trivial, fun _ => ref⟩
    · have room : 1 ≤ pid ∧ b.map.keys.card < MAXJOBS := by
        refine ⟨pos, ?_⟩
        by_contra full
        rw [ref.freeSlot_eq_none_iff.2 full] at found
        cases found
      have fresh : pid ∉ b.map := by
        rw [mem_map_iff ref.map]
        intro listed
        obtain ⟨j, occupied, same⟩ := listed
        exact legal.2 j occupied same
      have unlisted : ∀ j, (t.jobs j).pid ≠ pid := by
        intro j same
        exact legal.2 j (by omega) same
      have held : Job.held ⟨pid, t.nextjid, state, cmdline⟩ =
          some (pid, ⟨b.nextjid, state, cmdline⟩) := by
        rw [ref.nextjid]
        exact if_neg (by show pid ≠ 0; omega)
      simp only [eq, JobBook.run, if_pos room]
      refine ⟨trivial, fun fits => ?_⟩
      have nextPos := ref.nextPos
      have below := fits pos (by simp [found])
      have next : advance t.nextjid = JobBook.following t.nextjid :=
        advance_of_fits (by omega) (by omega)
      refine ⟨ref.wf.store pos unlisted, ?_, by rw [← ref.nextjid, next], fun j occupied => ?_, ?_⟩
      · rw [slots_update, held]
        exact ref.map.store (slots_eq_none_iff.2 free) fresh _
      · by_cases at_ : j = i
        · subst at_
          simpa using ref.nextPos
        · simp only [Function.update_of_ne at_] at occupied ⊢
          exact ref.jidPos j occupied
      · show 1 ≤ advance t.nextjid
        rw [next, JobBook.following]
        split <;> omega
  · have room : ¬ (1 ≤ pid ∧ b.map.keys.card < MAXJOBS) := fun both => pos both.1
    have eq : Tsh.addjob t pid state cmdline = (false, t) := if_pos (by omega)
    simp only [eq, JobBook.run, if_neg room]
    exact ⟨trivial, fun _ => ref⟩

/-- The ids that a `deletejob` leaves are all below `n` once those of the other jobs are. -/
theorem maxjid_clear_lt (wf : t.jobs.WF) {pid n : Int} {i : Fin MAXJOBS}
    (found : getjobpid t.jobs pid = some i) (pos : 0 < n)
    (others : ∀ j, (t.jobs j).pid ≠ pid → (t.jobs j).jid < n) :
    maxjid (Function.update t.jobs i clearjob) < n := by
  obtain ⟨pidPos, rfl⟩ := getjobpid_eq_some found
  rcases maxjid_attained (Function.update t.jobs i clearjob) with zero | ⟨j, attained⟩
  · omega
  · rw [← attained]
    by_cases at_ : j = i
    · subst at_
      simpa [clearjob] using pos
    · rw [Function.update_of_ne at_]
      exact others j fun same => at_ (wf.distinct j i (by omega) same)

theorem Refines.deletejob (ref : Refines t b) (pid : Int) :
    (deletejob t pid).1 = (b.run (.deletejob pid)).1 ∧
      ((JobOp.deletejob pid).FitsInt t →
        Refines (deletejob t pid).2 (b.run (.deletejob pid)).2) := by
  have key := @getjobpid_isSome_iff _ _ ref.wf ref.map pid
  rcases deletejob_cases t pid with ⟨missing, eq⟩ | ⟨i, found, eq⟩
  · have notKey : pid ∉ b.map := by
      rw [← key, missing]
      simp
    simp only [eq, JobBook.run, if_neg notKey]
    exact ⟨trivial, fun _ => ref⟩
  · have isKey : pid ∈ b.map := key.1 ⟨i, found⟩
    have cleared : Represents (Jobs.slots (Function.update t.jobs i clearjob))
        (b.map.erase pid) := by
      rw [slots_update]
      exact ref.map.clear (held_of_getjobpid found)
    have wf := ref.wf.clear i
    have largest := maxjid_eq_largestJid wf cleared
    simp only [eq, JobBook.run, if_pos isKey]
    refine ⟨trivial, fun fits => ?_⟩
    have nonneg := maxjid_nonneg (Function.update t.jobs i clearjob)
    have below := maxjid_clear_lt ref.wf found (by decide) (fits (by simp [found]))
    have next := narrowInt_succ nonneg (by omega)
    refine ⟨wf, cleared, by simp only [next, ← largest], fun j occupied => ?_, ?_⟩
    · have other : j ≠ i := by
        rintro rfl
        simp [clearjob] at occupied
      simp only [Function.update_of_ne other] at occupied ⊢
      exact ref.jidPos j occupied
    · simp only [next]
      omega

theorem Refines.assign (ref : Refines t b) (pid : Int) (state : JobState) :
    ((JobOp.assign pid state).run t).1 = (b.run (.assign pid state)).1 ∧
      Refines ((JobOp.assign pid state).run t).2 (b.run (.assign pid state)).2 := by
  have key := @getjobpid_isSome_iff _ _ ref.wf ref.map pid
  cases found : getjobpid t.jobs pid with
  | none =>
      have notKey : b.map.lookup pid = none := by
        rw [Finmap.lookup_eq_none, ← key, found]
        simp
      simp only [JobOp.run, JobBook.run, found, notKey]
      exact ⟨trivial, ref⟩
  | some i =>
      have held := held_of_getjobpid found
      have occupied := (slots_eq_some held).1
      have samePid := (slots_eq_some held).2.1
      have entry := ref.map.lookup_of_held held
      have held' : Job.held { t.jobs i with state := state } =
          some (pid, ⟨(t.jobs i).jid, state, (t.jobs i).cmdline⟩) := by
        rw [← samePid]
        exact if_neg occupied
      simp only [JobOp.run, JobBook.run, found, entry]
      refine ⟨trivial, ref.wf.setState occupied state, ?_, ref.nextjid, fun j occ => ?_,
        ref.nextPos⟩
      · show Represents (Jobs.slots (setState t.jobs i state)) _
        rw [setState, slots_update, held']
        exact ref.map.rewrite held _
      · by_cases at_ : j = i
        · subst at_
          simpa [setState] using ref.jidPos j occupied
        · simp only [setState, Function.update_of_ne at_] at occ ⊢
          exact ref.jidPos j occ

/-- **One call**: the same answer, and related states again if the ids fit. -/
theorem refines_run (ref : Refines t b) {op : JobOp} (legal : op.Legal t) :
    (op.run t).1 = (b.run op).1 ∧ (op.FitsInt t → Refines (op.run t).2 (b.run op).2) := by
  cases op with
  | addjob pid state cmdline => exact ref.addjob legal
  | deletejob pid => exact ref.deletejob pid
  | assign pid state =>
      obtain ⟨answer, after⟩ := ref.assign pid state
      exact ⟨answer, fun _ => after⟩

/-- A call that answers 0 changes nothing. -/
theorem run_false (t : JobList) {op : JobOp} (failed : (op.run t).1 = false) :
    (op.run t).2 = t := by
  cases op with
  | addjob pid state cmdline =>
      by_cases pos : 1 ≤ pid
      · rcases addjob_cases t pos state cmdline with ⟨-, eq⟩ | ⟨i, -, -, eq⟩
        · simp [JobOp.run, eq]
        · simp [JobOp.run, eq] at failed
      · have eq : addjob t pid state cmdline = (false, t) := if_pos (by omega)
        simp [JobOp.run, eq]
  | deletejob pid =>
      rcases deletejob_cases t pid with ⟨-, eq⟩ | ⟨i, -, eq⟩
      · simp [JobOp.run, eq]
      · simp [JobOp.run, eq] at failed
  | assign pid state =>
      simp only [JobOp.run] at failed ⊢
      split at failed
      · cases failed
      · rfl

end OneCall

/-! ## Any calls -/

theorem getjobjid_isSome_iff {jobs : Jobs} {m : JobMap} (wf : jobs.WF)
    (map : Represents jobs.slots m) {jid : Int} :
    (∃ i, getjobjid jobs jid = some i) ↔
      1 ≤ jid ∧ ∃ pid entry, m.lookup pid = some entry ∧ entry.jid = jid := by
  constructor
  · intro found
    obtain ⟨i, found⟩ := found
    obtain ⟨pos, rfl⟩ := getjobjid_eq_some found
    have occupied : (jobs i).pid ≠ 0 := by
      intro free
      rw [wf.free i free] at pos
      simp [clearjob] at pos
    exact ⟨pos, _, _, map.lookup_of_held (slots_of_occupied occupied), rfl⟩
  · intro listed
    obtain ⟨pos, pid, entry, found, same⟩ := listed
    obtain ⟨i, held⟩ := map.lookup.1 found
    obtain ⟨-, -, rfl⟩ := slots_eq_some held
    have isSome : (Fin.find? fun i => (jobs i).jid == jid).isSome :=
      Fin.isSome_find?_iff.2 ⟨i, by simpa using same⟩
    unfold getjobjid
    rw [if_neg (by omega)]
    exact Option.isSome_iff_exists.1 isSome

/-- What the scans and the next call answer, in terms of the book. -/
structure Answers (t : JobList) (b : JobBook) : Prop where
  call : ∀ op : JobOp, op.Legal t → (op.run t).1 = (b.run op).1 ∧
    ((op.run t).1 = false → (op.run t).2 = t)
  getjobpid : ∀ pid, (∃ i, getjobpid t.jobs pid = some i) ↔ pid ∈ b.map
  getjobjid : ∀ jid, (∃ i, getjobjid t.jobs jid = some i) ↔
    1 ≤ jid ∧ ∃ pid entry, b.map.lookup pid = some entry ∧ entry.jid = jid
  fgpid : (∃ entry, b.map.lookup (fgpid t.jobs) = some entry ∧ entry.state = .fg) ∨
    (fgpid t.jobs = 0 ∧ ∀ pid entry, b.map.lookup pid = some entry → entry.state ≠ .fg)
  maxjid_le : ∀ pid entry, b.map.lookup pid = some entry → entry.jid ≤ maxjid t.jobs
  maxjid_attained : (b.map = ∅ ∧ maxjid t.jobs = 0) ∨
    ∃ pid entry, b.map.lookup pid = some entry ∧ entry.jid = maxjid t.jobs

theorem Refines.answers {t : JobList} {b : JobBook} (ref : Refines t b) : Answers t b where
  call op legal := ⟨(refines_run ref legal).1, run_false t⟩
  getjobpid _ := getjobpid_isSome_iff ref.wf ref.map
  getjobjid _ := getjobjid_isSome_iff ref.wf ref.map
  fgpid := fgpid_spec ref.wf ref.map
  maxjid_le pid entry found := by
    obtain ⟨i, held⟩ := ref.map.lookup.1 found
    obtain ⟨-, -, rfl⟩ := slots_eq_some held
    exact jid_le_maxjid t.jobs i
  maxjid_attained := by
    by_cases empty : ∃ i, (t.jobs i).pid ≠ 0
    · obtain ⟨i, occupied⟩ := empty
      have pos := ref.jidPos i occupied
      have le := jid_le_maxjid t.jobs i
      rcases Tsh.maxjid_attained t.jobs with zero | ⟨j, attained⟩
      · omega
      · have occupied' : (t.jobs j).pid ≠ 0 := by
          intro free
          rw [ref.wf.free j free] at attained
          simp only [clearjob] at attained
          omega
        exact .inr ⟨_, _, ref.map.lookup_of_held (slots_of_occupied occupied'), attained⟩
    · have none_ : ∀ pid, pid ∉ b.map := by
        intro pid listed
        obtain ⟨i, occupied, -⟩ := (mem_map_iff ref.map).1 listed
        exact empty ⟨i, occupied⟩
      refine .inl ⟨?_, ?_⟩
      · apply Finmap.ext_lookup
        intro pid
        rw [Finmap.lookup_eq_none.2 (none_ pid), Finmap.lookup_empty]
      · rcases Tsh.maxjid_attained t.jobs with zero | ⟨j, attained⟩
        · exact zero
        · have free : (t.jobs j).pid = 0 := by
            by_contra occupied
            exact empty ⟨j, occupied⟩
          rw [← attained, ref.wf.free j free]
          rfl

/-- No job id in use is above `n`, nor is the next one above `n + 1`. -/
structure JidsUpTo (n : Int) (t : JobList) : Prop where
  jids : ∀ i, (t.jobs i).jid ≤ n
  next : t.nextjid ≤ n + 1

section Jids

variable {n : Int} {t : JobList}

theorem JidsUpTo.succ (upTo : JidsUpTo n t) : JidsUpTo (n + 1) t where
  jids i := Int.le_trans (upTo.jids i) (by omega)
  next := Int.le_trans upTo.next (by omega)

theorem JidsUpTo.update (upTo : JidsUpTo n t) {job : Job} (le : job.jid ≤ n + 1)
    (i j : Fin MAXJOBS) : (Function.update t.jobs i job j).jid ≤ n + 1 := by
  by_cases at_ : j = i
  · subst at_
    simpa using le
  · rw [Function.update_of_ne at_]
    exact upTo.succ.jids j

/-- A call rewrites a slot with its id or with `nextjid`, or clears it. -/
theorem JidsUpTo.run (nonneg : 0 ≤ n) (small : n + 2 < 2 ^ 31) (pos : 1 ≤ t.nextjid)
    (upTo : JidsUpTo n t) (op : JobOp) : JidsUpTo (n + 1) (op.run t).2 := by
  have next := upTo.next
  cases op with
  | addjob pid state cmdline =>
      by_cases pidPos : 1 ≤ pid
      · rcases addjob_cases t pidPos state cmdline with ⟨-, eq⟩ | ⟨i, -, -, eq⟩
        · simpa only [JobOp.run, eq] using upTo.succ
        · simp only [JobOp.run, eq]
          refine ⟨upTo.update next i, ?_⟩
          show advance t.nextjid ≤ n + 1 + 1
          rw [advance_of_fits (by omega) (by omega)]
          split <;> omega
      · have eq : addjob t pid state cmdline = (false, t) := if_pos (by omega)
        simpa only [JobOp.run, eq] using upTo.succ
  | deletejob pid =>
      rcases deletejob_cases t pid with ⟨-, eq⟩ | ⟨i, -, eq⟩
      · simpa only [JobOp.run, eq] using upTo.succ
      · simp only [JobOp.run, eq]
        have clear : clearjob.jid ≤ n + 1 := by
          simp only [clearjob]
          omega
        refine ⟨upTo.update clear i, ?_⟩
        have above := maxjid_nonneg (Function.update t.jobs i clearjob)
        have below : maxjid (Function.update t.jobs i clearjob) ≤ n + 1 := by
          rcases maxjid_attained (Function.update t.jobs i clearjob) with zero | ⟨j, attained⟩
          · omega
          · have := upTo.update clear i j
            omega
        show narrowInt _ ≤ n + 1 + 1
        rw [narrowInt_succ above (by omega)]
        omega
  | assign pid state =>
      simp only [JobOp.run]
      split
      next i found =>
        have kept : ({ t.jobs i with state := state } : Job).jid ≤ n + 1 := upTo.succ.jids i
        exact ⟨upTo.update kept i, upTo.succ.next⟩
      next => exact upTo.succ

/-- Ids that small fit, and so does the one that the next call computes. -/
theorem JidsUpTo.fitsInt (small : n + 1 < 2 ^ 31 - 1) (upTo : JidsUpTo n t) (op : JobOp) :
    op.FitsInt t := by
  have next := upTo.next
  cases op with
  | addjob pid state cmdline =>
      intro _ _
      omega
  | deletejob pid =>
      intro _ i _
      have := upTo.jids i
      omega
  | assign pid state => trivial

end Jids

/-- The book follows the list through any calls that fit. -/
theorem refines_exec {ops : List JobOp} {t : JobList}
    (ran : (jobOps.restrict JobOp.FitsInt).exec .start ops = some t) :
    ∃ b, jobBook.exec .start ops = some b ∧ Refines t b := by
  refine Machine.exec_of_simulation (N := jobBook) (R := Refines)
    (fun s b op u ref stepped => ?_) .start ran
  simp only [Machine.restrict, Option.ite_none_right_eq_some] at stepped
  obtain ⟨fits, stepped⟩ := stepped
  obtain ⟨legal, rfl⟩ := jobOps_step stepped
  exact ⟨_, rfl, (refines_run ref legal).2 fits⟩

/-- After `n` calls no job id in use is above `n`, and `nextjid` is at most `n + 1`: so the
calls of every run of fewer than 2^31 - 1 of them fit. -/
theorem exec_of_short {ops : List JobOp} {t : JobList} (short : ops.length < 2 ^ 31 - 1)
    (ran : jobOps.exec .start ops = some t) :
    (jobOps.restrict JobOp.FitsInt).exec .start ops = some t ∧ JidsUpTo ops.length t := by
  induction ops using List.reverseRecOn generalizing t with
  | nil =>
      cases ran
      exact ⟨rfl, fun _ => Int.le_refl 0, Int.le_refl 1⟩
  | append_singleton ops op ih =>
      rw [List.length_append, List.length_singleton] at short
      rw [Machine.exec_snoc] at ran
      obtain ⟨s, before, stepped⟩ := Option.bind_eq_some_iff.1 ran
      obtain ⟨ran', upTo⟩ := ih (by omega) before
      have fits : op.FitsInt s := upTo.fitsInt (by omega) op
      obtain ⟨b, -, ref⟩ := refines_exec ran'
      constructor
      · rw [Machine.exec_snoc, ran', Option.bind_some]
        simpa only [Machine.restrict, if_pos fits] using stepped
      · obtain ⟨-, rfl⟩ := jobOps_step stepped
        rw [List.length_append, List.length_singleton, Int.natCast_add, Int.natCast_one]
        exact upTo.run (Int.natCast_nonneg _) (by omega) ref.nextPos op

/-- **The job list is a finite map**: after any legal calls that fit it stands for the book
that the same calls lead to, and answers like it. -/
theorem jobOps_refine {ops : List JobOp} {t : JobList}
    (ran : (jobOps.restrict JobOp.FitsInt).exec .start ops = some t) :
    ∃ b, jobBook.exec .start ops = some b ∧ Refines t b ∧ Answers t b := by
  obtain ⟨b, ran', ref⟩ := refines_exec ran
  exact ⟨b, ran', ref, ref.answers⟩

/-- Two jobs, the first one deleted. -/
theorem jobOps_refine_hole :
    ∃ b, jobBook.exec .start [.addjob 5 .bg [], .addjob 7 .fg [], .deletejob 5] = some b ∧
      Refines (deletejob (addjob (addjob .start 5 .bg []).2 7 .fg []).2 5).2 b ∧
      Answers (deletejob (addjob (addjob .start 5 .bg []).2 7 .fg []).2 5).2 b := by
  apply jobOps_refine
  rfl

/-! ## A run that passes the last `int` -/

/-- Pids 1 and 2 take turns, and whichever is listed keeps the largest id alive. -/
def climbRound : List JobOp :=
  [.addjob 2 .bg [], .deletejob 1, .addjob 1 .bg [], .deletejob 2]

def idClimb : Nat → List JobOp
  | 0 => [.addjob 1 .bg []]
  | n + 1 => idClimb n ++ climbRound

/-- The list with the one job `jid` of pid 1, whatever the `int` after it is. -/
def climbed (jid : Int) : JobList where
  jobs := threeSlots (bgJob 1 jid) clearjob clearjob
  nextjid := narrowInt (jid + 1)

theorem update_threeSlots_zero (a b c d : Job) :
    Function.update (threeSlots a b c) 0 d = threeSlots d b c := by
  funext i
  by_cases same : i = 0
  · subst same; rfl
  · simp [threeSlots, same]

theorem step_addjob_bg {t : JobList} {pid : Int} {i : Fin MAXJOBS}
    (free : freeSlot t.jobs = some i) (pos : 1 ≤ pid) (fresh : ∀ j, (t.jobs j).pid ≠ pid) :
    jobOps.step t (.addjob pid .bg []) =
      some ⟨Function.update t.jobs i (bgJob pid t.nextjid), advance t.nextjid⟩ := by
  have legal : (JobOp.addjob pid .bg []).Legal t := ⟨.inr rfl, fun j _ => fresh j⟩
  simp only [jobOps, if_pos legal, JobOp.run, addjob_of_free free pos, bgJob]

theorem step_deletejob_top {t : JobList} {pid : Int} (jid : Int) {i k : Fin MAXJOBS}
    (found : getjobpid t.jobs pid = some i) (pos : 0 ≤ jid)
    (top : (Function.update t.jobs i clearjob k).jid = jid)
    (le : ∀ j, (Function.update t.jobs i clearjob j).jid ≤ jid) :
    jobOps.step t (.deletejob pid) =
      some ⟨Function.update t.jobs i clearjob, narrowInt (jid + 1)⟩ := by
  simp only [jobOps, JobOp.Legal, if_true, JobOp.run, deletejob_of_found jid found pos top le]

/-- A round ends with the same job, two ids on. -/
theorem exec_climbRound {jid : Int} (pos : 1 ≤ jid) (below : jid + 2 < 2 ^ 31) :
    jobOps.exec (climbed jid) climbRound = some (climbed (jid + 2)) := by
  have add2 : jobOps.step (climbed jid) (.addjob 2 .bg []) =
      some ⟨threeSlots (bgJob 1 jid) (bgJob 2 (jid + 1)) clearjob, advance (jid + 1)⟩ := by
    rw [step_addjob_bg (i := 1) rfl (by decide) (of_decide_eq_true rfl)]
    simp only [climbed, update_threeSlots_one, narrowInt_succ (Int.le_trans (by decide) pos)
      (show jid + 1 < 2 ^ 31 by omega)]
  have del1 : jobOps.step
      ⟨threeSlots (bgJob 1 jid) (bgJob 2 (jid + 1)) clearjob, advance (jid + 1)⟩
      (.deletejob 1) = some ⟨threeSlots clearjob (bgJob 2 (jid + 1)) clearjob, jid + 2⟩ := by
    have next : narrowInt (jid + 1 + 1) = jid + 2 := by
      rw [narrowInt_succ (by omega) (by omega)]
      omega
    rw [step_deletejob_top (jid + 1) (i := 0) (k := 1) rfl (by omega) rfl, next,
      update_threeSlots_zero]
    rw [update_threeSlots_zero]
    exact threeSlots_jid_le (by omega) (by simp only [clearjob]; omega) (Int.le_refl _)
      (by simp only [clearjob]; omega)
  have add1 : jobOps.step ⟨threeSlots clearjob (bgJob 2 (jid + 1)) clearjob, jid + 2⟩
      (.addjob 1 .bg []) =
      some ⟨threeSlots (bgJob 1 (jid + 2)) (bgJob 2 (jid + 1)) clearjob, advance (jid + 2)⟩ := by
    rw [step_addjob_bg (i := 0) rfl (by decide) (of_decide_eq_true rfl), update_threeSlots_zero]
  have del2 : jobOps.step
      ⟨threeSlots (bgJob 1 (jid + 2)) (bgJob 2 (jid + 1)) clearjob, advance (jid + 2)⟩
      (.deletejob 2) = some (climbed (jid + 2)) := by
    rw [step_deletejob_top (jid + 2) (i := 1) (k := 0) rfl (by omega) rfl,
      update_threeSlots_one]
    · rfl
    · rw [update_threeSlots_one]
      exact threeSlots_jid_le (by omega) (Int.le_refl _) (by simp only [clearjob]; omega)
        (by simp only [clearjob]; omega)
  simp only [climbRound, Machine.exec, add2, del1, add1, del2, Option.bind_some]

theorem exec_idClimb {n : Nat} (below : 2 * (n : Int) + 1 < 2 ^ 31) :
    jobOps.exec .start (idClimb n) = some (climbed (2 * n + 1)) := by
  induction n with
  | zero =>
      have add1 : jobOps.step .start (.addjob 1 .bg []) = some (climbed 1) := by
        rw [step_addjob_bg (i := 0) rfl (by decide) (by decide)]
        simp only [climbed, Option.some.injEq, JobList.mk.injEq]
        refine ⟨?_, rfl⟩
        funext i
        by_cases same : i = 0
        · subst same; rfl
        · simp [threeSlots, same, JobList.start, initjobs]
      simp only [idClimb, Machine.exec, add1, Option.bind_some]
      rfl
  | succ n ih =>
      rw [idClimb, Machine.exec_append, ih (by omega), Option.bind_some,
        exec_climbRound (by omega) (by omega)]
      congr 2

/-- The only job has the least `int` as its id. -/
def overflowed : JobList where
  jobs := threeSlots clearjob (bgJob 2 (-2 ^ 31)) clearjob
  nextjid := 1

/-- From the last `int`, `nextjid++` and `maxjid(jobs)+1` have run over. -/
theorem exec_overflow :
    jobOps.exec (climbed (2 ^ 31 - 1)) [.addjob 2 .bg [], .deletejob 1] = some overflowed := by
  have wraps : narrowInt (2 ^ 31 - 1 + 1) = -2 ^ 31 := by decide
  have add2 : jobOps.step (climbed (2 ^ 31 - 1)) (.addjob 2 .bg []) =
      some ⟨threeSlots (bgJob 1 (2 ^ 31 - 1)) (bgJob 2 (-2 ^ 31)) clearjob,
        advance (-2 ^ 31)⟩ := by
    rw [step_addjob_bg (i := 1) rfl (by decide) (of_decide_eq_true rfl)]
    simp only [climbed, update_threeSlots_one, wraps]
  have del1 : jobOps.step
      ⟨threeSlots (bgJob 1 (2 ^ 31 - 1)) (bgJob 2 (-2 ^ 31)) clearjob, advance (-2 ^ 31)⟩
      (.deletejob 1) = some overflowed := by
    rw [step_deletejob_top 0 (i := 0) (k := 2) rfl (by decide) rfl, update_threeSlots_zero]
    · rfl
    · rw [update_threeSlots_zero]
      exact threeSlots_jid_le (by decide) (by decide) (by decide) (by decide)
  simp only [Machine.exec, add2, del1, Option.bind_some]

/-- **`maxjid` can miss the one job there is**: no map answers like this list. -/
theorem maxjid_misses_overflowed_job :
    ∃ ops t, jobOps.exec .start ops = some t ∧ (t.jobs 1).pid = 2 ∧ (t.jobs 1).jid = -2 ^ 31 ∧
      (∀ i, i ≠ 1 → t.jobs i = clearjob) ∧ maxjid t.jobs = 0 ∧
      ¬ ∃ b : JobBook, Represents t.jobs.slots b.map ∧ Answers t b := by
  have others : ∀ i, i ≠ 1 → overflowed.jobs i = clearjob := by decide
  have max_ : maxjid overflowed.jobs = 0 := by decide
  obtain ⟨n, last⟩ : ∃ n : Nat, 2 * (n : Int) + 1 = 2 ^ 31 - 1 := ⟨1073741823, by decide⟩
  refine ⟨idClimb n ++ [.addjob 2 .bg [], .deletejob 1], overflowed, ?_, rfl, rfl, others, max_, ?_⟩
  · rw [Machine.exec_append, exec_idClimb (by omega), last, Option.bind_some, exec_overflow]
  · intro answered
    obtain ⟨b, map, answers⟩ := answered
    rcases answers.maxjid_attained with ⟨empty, -⟩ | ⟨pid, entry, found, same⟩
    · have held : overflowed.jobs.slots 1 = some (2, ⟨-2 ^ 31, .bg, []⟩) := rfl
      have found := map.lookup_of_held held
      rw [empty, Finmap.lookup_empty] at found
      cases found
    · obtain ⟨i, held⟩ := map.lookup.1 found
      obtain ⟨occupied, -, rfl⟩ := slots_eq_some held
      by_cases at_ : i = 1
      · subst at_
        rw [max_] at same
        exact absurd same (by decide)
      · rw [others i at_] at occupied
        exact occupied rfl

end CsappLab.Tsh
