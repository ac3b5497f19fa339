/-
# Tsh.JobIds — job ids over any order of `addjob` and `deletejob`

`addjob` hands out `nextjid` and advances it with a wrap at `MAXJID`;
`deletejob` sets it to `maxjid + 1`, with no wrap. `JidsOk` is what the rest of
the shell expects of the result: listed jobs have distinct ids in `1..MAXJID`,
`nextjid` is none of them, and so `do_bgfg`'s detour pid → jid → job ends at the
job it started from.

Ids that never come near `MAXJID` keep it. Near `MAXJID` it can break in two
ways: the wrap can step onto the id of an old job that is still listed, and a
`deletejob` while job `MAXJID` is listed leaves `nextjid = MAXJID + 1` for the
next `addjob` to hand out. `jidsOk_along_iff` says these are the only ways: a
run keeps `JidsOk` exactly when no `addjob` of it is in `LeavesRoom`'s
complement. `idChurn` is a run of the first kind.
-/
import CsappLab.Lib.Transition
import CsappLab.Tsh.Jobs
import Mathlib.Data.Fintype.Basic

namespace CsappLab.Tsh

set_option autoImplicit false

open CsappLab.Lib

/-- One call on the job list. -/
inductive JobCall where
  | addjob (pid : Int) (state : JobState) (cmdline : List Char)
  | deletejob (pid : Int)

namespace JobCall

/-- The job list after the call. -/
def run (t : JobList) : JobCall → JobList
  | .addjob pid state cmdline => (Tsh.addjob t pid state cmdline).2
  | .deletejob pid => (Tsh.deletejob t pid).2

/-- `addjob` is given the pid of a new process. -/
def Legal (t : JobList) : JobCall → Prop
  | .addjob pid _ _ => 1 ≤ pid ∧ ∀ i, (t.jobs i).pid ≠ pid
  | .deletejob _ => True

instance (t : JobList) : DecidablePred (Legal t)
  | .addjob pid _ _ => inferInstanceAs (Decidable (1 ≤ pid ∧ ∀ i, (t.jobs i).pid ≠ pid))
  | .deletejob _ => inferInstanceAs (Decidable True)

/-- An `addjob` that will store its job leaves an id for the next one: `nextjid`
is still within `MAXJID`, and the id it advances to is not listed. -/
def LeavesRoom (t : JobList) : JobCall → Prop
  | .addjob _ _ _ =>
      (freeSlot t.jobs).isSome →
        t.nextjid ≤ MAXJID ∧ ∀ i, (t.jobs i).pid ≠ 0 → (t.jobs i).jid ≠ advance t.nextjid
  | .deletejob _ => True

end JobCall

/-- The job list as a machine whose actions are the legal calls. -/
def jobCalls : Machine JobList JobCall where
  start := .start
  step t call := if call.Legal t then some (call.run t) else none

theorem jobCalls_step {t u : JobList} {call : JobCall} (step : jobCalls.step t call = some u) :
    call.Legal t ∧ u = call.run t := by
  simp only [jobCalls, Option.ite_none_right_eq_some, Option.some.injEq] at step
  exact ⟨step.1, step.2.symm⟩

/-- What the shell expects of job ids. -/
structure JidsOk (t : JobList) : Prop where
  range : ∀ i, (t.jobs i).pid ≠ 0 → 1 ≤ (t.jobs i).jid ∧ (t.jobs i).jid ≤ MAXJID
  distinct : ∀ i j, (t.jobs i).pid ≠ 0 → (t.jobs j).pid ≠ 0 →
    (t.jobs i).jid = (t.jobs j).jid → i = j
  nextUnused : ∀ i, (t.jobs i).pid ≠ 0 → (t.jobs i).jid ≠ t.nextjid
  lookup : ∀ i pid, getjobpid t.jobs pid = some i →
    getjobjid t.jobs (pid2jid t.jobs pid) = some i

theorem wf_reachable {t : JobList} (reached : jobCalls.Reachable t) : t.jobs.WF := by
  refine Machine.invariant (P := fun t => t.jobs.WF) Jobs.WF.initjobs
    (fun s call u _ wf _ step => ?_) reached
  obtain ⟨legal, rfl⟩ := jobCalls_step step
  cases call with
  | addjob pid state cmdline => exact wf_addjob wf legal.1 legal.2 state cmdline
  | deletejob pid => exact wf_deletejob wf pid

/-- `nextjid` is positive, or it has run over and the job that made it do so is listed. -/
def PosOrOver (t : JobList) : Prop :=
  1 ≤ t.nextjid ∨ ∃ i, (t.jobs i).pid ≠ 0 ∧ MAXJID < (t.jobs i).jid

theorem posOrOver_reachable {t : JobList} (reached : jobCalls.Reachable t) : PosOrOver t := by
  refine Machine.invariant (P := PosOrOver) (Or.inl (by decide))
    (fun s call u before pos _ step => ?_) reached
  obtain ⟨legal, rfl⟩ := jobCalls_step step
  cases call with
  | addjob pid state cmdline =>
      have pidPos := legal.1
      rcases addjob_cases s pidPos state cmdline with ⟨-, eq⟩ | ⟨i, -, free, eq⟩
      · simpa only [JobCall.run, eq] using pos
      · simp only [JobCall.run, eq]
        rcases pos with pos | ⟨j, occupied, past⟩
        · by_cases fits : s.nextjid + 1 < 2 ^ 31
          · left
            show 1 ≤ advance s.nextjid
            rw [advance_of_fits (by omega) fits]
            split <;> omega
          · refine Or.inr ⟨i, ?_, ?_⟩
            · simp only [Function.update_self]
              omega
            · simp only [Function.update_self, MAXJID]
              omega
        · have other : j ≠ i := by
            rintro rfl
            exact occupied free
          exact Or.inr ⟨j, by simpa [other] using occupied, by simpa [other] using past⟩
  | deletejob pid =>
      rcases deletejob_cases s pid with ⟨-, eq⟩ | ⟨i, -, eq⟩
      · simpa only [JobCall.run, eq] using pos
      · simp only [JobCall.run, eq]
        have wf := (wf_reachable before).clear i
        have nonneg := maxjid_nonneg (Function.update s.jobs i clearjob)
        by_cases fits : maxjid (Function.update s.jobs i clearjob) + 1 < 2 ^ 31
        · left
          show 1 ≤ narrowInt _
          rw [narrowInt_succ nonneg fits]
          omega
        · obtain ⟨j, attained⟩ := (maxjid_attained _).resolve_left
            (show maxjid (Function.update s.jobs i clearjob) ≠ 0 by omega)
          have past : MAXJID < (Function.update s.jobs i clearjob j).jid := by
            rw [attained, MAXJID]
            omega
          refine Or.inr ⟨j, fun free => ?_, past⟩
          rw [wf.free j free] at past
          cases past

section Distinct

variable {jobs : Jobs} (wf : jobs.WF) (pos : ∀ i, (jobs i).pid ≠ 0 → 1 ≤ (jobs i).jid)
  (distinct : ∀ i j, (jobs i).pid ≠ 0 → (jobs j).pid ≠ 0 → (jobs i).jid = (jobs j).jid → i = j)

include wf pos distinct

/-- With distinct ids from 1 up, a job is found by its id. -/
theorem getjobjid_of_distinct {i : Fin MAXJOBS} (occupied : (jobs i).pid ≠ 0) :
    getjobjid jobs (jobs i).jid = some i := by
  have jidPos := pos i occupied
  unfold getjobjid
  rw [if_neg (by omega), Fin.find?_eq_some_iff]
  refine ⟨by simp, fun j below => ?_⟩
  by_contra same
  have sameJid : (jobs j).jid = (jobs i).jid := by simpa using same
  -- a free slot has job id 0, so `j` is occupied and the ids clash
  have occ : (jobs j).pid ≠ 0 := by
    intro free
    rw [wf.free j free] at sameJid
    simp only [clearjob] at sameJid
    omega
  exact absurd (distinct j i occ occupied sameJid) (Fin.ne_of_lt below)

/-- So the detour over the job id is the identity. -/
theorem lookup_of_distinct {i : Fin MAXJOBS} {pid : Int} (found : getjobpid jobs pid = some i) :
    getjobjid jobs (pid2jid jobs pid) = some i := by
  obtain ⟨pidPos, entry⟩ := getjobpid_eq_some found
  rw [pid2jid_of_getjobpid found]
  exact getjobjid_of_distinct wf pos distinct (by omega)

end Distinct

/-- The three facts about ids give the fourth, about the lookup. -/
theorem JidsOk.mk_of_distinct {t : JobList} (wf : t.jobs.WF)
    (range : ∀ i, (t.jobs i).pid ≠ 0 → 1 ≤ (t.jobs i).jid ∧ (t.jobs i).jid ≤ MAXJID)
    (distinct : ∀ i j, (t.jobs i).pid ≠ 0 → (t.jobs j).pid ≠ 0 →
      (t.jobs i).jid = (t.jobs j).jid → i = j)
    (nextUnused : ∀ i, (t.jobs i).pid ≠ 0 → (t.jobs i).jid ≠ t.nextjid) : JidsOk t :=
  ⟨range, distinct, nextUnused, fun _ _ found =>
    lookup_of_distinct wf (fun i occ => (range i occ).1) distinct found⟩

/-- Where the ids are in order, `nextjid` has not run over. -/
theorem JidsOk.next_pos {t : JobList} (ok : JidsOk t) (reached : jobCalls.Reachable t) :
    1 ≤ t.nextjid := by
  rcases posOrOver_reachable reached with pos | ⟨i, occupied, past⟩
  · exact pos
  · exact absurd (ok.range i occupied).2 (Int.not_le.2 past)

theorem advance_ne {nextjid : Int} (pos : 1 ≤ nextjid) (within : nextjid ≤ MAXJID) :
    nextjid ≠ advance nextjid := by
  simp only [MAXJID] at within
  rw [advance_of_fits (by omega) (by omega)]
  simp only [MAXJID]
  split <;> omega

/-! ## One call -/

section OneCall

variable {t : JobList}

/-- Storing a job keeps `JidsOk` exactly when the call leaves room. -/
theorem jidsOk_store_iff (wf : t.jobs.WF) (pos : 1 ≤ t.nextjid) (ok : JidsOk t)
    {i : Fin MAXJOBS} (free : (t.jobs i).pid = 0) {pid : Int} (pidPos : 1 ≤ pid)
    (fresh : ∀ j, (t.jobs j).pid ≠ pid) (state : JobState) (cmdline : List Char) :
    JidsOk ⟨Function.update t.jobs i ⟨pid, t.nextjid, state, cmdline⟩, advance t.nextjid⟩ ↔
      t.nextjid ≤ MAXJID ∧
        ∀ j, (t.jobs j).pid ≠ 0 → (t.jobs j).jid ≠ advance t.nextjid := by
  have other : ∀ j, (t.jobs j).pid ≠ 0 → j ≠ i := fun j occ same => occ (same ▸ free)
  constructor
  · intro after
    refine ⟨?_, fun j occ => ?_⟩
    · have := (after.range i (by simp; omega)).2
      simpa using this
    · have ne := other j occ
      simpa [ne] using after.nextUnused j (by simpa [ne] using occ)
  · rintro ⟨within, unused⟩
    refine .mk_of_distinct (wf.store pidPos fresh) (fun j occ => ?_) (fun j k hj hk eq => ?_)
      (fun j occ => ?_)
    · by_cases same : j = i
      · subst same
        simpa using ⟨pos, within⟩
      · simp only [Function.update_of_ne same] at occ ⊢
        exact ok.range j occ
    · by_cases same : j = i <;> by_cases same' : k = i
      · rw [same, same']
      · subst same
        simp only [Function.update_self, Function.update_of_ne same'] at hk eq
        exact absurd eq.symm (ok.nextUnused k hk)
      · subst same'
        simp only [Function.update_self, Function.update_of_ne same] at hj eq
        exact absurd eq (ok.nextUnused j hj)
      · simp only [Function.update_of_ne same, Function.update_of_ne same'] at hj hk eq
        exact ok.distinct j k hj hk eq
    · by_cases same : j = i
      · subst same
        simpa using advance_ne pos within
      · simp only [Function.update_of_ne same] at occ ⊢
        exact unused j occ

/-- Deleting a job always keeps `JidsOk`. -/
theorem jidsOk_clear (wf : t.jobs.WF) (ok : JidsOk t) (i : Fin MAXJOBS) :
    JidsOk ⟨Function.update t.jobs i clearjob,
      narrowInt (maxjid (Function.update t.jobs i clearjob) + 1)⟩ := by
  have other : ∀ j, (Function.update t.jobs i clearjob j).pid ≠ 0 → j ≠ i := by
    rintro j occ rfl
    simp [clearjob] at occ
  refine .mk_of_distinct (wf.clear i) (fun j occ => ?_) (fun j k hj hk eq => ?_)
    (fun j occ => ?_)
  · have ne := other j occ
    simp only [Function.update_of_ne ne] at occ ⊢
    exact ok.range j occ
  · have nj := other j hj
    have nk := other k hk
    simp only [Function.update_of_ne nj, Function.update_of_ne nk] at hj hk eq
    exact ok.distinct j k hj hk eq
  · have below := jid_le_maxjid (Function.update t.jobs i clearjob) j
    have nonneg := maxjid_nonneg (Function.update t.jobs i clearjob)
    have within : maxjid (Function.update t.jobs i clearjob) ≤ MAXJID := by
      rcases maxjid_attained (Function.update t.jobs i clearjob) with zero | ⟨k, attained⟩
      · rw [zero]
        decide
      · by_cases free : (Function.update t.jobs i clearjob k).pid = 0
        · rw [← attained, (wf.clear i).free k free]
          decide
        · have ne := other k free
          rw [← attained, Function.update_of_ne ne]
          rw [Function.update_of_ne ne] at free
          exact (ok.range k free).2
    simp only [MAXJID] at within
    simp only [narrowInt_succ nonneg (by omega)]
    omega

/-- One legal call leads from `JidsOk` to `JidsOk` exactly when it leaves room. -/
theorem jidsOk_step_iff (wf : t.jobs.WF) (pos : 1 ≤ t.nextjid) (ok : JidsOk t)
    {call : JobCall} (legal : call.Legal t) : JidsOk (call.run t) ↔ call.LeavesRoom t := by
  cases call with
  | addjob pid state cmdline =>
      simp only [JobCall.run, JobCall.LeavesRoom]
      rcases addjob_cases t legal.1 state cmdline with ⟨none_, eq⟩ | ⟨i, some_, free, eq⟩
      · simp [eq, none_, ok]
      · simp only [eq, some_, Option.isSome_some, forall_const]
        exact jidsOk_store_iff wf pos ok free legal.1 legal.2 state cmdline
  | deletejob pid =>
      simp only [JobCall.run, JobCall.LeavesRoom, iff_true]
      rcases deletejob_cases t pid with ⟨-, eq⟩ | ⟨i, -, eq⟩ <;> rw [eq]
      · exact ok
      · exact jidsOk_clear wf ok i

end OneCall

/-! ## Whole runs -/

theorem jidsOk_start : JidsOk .start :=
  .mk_of_distinct .initjobs (fun _ occ => absurd rfl occ) (fun _ _ occ => absurd rfl occ)
    (fun _ occ => absurd rfl occ)

/-- **A run keeps the ids in order exactly when every `addjob` of it leaves
room.** -/
theorem jidsOk_along_iff {calls : List JobCall} {final : JobList}
    (ran : jobCalls.exec .start calls = some final) :
    (∀ pre post mid, calls = pre ++ post → jobCalls.exec .start pre = some mid → JidsOk mid) ↔
      ∀ pre call post mid, calls = pre ++ call :: post → jobCalls.exec .start pre = some mid →
        call.LeavesRoom mid := by
  refine Machine.holds_along_iff (P := JidsOk) jidsOk_start (fun t call u reached ok step => ?_) ran
  obtain ⟨legal, rfl⟩ := jobCalls_step step
  exact jidsOk_step_iff (wf_reachable reached) (ok.next_pos reached) ok legal

/-- Three jobs, of which the second leaves and the hole is taken again. -/
def holeCalls : List JobCall :=
  [.addjob 7 .fg [], .addjob 8 .bg [], .addjob 9 .bg [], .deletejob 8, .addjob 10 .fg []]

theorem jidsOk_along_holeCalls :
    (∀ pre post mid, holeCalls = pre ++ post →
      jobCalls.exec .start pre = some mid → JidsOk mid) ↔
      ∀ pre call post mid, holeCalls = pre ++ call :: post →
        jobCalls.exec .start pre = some mid → call.LeavesRoom mid := by
  have ran : jobCalls.exec .start holeCalls = some (holeCalls.foldl JobCall.run .start) := rfl
  exact jidsOk_along_iff ran

/-! ## A run that wraps onto a listed id -/

/-- Pid 3 is added, then pid 2 leaves and comes back, then pid 3 leaves. -/
def churnRound : List JobCall :=
  [.addjob 3 .bg [], .deletejob 2, .addjob 2 .bg [], .deletejob 3]

/-- Job 1 stays, and pids 2 and 3 take turns: pid 3 is listed whenever pid 2 is
not, so every round moves `nextjid` two further. -/
def idChurn : Nat → List JobCall
  | 0 => [.addjob 1 .bg [], .addjob 2 .bg []]
  | n + 1 => idChurn n ++ churnRound

/-- A background job with an empty command line. -/
def bgJob (pid jid : Int) : Job := ⟨pid, jid, .bg, []⟩

/-- A list whose first three slots hold `a`, `b` and `c`. -/
def threeSlots (a b c : Job) : Jobs := fun i =>
  if i = 0 then a else if i = 1 then b else if i = 2 then c else clearjob

/-- The list after `n` rounds. -/
def churned (n : Nat) : JobList where
  jobs := threeSlots (bgJob 1 1) (bgJob 2 (2 * n + 2)) clearjob
  nextjid := 2 * n + 3

theorem update_threeSlots_one (a b c d : Job) :
    Function.update (threeSlots a b c) 1 d = threeSlots a d c := by
  funext i
  by_cases same : i = 1
  · subst same; rfl
  · simp [threeSlots, same]

theorem update_threeSlots_two (a b c d : Job) :
    Function.update (threeSlots a b c) 2 d = threeSlots a b d := by
  funext i
  by_cases same : i = 2
  · subst same; rfl
  · simp [threeSlots, same]

theorem threeSlots_jid_le {a b c : Job} {jid : Int} (nonneg : 0 ≤ jid) (ha : a.jid ≤ jid)
    (hb : b.jid ≤ jid) (hc : c.jid ≤ jid) (i : Fin MAXJOBS) : (threeSlots a b c i).jid ≤ jid := by
  unfold threeSlots
  split_ifs
  · exact ha
  · exact hb
  · exact hc
  · exact nonneg

theorem step_addjob {t : JobList} {pid : Int} {i : Fin MAXJOBS} (free : freeSlot t.jobs = some i)
    (pos : 1 ≤ pid) (fresh : ∀ j, (t.jobs j).pid ≠ pid) (jidPos : 1 ≤ t.nextjid)
    (below : t.nextjid < MAXJID) :
    jobCalls.step t (.addjob pid .bg []) =
      some ⟨Function.update t.jobs i (bgJob pid t.nextjid), t.nextjid + 1⟩ := by
  have next : advance t.nextjid = t.nextjid + 1 := by
    simp only [MAXJID] at below
    rw [advance_of_fits (by omega) (by omega), if_neg (by simp only [MAXJID]; omega)]
  have legal : (JobCall.addjob pid .bg []).Legal t := ⟨pos, fresh⟩
  simp only [jobCalls, if_pos legal, JobCall.run, addjob_of_free free pos, next, bgJob]

theorem step_deletejob {t : JobList} {pid : Int} (jid : Int) {i k : Fin MAXJOBS}
    (found : getjobpid t.jobs pid = some i) (pos : 0 ≤ jid) (fits : jid + 1 < 2 ^ 31)
    (top : (Function.update t.jobs i clearjob k).jid = jid)
    (le : ∀ j, (Function.update t.jobs i clearjob j).jid ≤ jid) :
    jobCalls.step t (.deletejob pid) =
      some ⟨Function.update t.jobs i clearjob, jid + 1⟩ := by
  simp only [jobCalls, JobCall.Legal, if_true, JobCall.run,
    deletejob_of_found jid found pos top le, narrowInt_succ pos fits]

theorem exec_churnRound {n : Nat} (small : n < 32766) :
    jobCalls.exec (churned n) churnRound = some (churned (n + 1)) := by
  have add3 : jobCalls.step (churned n) (.addjob 3 .bg []) =
      some ⟨threeSlots (bgJob 1 1) (bgJob 2 (2 * n + 2)) (bgJob 3 (2 * n + 3)), 2 * n + 4⟩ := by
    rw [step_addjob (i := 2) rfl (by decide) (of_decide_eq_true rfl)
      (by simp only [churned]; omega) (by simp only [churned, MAXJID]; omega)]
    simp only [churned, update_threeSlots_two]
    rfl
  have del2 : jobCalls.step
      ⟨threeSlots (bgJob 1 1) (bgJob 2 (2 * n + 2)) (bgJob 3 (2 * n + 3)), 2 * n + 4⟩
      (.deletejob 2) =
      some ⟨threeSlots (bgJob 1 1) clearjob (bgJob 3 (2 * n + 3)), 2 * n + 4⟩ := by
    rw [step_deletejob (2 * n + 3) (i := 1) (k := 2) rfl (by omega) (by omega) rfl]
    · rw [update_threeSlots_one]
      rfl
    · rw [update_threeSlots_one]
      exact threeSlots_jid_le (by omega) (by simp only [bgJob]; omega)
        (by simp only [clearjob]; omega) (by simp only [bgJob]; omega)
  have add2 : jobCalls.step
      ⟨threeSlots (bgJob 1 1) clearjob (bgJob 3 (2 * n + 3)), 2 * n + 4⟩ (.addjob 2 .bg []) =
      some ⟨threeSlots (bgJob 1 1) (bgJob 2 (2 * n + 4)) (bgJob 3 (2 * n + 3)), 2 * n + 5⟩ := by
    rw [step_addjob (i := 1) rfl (by decide) (of_decide_eq_true rfl)
      (by show 1 ≤ 2 * (n : Int) + 4; omega) (by simp only [MAXJID]; omega)]
    simp only [update_threeSlots_one]
    rfl
  have del3 : jobCalls.step
      ⟨threeSlots (bgJob 1 1) (bgJob 2 (2 * n + 4)) (bgJob 3 (2 * n + 3)), 2 * n + 5⟩
      (.deletejob 3) =
      some ⟨threeSlots (bgJob 1 1) (bgJob 2 (2 * n + 4)) clearjob, 2 * n + 5⟩ := by
    rw [step_deletejob (2 * n + 4) (i := 2) (k := 1) rfl (by omega) (by omega) rfl]
    · rw [update_threeSlots_two]
      rfl
    · rw [update_threeSlots_two]
      exact threeSlots_jid_le (by omega) (by simp only [bgJob]; omega)
        (by simp only [bgJob]; omega) (by simp only [clearjob]; omega)
  have last : churned (n + 1) =
      ⟨threeSlots (bgJob 1 1) (bgJob 2 (2 * n + 4)) clearjob, 2 * n + 5⟩ := by
    have jid : 2 * ((n + 1 : Nat) : Int) + 2 = 2 * n + 4 := by omega
    have next : 2 * ((n + 1 : Nat) : Int) + 3 = 2 * n + 5 := by omega
    simp only [churned, jid, next]
  simp only [churnRound, Machine.exec, add3, del2, add2, del3, Option.bind_some, last]

theorem exec_idChurn {n : Nat} (small : n ≤ 32766) :
    jobCalls.exec .start (idChurn n) = some (churned n) := by
  induction n with
  | zero =>
      have add1 : jobCalls.step .start (.addjob 1 .bg []) =
          some ⟨threeSlots (bgJob 1 1) clearjob clearjob, 2⟩ := by
        rw [step_addjob (i := 0) rfl (by decide) (by decide) (by decide) (by decide)]
        simp only [Option.some.injEq, JobList.mk.injEq]
        refine ⟨?_, rfl⟩
        funext i
        by_cases same : i = 0
        · subst same; rfl
        · simp [threeSlots, same, JobList.start, initjobs]
      have add2 : jobCalls.step ⟨threeSlots (bgJob 1 1) clearjob clearjob, 2⟩
          (.addjob 2 .bg []) = some (churned 0) := by
        rw [step_addjob (i := 1) rfl (by decide) (by decide) (by decide) (by decide)]
        simp only [update_threeSlots_one]
        rfl
      simp only [idChurn, Machine.exec, add1, add2, Option.bind_some]
  | succ n ih =>
      rw [idChurn, Machine.exec_append, ih (Nat.le_of_succ_le small), Option.bind_some]
      exact exec_churnRound (Nat.lt_of_succ_le small)

/-- **Two listed jobs can share an id**, and then pid → jid → job ends at the
wrong one: here at job 1 for pid 5. -/
theorem jid_wraps_onto_listed_job :
    ∃ calls final, jobCalls.exec .start calls = some final ∧
      (final.jobs 0).pid = 1 ∧ (final.jobs 4).pid = 5 ∧
      (final.jobs 0).jid = (final.jobs 4).jid ∧
      getjobpid final.jobs 5 = some 4 ∧ getjobjid final.jobs (pid2jid final.jobs 5) = some 0 := by
  refine ⟨idChurn 32766 ++ [.addjob 3 .bg [], .addjob 4 .bg [], .addjob 5 .bg []],
    (JobCall.addjob 5 .bg []).run
      ((JobCall.addjob 4 .bg []).run ((JobCall.addjob 3 .bg []).run (churned 32766))), ?_⟩
  refine ⟨?_, by decide, by decide, by decide, by decide, by decide⟩
  rw [Machine.exec_append, exec_idChurn (Nat.le_refl _)]
  rfl

end CsappLab.Tsh
