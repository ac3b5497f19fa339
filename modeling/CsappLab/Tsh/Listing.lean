/-
# Tsh.Listing — every child is listed while the table has room

`eval` forks before it knows that the new job fits into the sixteen slots, and
does not look at the result of `addjob`. A child forked with the table full is
never listed, and `sigchld_handler` writes through a null pointer when it stops.
`childrenListed_of_room` says that this is the only way to lose a child: if the
table has a free slot whenever `Fork` returns, every child has its entry
whenever `main` is open to SIGCHLD, and a stopped child is found.

The slot seen at `Fork` is still free at `addjob`: the handlers that can run in
between, with SIGCHLD blocked, change states only.
-/
import CsappLab.Tsh.Reaping

namespace CsappLab.Tsh

set_option autoImplicit false

open CsappLab.Lib

/-- The table has a free slot when `Fork` returns in the parent. -/
def ForkHasRoom (s : St) : Act → Prop
  | .shell (.forked _) => freeSlot s.jobs ≠ none
  | _ => True

instance (s : St) : DecidablePred (ForkHasRoom s) := fun a => by
  unfold ForkHasRoom
  split <;> infer_instance

/-- What `sigchld_handler` needs: the children that can be reported are listed. -/
def ChildrenListed (s : St) : Prop :=
  (.sigchld ∉ s.mask → s.frames = [] → ∀ p ∈ s.kern.procs, ∃ i, (s.jobs i).pid = p) ∧
    ∀ pid sig, Holds s.frames (pid, .stopped sig) → getjobpid s.jobs pid ≠ none

/-- The child `eval` has forked when it calls `addjob`. -/
def Main.toAdd : Main → Option Int
  | .addjob _ _ pid => some pid
  | _ => none

structure Listed (s : St) : Prop where
  entry : ∀ p ∈ s.kern.procs, (∃ i, (s.jobs i).pid = p) ∨ s.main.toAdd = some p
  room : s.main.toAdd ≠ none → freeSlot s.jobs ≠ none

theorem Main.adding_of_toAdd {main : Main} {pid : Int} (at_ : main.toAdd = some pid) :
    main.adding = some pid := by
  unfold Main.toAdd at at_
  split at at_
  · exact at_
  · cases at_

theorem freeSlot_congr {jobs jobs' : Jobs} (pids : ∀ i, (jobs' i).pid = (jobs i).pid) :
    freeSlot jobs' = freeSlot jobs := by
  unfold freeSlot
  simp only [pids]

/-- A step that keeps the pids of the list and the child to add. -/
theorem Listed.keep {s t : St} (ok : Listed s) (pids : ∀ i, (t.jobs i).pid = (s.jobs i).pid)
    (alive : ∀ p ∈ t.kern.procs, p ∈ s.kern.procs) (main : t.main.toAdd = s.main.toAdd) :
    Listed t := by
  constructor
  · intro p there
    rcases ok.entry p (alive p there) with ⟨i, same⟩ | toAdd
    · exact Or.inl ⟨i, by rw [pids, same]⟩
    · exact Or.inr (by rw [main, toAdd])
  · intro toAdd
    rw [freeSlot_congr pids]
    apply ok.room
    rw [← main]
    exact toAdd

/-- A control move of `main` past `addjob` found no slot. -/
theorem MainCtl.toAdd {s : St} {pc : Main} {mask : SigSet} (ctl : MainCtl s pc mask) :
    pc.toAdd = none ∧ (s.main.toAdd = none ∨
      ∃ pid, s.main.toAdd = some pid ∧ (pid < 1 ∨ freeSlot s.jobs = none)) := by
  cases ctl with
  | dispatch at_ fresh =>
      rw [at_]
      rcases fresh.cases with rfl | rfl | ⟨cmd, arg, rfl⟩ | ⟨l, rfl⟩ <;> exact ⟨rfl, Or.inl rfl⟩
  | addjobFails at_ full => rw [at_]; exact ⟨rfl, Or.inr ⟨_, rfl, full⟩⟩
  | jobsBlock at_ => rw [at_]; exact ⟨rfl, Or.inl rfl⟩
  | jobsList at_ => rw [at_]; exact ⟨rfl, Or.inl rfl⟩
  | evalBlock at_ => rw [at_]; exact ⟨rfl, Or.inl rfl⟩
  | addedBg at_ _ => rw [at_]; exact ⟨rfl, Or.inl rfl⟩
  | addedFg at_ _ => rw [at_]; exact ⟨rfl, Or.inl rfl⟩
  | waitTop at_ => rw [at_]; exact ⟨rfl, Or.inl rfl⟩
  | waitSuspend at_ _ => rw [at_]; exact ⟨rfl, Or.inl rfl⟩
  | waitBreak at_ _ => rw [at_]; exact ⟨rfl, Or.inl rfl⟩
  | waitResume at_ => rw [at_]; exact ⟨rfl, Or.inl rfl⟩
  | waitDoneEval at_ => rw [at_]; exact ⟨rfl, Or.inl rfl⟩
  | waitDoneBgfg at_ => rw [at_]; exact ⟨rfl, Or.inl rfl⟩
  | bgfgBlock at_ => rw [at_]; exact ⟨rfl, Or.inl rfl⟩
  | bgfgNone at_ => rw [at_]; exact ⟨rfl, Or.inl rfl⟩
  | bgfgStopped at_ _ _ => rw [at_]; exact ⟨rfl, Or.inl rfl⟩
  | bgfgRunning at_ _ _ => rw [at_]; exact ⟨rfl, Or.inl rfl⟩
  | bgfgDone at_ => rw [at_]; exact ⟨rfl, Or.inl rfl⟩

theorem listed_main {s t : St} {inp : Input} (ok : Listed s) (tracking : Tracking s)
    (hasRoom : ∀ pid, inp = .forked pid → freeSlot s.jobs ≠ none) (move : MainMove s inp t) :
    Listed t := by
  have adding := tracking.adding
  cases move with
  | halt status => exact ok.keep (fun _ => rfl) (fun _ => id) rfl
  | ctl out ctl =>
      obtain ⟨goes, came | ⟨pid, came, full⟩⟩ := ctl.toAdd
      · exact ok.keep (fun _ => rfl) (fun _ => id) (goes.trans came.symm)
      · -- `addjob` has the slot that was free at `Fork`
        have room := ok.room (by simp [came])
        have pos : 2 ≤ pid := by
          unfold Main.toAdd at came
          split at came
          · rename_i at_
            cases came
            rw [at_] at adding
            exact tracking.pids _ adding.1
          · cases came
        rcases full with low | none_
        · omega
        · exact absurd none_ room
  | @fork l prev pid at_ returned pos fresh =>
      have room := hasRoom pid returned
      constructor
      · intro p there
        rcases (AList.mem_insert _).1 there with rfl | old
        · exact Or.inr rfl
        · rcases ok.entry p old with entry | toAdd
          · exact Or.inl entry
          · rw [at_] at toAdd
            cases toAdd
      · intro _
        exact room
  | @storePid l prev pid i at_ free =>
      constructor
      · intro p there
        have pos := tracking.pids p there
        refine Or.inl ?_
        rcases ok.entry p there with ⟨j, same⟩ | toAdd
        · have ne : j ≠ i := by
            rintro rfl
            have := freeSlot_eq_some free
            omega
          exact ⟨j, by simp [St.jobs, JobList.storePid, ne]; exact same⟩
        · rw [at_] at toAdd
          cases toAdd
          exact ⟨i, by simp [St.jobs, JobList.storePid]⟩
      · intro toAdd
        exact absurd rfl toAdd
  | storeState at_ =>
      exact ok.keep (fun j => setState_pid _ _ _ _) (fun _ => id) (by rw [at_]; rfl)
  | storeJid at_ =>
      exact ok.keep (fun j => storeJid_pid _ _ _ _) (fun _ => id) (by rw [at_]; rfl)
  | kill at_ sent =>
      exact ok.keep (fun _ => rfl)
        (fun p => ((Kern.evolves_kill _ _ fun _ => trivial).alive p).1) (by rw [at_]; rfl)
  | setFg at_ => exact ok.keep (fun j => setState_pid _ _ _ _) (fun _ => id) (by rw [at_]; rfl)
  | setBg at_ out =>
      exact ok.keep (fun j => setState_pid _ _ _ _) (fun _ => id) (by rw [at_]; rfl)

theorem listed_handler {s t : St} {f : Frame} {fs : List Frame} {inp : Input} (ok : Listed s)
    (tracking : Tracking s) (masks : MasksOk ∅ s) (top : s.frames = f :: fs)
    (move : HandlerMove s f fs inp t) : Listed t := by
  cases move with
  | halt status => exact ok.keep (fun _ => rfl) (fun _ => id) rfl
  | ctl ctl => exact ok.keep (fun _ => rfl) (fun _ => id) rfl
  | @intKill prev pid at_ sent =>
      have evolves : s.kern.Evolves False (s.kern.kill pid .sigint) :=
        Kern.evolves_kill _ _ (by rintro ⟨⟩)
      exact ok.keep (fun _ => rfl) (fun p => (evolves.alive p).1) rfl
  | tstpSet at_ some_ found =>
      exact ok.keep (fun j => setState_pid _ _ _ _) (fun _ => id) rfl
  | @tstpKill prev pid at_ sent =>
      have evolves : s.kern.Evolves False (s.kern.kill pid .sigtstp) :=
        Kern.evolves_kill _ _ (by rintro ⟨⟩)
      exact ok.keep (fun _ => rfl) (fun p => (evolves.alive p).1) rfl
  | waitpid at_ reported =>
      obtain ⟨pr, found, ⟨ending, -, -, rfl⟩ | ⟨sig, -, -, rfl⟩⟩ := Kern.waitpid_cases reported
      · exact ok.keep (fun _ => rfl) (fun p there => (AList.mem_erase.1 there).2) rfl
      · exact ok.keep (fun _ => rfl) (fun p => (mem_insert_of_lookup found _ p).1) rfl
  | @delete pid ending prev at_ out =>
      -- `pid` has been reaped, so no child loses its entry
      have gone : pid ∉ s.kern.procs :=
        tracking.got pid (.ended ending) ⟨f, by simp [top], by rw [at_]; rfl⟩
      have notAdding : s.main.toAdd = none := by
        cases came : s.main.toAdd with
        | none => rfl
        | some p =>
            exact absurd (by rw [at_]; rfl)
              (masks.not_sigchld (Main.adding_of_toAdd came) f (by simp [top]))
      constructor
      · intro p there
        refine Or.inl ?_
        rcases ok.entry p there with ⟨i, same⟩ | toAdd
        · have other : (s.jobs i).pid ≠ pid := by
            rintro rfl
            exact gone (same ▸ there)
          exact ⟨i, (congrArg Job.pid (deletejob_other other)).trans same⟩
        · rw [notAdding] at toAdd
          cases toAdd
      · intro toAdd
        exact absurd notAdding toAdd
  | stop at_ found out =>
      exact ok.keep (fun j => setState_pid _ _ _ _) (fun _ => id) rfl
  | pop leaves => exact ok.keep (fun _ => rfl) (fun _ => id) rfl

/-- **Every step keeps `Listed`**, if `Fork` returns with a free slot in the table. -/
theorem listed_step {s t : St} {a : Act} (ok : Listed s) (tracking : Tracking s)
    (masks : MasksOk ∅ s) (hasRoom : ForkHasRoom s a) (step_ : step s a = some t) :
    Listed t := by
  cases step_move step_ with
  | arrive sig handled => exact ok.keep (fun _ => rfl) (fun _ => id) rfl
  | quit => exact ok.keep (fun _ => rfl) (fun _ => id) rfl
  | deliver pending unblocked entry =>
      refine ok.keep (fun _ => rfl) (fun _ => id) ?_
      show (interrupted s).2.toAdd = s.main.toAdd
      rcases interrupted_cases s with same | ⟨pid, prev, orig, ret, at_, resumed⟩
      · rw [same]
      · rw [resumed, at_]
        rfl
  | child alive moved =>
      exact ok.keep (fun _ => rfl) (fun p => ((Kern.evolves_child alive moved).alive p).1) rfl
  | main idle move =>
      refine listed_main ok tracking (fun pid returned => ?_) move
      rw [returned] at hasRoom
      exact hasRoom
  | handler top move => exact listed_handler ok tracking masks top move

theorem listed_reaches {s : St} (reached : tsh.Reaches ForkHasRoom s) : Listed s := by
  refine Machine.invariant (P := Listed) ⟨fun p there => ?_, fun toAdd => absurd rfl toAdd⟩ ?_
    reached
  · exact absurd there (AList.notMem_empty p)
  · intro s a t before ok hasRoom step_
    have reachable := before.reachable
    exact listed_step ok (tracking_reachable reachable) (masksOk_reachable reachable) hasRoom
      step_

/-- **Children are listed as long as `Fork` finds room in the table.** -/
theorem childrenListed_of_room {s : St} (reached : tsh.Reaches ForkHasRoom s) :
    ChildrenListed s := by
  have listed := listed_reaches reached
  have masks := masksOk_reachable reached.reachable
  have tracking := tracking_reachable reached.reachable
  constructor
  · intro unblocked idle p there
    rcases listed.entry p there with entry | toAdd
    · exact entry
    · -- SIGCHLD is blocked at `addjob`
      unfold Main.toAdd at toAdd
      split at toAdd
      · rename_i at_
        rw [masks.mask_main idle, at_] at unblocked
        exact absurd (Finset.mem_insert_self _ _) unblocked
      · cases toAdd
  · intro pid sig holds none_
    obtain ⟨f, active, held⟩ := id holds
    have alive : pid ∈ s.kern.procs := tracking.got pid _ holds
    have pos := tracking.pids pid alive
    rcases listed.entry pid alive with ⟨i, same⟩ | toAdd
    · obtain ⟨j, found⟩ := getjobpid_isSome (by omega) same
      rw [found] at none_
      cases none_
    · exact masks.not_sigchld (Main.adding_of_toAdd toAdd) f active (Handler.current_sig held)

/-! ## The full table -/

/-- A job is listed and stops. -/
theorem childrenListed_stopped :
    ∃ s, tsh.exec .start (background 2 ++ [.child 2 (.stop 19), .deliver .sigchld,
        .shell (.waited 2)]) = some s ∧
      Holds s.frames (2, .stopped 19) ∧ getjobpid s.jobs 2 ≠ none := by
  obtain ⟨s, ran⟩ : ∃ s, (tsh.restrict ForkHasRoom).exec .start (background 2 ++
      [.child 2 (.stop 19), .deliver .sigchld, .shell (.waited 2)]) = some s :=
    Option.isSome_iff_exists.1 (by decide +kernel)
  have holds : Holds s.frames (2, .stopped 19) := by
    have frames := Machine.exec_map ran (f := St.frames)
      (c := [⟨.sigchld (.got 2 (.stopped 19)), ∅⟩]) (by decide +kernel)
    rw [frames, holds_cons]
    exact Or.inl rfl
  have reached := Machine.reaches_of_restrict (Machine.reachable_of_exec ran)
  exact ⟨s, Machine.exec_of_restrict ran, holds, (childrenListed_of_room reached).2 2 19 holds⟩

/-- Sixteen jobs, and a seventeenth whose `addjob` fails. -/
def seventeenJobs : List Act :=
  ((List.range 16).flatMap fun n => background (n + 2)) ++
    [.shell (.line "a &\n".toList), .shell .go, .shell (.forked 18)] ++
    List.replicate 2 (.shell .go)

/-- The seventeenth child is stopped, and `sigchld_handler` looks for its job. -/
def stopSeventeenth : List Act :=
  [.child 18 .setpgid, .child 18 .unmask, .child 18 .execve, .child 18 (.stop 20),
    .deliver .sigchld, .shell (.waited 18), .shell .go, .shell .go]

/-- **The seventeenth child is not listed**, and when it stops the shell writes
through a null pointer. -/
theorem seventeenth_child_unlisted :
    ∃ s t, tsh.exec .start seventeenJobs = some s ∧ ¬ ChildrenListed s ∧
      tsh.exec s stopSeventeenth = some t ∧ t.status = .crashed := by
  obtain ⟨s, ran⟩ : ∃ s, tsh.exec .start seventeenJobs = some s :=
    Option.isSome_iff_exists.1 (by decide +kernel)
  obtain ⟨t, ran'⟩ : ∃ t, tsh.exec .start (seventeenJobs ++ stopSeventeenth) = some t :=
    Option.isSome_iff_exists.1 (by decide +kernel)
  have mask : s.mask = ∅ := Machine.exec_map ran (f := St.mask) (by decide +kernel)
  have frames : s.frames = [] := Machine.exec_map ran (f := St.frames) (by decide +kernel)
  have alive : decide (18 ∈ s.kern.procs) = true :=
    Machine.exec_map ran (f := fun s => decide (18 ∈ s.kern.procs)) (by decide +kernel)
  have unlisted : decide (∀ i, (s.jobs i).pid ≠ 18) = true :=
    Machine.exec_map ran (f := fun s => decide (∀ i, (s.jobs i).pid ≠ 18)) (by decide +kernel)
  refine ⟨s, t, ran, fun listed => ?_, ?_, ?_⟩
  · have unblocked : .sigchld ∉ s.mask := by rw [mask]; exact Finset.notMem_empty _
    obtain ⟨i, same⟩ := listed.1 unblocked frames 18 (of_decide_eq_true alive)
    exact of_decide_eq_true unlisted i same
  · rw [Machine.exec_append, ran] at ran'
    exact ran'
  · exact Machine.exec_map ran' (f := St.status) (by decide +kernel)

end CsappLab.Tsh
