/-
# Tsh.Restored — every call gives the mask back

The mask is saved and restored by hand in `eval`, `waitfg`, `do_bgfg` and the
three handlers. `masks_restored` says that none of their paths forgets to, for
each of them called with any mask, any job list and any children, and whatever
happens meanwhile:

* `eval` and `do_bgfg` return to the command loop with the mask they were called
  with. This is `MasksOk` once more, over that mask in place of the empty one.
* `waitfg` returns to its caller with the mask it was called with.
* A handler returns with the mask it was entered under, and the kernel then
  restores the one that was interrupted.
* A child is given the mask of `eval`'s caller before it calls `Execve`.

What runs on top of a call cannot change the mask it goes on with: that one is
saved in the lowest frame (`resume`), and the frames above only save masks of
each other.
-/
import CsappLab.Tsh.Tracking

namespace CsappLab.Tsh

set_option autoImplicit false

open CsappLab.Lib

/-- The machine from a state on. -/
def shellFrom (s : St) : Machine St Act := ⟨s, step⟩

/-! ## `eval` and `do_bgfg` -/

/-- The mask in force once the handlers on the stack have returned. -/
def resume : SigSet → List Frame → SigSet
  | m, [] => m
  | _, f :: fs => resume f.saved fs

/-- The mask `main` has, or goes on with. -/
def St.resumeMask (s : St) : SigSet := resume s.mask s.frames

theorem StackOk.resume_eq {b : SigSet} {main : Main} {m : SigSet} {fs : List Frame}
    (ok : StackOk b main m fs) : resume m fs = main.mask b := by
  induction fs generalizing m with
  | nil => exact ok
  | cons f fs ih => exact ih ok.2.2.2

theorem masksOk_from {b : SigSet} {s t : St} (ok : MasksOk b s)
    (reached : (shellFrom s).Reachable t) : MasksOk b t :=
  Machine.invariant (P := MasksOk b) ok (fun _ _ _ _ ok _ step_ => masksOk_step ok step_) reached

/-- `main` is about to call `eval`, or `do_bgfg` has been called. -/
def Main.Calls : Main → Prop
  | .readLine | .bgfgBlock _ _ => True
  | _ => False

theorem masksOk_calls {s : St} (idle : s.frames = []) (calls : s.main.Calls) :
    MasksOk s.mask s := by
  have at_ : s.main.SavedOk s.mask ∧ s.main.mask s.mask = s.mask := by
    unfold Main.Calls at calls
    split at calls
    next eq => rw [eq]; exact ⟨trivial, rfl⟩
    next eq => rw [eq]; exact ⟨trivial, rfl⟩
    next => exact calls.elim
  refine ⟨at_.1, ?_, fun active => absurd idle active⟩
  rw [idle]
  exact at_.2.symm

/-! ## `waitfg` -/

/-- The mask inside a call of `waitfg` with mask `m`. -/
def WaitPc.mask (m : SigSet) : WaitPc → SigSet
  | .top => m
  | .suspended _ _ => ∅
  | .check _ | .resumed _ | .done _ => Finset.univ

/-- What the call has saved. -/
def WaitPc.SavedOk (m : SigSet) : WaitPc → Prop
  | .top => True
  | .suspended prev orig => prev = m ∧ orig = Finset.univ
  | .check prev | .resumed prev | .done prev => prev = m

/-- Where `waitfg` returns to. -/
def WaitRet.point : WaitRet → Main
  | .eval => .readLine
  | .bgfg prev => .bgfgDone prev

/-- `main` is in a call of `waitfg` with mask `m`. -/
def Waiting (m : SigSet) (pid : Int) (ret : WaitRet) (s : St) : Prop :=
  ∃ pc, s.main = .waitfg pid pc ret ∧ pc.SavedOk m ∧ s.resumeMask = pc.mask m ∧
    (s.frames ≠ [] → ¬ s.main.Suspended)

section Waitfg

variable {s t : St} {m : SigSet} {pid : Int} {ret : WaitRet}

/-- A handler leaves alone what `main` goes on with. -/
theorem HandlerMove.resumeMask {f : Frame} {fs : List Frame} {inp : Input}
    (top : s.frames = f :: fs) (move : HandlerMove s f fs inp t) :
    t.resumeMask = s.resumeMask ∧ t.main = s.main := by
  have same : s.resumeMask = resume f.saved fs := by
    unfold St.resumeMask
    rw [top]
    rfl
  rw [same]
  cases move with
  | halt status => exact ⟨same, rfl⟩
  | ctl ctl => exact ⟨rfl, rfl⟩
  | intKill at_ sent => exact ⟨rfl, rfl⟩
  | tstpSet at_ some_ found => exact ⟨rfl, rfl⟩
  | tstpKill at_ sent => exact ⟨rfl, rfl⟩
  | waitpid at_ reported => exact ⟨rfl, rfl⟩
  | delete at_ out => exact ⟨rfl, rfl⟩
  | stop at_ found out => exact ⟨rfl, rfl⟩
  | pop leaves => exact ⟨rfl, rfl⟩

/-- A step of `main` inside `waitfg` stays inside or returns. -/
theorem waiting_main {inp : Input} (waiting : Waiting m pid ret s) (idle : s.frames = [])
    (move : MainMove s inp t) :
    Waiting m pid ret t ∨ (t.main = ret.point ∧ t.frames = [] ∧ t.mask = m) := by
  obtain ⟨pc, at_, saved, now, awake⟩ := waiting
  have now' : s.mask = pc.mask m := by
    rw [← now, St.resumeMask, idle]
    rfl
  have stays : ∀ {u : St} {pc' : WaitPc}, u.main = .waitfg pid pc' ret → u.frames = [] →
      pc'.SavedOk m → u.mask = pc'.mask m → Waiting m pid ret u := by
    intro u pc' main frames saved' mask
    refine ⟨pc', main, saved', ?_, fun active => absurd frames active⟩
    rw [St.resumeMask, frames]
    exact mask
  cases move with
  | halt status => exact .inl ⟨pc, at_, saved, now, awake⟩
  | ctl out ctl =>
      cases ctl with
      | waitTop at' =>
          rw [at_] at at'
          cases at'
          exact .inl (stays rfl idle now' rfl)
      | waitSuspend at' isFg =>
          rw [at_] at at'
          cases at'
          exact .inl (stays rfl idle ⟨saved, now'⟩ rfl)
      | waitBreak at' notFg =>
          rw [at_] at at'
          cases at'
          exact .inl (stays rfl idle saved now')
      | waitResume at' =>
          rw [at_] at at'
          cases at'
          exact .inl (stays rfl idle trivial saved)
      | waitDoneEval at' =>
          rw [at_] at at'
          cases at'
          exact .inr ⟨rfl, idle, saved⟩
      | waitDoneBgfg at' =>
          rw [at_] at at'
          cases at'
          exact .inr ⟨rfl, idle, saved⟩
      | _ => simp_all
  | _ => simp_all

/-- Any step inside `waitfg` stays inside or returns. -/
theorem waiting_step {a : Act} (waiting : Waiting m pid ret s) (step_ : step s a = some t) :
    Waiting m pid ret t ∨ (t.main = ret.point ∧ t.frames = [] ∧ t.mask = m) := by
  cases step_move step_ with
  | arrive sig handled => exact .inl waiting
  | quit => exact .inl waiting
  | child alive moved => exact .inl waiting
  | main idle move => exact waiting_main waiting idle move
  | @handler inp _ f fs top move =>
      obtain ⟨pc, at_, saved, now, awake⟩ := waiting
      obtain ⟨same, main⟩ := move.resumeMask top
      refine .inl ⟨pc, main.trans at_, saved, same.trans now, fun _ => ?_⟩
      rw [main]
      exact awake (by simp [top])
  | @deliver sig h pending unblocked entry =>
      obtain ⟨pc, at_, saved, now, awake⟩ := waiting
      cases frames : s.frames with
      | cons f fs =>
          have same : interrupted s = (s.mask, s.main) := by simp only [interrupted, frames]
          refine .inl ⟨pc, by rw [same]; exact at_, saved, ?_, fun _ => ?_⟩
          · rw [← now, St.resumeMask, St.resumeMask, frames]
            rfl
          · rw [same]
            exact awake (by simp [frames])
      | nil =>
          have now' : s.mask = pc.mask m := by
            rw [← now, St.resumeMask, frames]
            rfl
          cases pc with
          | suspended prev orig =>
              -- out of `sigsuspend`, whose caller had everything blocked
              have same : interrupted s = (orig, .waitfg pid (.resumed prev) ret) := by
                simp only [interrupted, frames, at_]
              refine .inl ⟨.resumed prev, by rw [same], saved.1, ?_, fun _ => ?_⟩
              · rw [St.resumeMask, same]
                exact saved.2
              · rw [same]
                exact id
          | _ =>
              have same : interrupted s = (s.mask, s.main) := by
                simp only [interrupted, frames, at_]
              refine .inl ⟨_, by rw [same]; exact at_, saved, ?_, fun _ => ?_⟩
              · rw [St.resumeMask, same]
                exact now'
              · rw [same, at_]
                exact id

/-- A call of `waitfg` until it returns. -/
theorem waitfg_returns {s t : St} {pid : Int} {ret : WaitRet} (idle : s.frames = [])
    (called : s.main = .waitfg pid .top ret)
    (reached : (shellFrom s).Reaches (fun u _ => ∃ pc, u.main = .waitfg pid pc ret) t) :
    Waiting s.mask pid ret t ∨ (t.main = ret.point ∧ t.frames = [] ∧ t.mask = s.mask) := by
  have start : Waiting s.mask pid ret s := by
    refine ⟨.top, called, trivial, ?_, fun active => absurd idle active⟩
    rw [St.resumeMask, idle]
    rfl
  refine Machine.invariant (M := shellFrom s)
    (P := fun t => Waiting s.mask pid ret t ∨
      (t.main = ret.point ∧ t.frames = [] ∧ t.mask = s.mask)) (.inl start)
    (fun u a v _ now inside step_ => ?_) reached
  rcases now with waiting | ⟨back, -, -⟩
  · exact waiting_step waiting step_
  · obtain ⟨pc, at_⟩ := inside
    rw [back] at at_
    cases ret <;> cases at_

end Waitfg

/-! ## The handlers -/

/-- A handler entered under `e` is at a control point for which mask `m` is right. -/
def Handler.MaskOk (e m : SigSet) (h : Handler) : Prop := m = h.mask e ∧ h.SavedOk e

/-- The frames from the top down to one that was entered under `e` and will restore
`r`, when the mask is `m`. -/
def Activation (e r : SigSet) : SigSet → List Frame → Prop
  | _, [] => False
  | m, [f] => f.handler.MaskOk e m ∧ f.saved = r
  | m, f :: g :: fs =>
      f.handler.MaskOk (insert f.handler.sig f.saved) m ∧ Activation e r f.saved (g :: fs)

section Handlers

variable {s t : St} {e r : SigSet}

/-- A step of a handler moves on under the right mask, or returns. -/
theorem HandlerMove.maskOk {f : Frame} {fs : List Frame} {inp : Input}
    (top : s.frames = f :: fs) (ok : f.handler.MaskOk e s.mask) (move : HandlerMove s f fs inp t) :
    (∃ h, t.frames = { f with handler := h } :: fs ∧ h.sig = f.handler.sig ∧ h.MaskOk e t.mask) ∨
      (t.frames = fs ∧ t.mask = f.saved) := by
  obtain ⟨now, saved⟩ := ok
  cases move with
  | halt status => exact .inl ⟨f.handler, top, rfl, now, saved⟩
  | ctl ctl => exact .inl ⟨_, rfl, masksOk_handlerCtl now saved ctl⟩
  | intKill at_ sent => rw [at_] at now saved ⊢; exact .inl ⟨_, rfl, rfl, now, saved⟩
  | tstpSet at_ some_ found => rw [at_] at now saved ⊢; exact .inl ⟨_, rfl, rfl, now, saved⟩
  | tstpKill at_ sent => rw [at_] at now saved ⊢; exact .inl ⟨_, rfl, rfl, now, saved⟩
  | waitpid at_ reported => rw [at_] at now ⊢; exact .inl ⟨_, rfl, rfl, now, trivial⟩
  | delete at_ out => rw [at_] at now saved ⊢; exact .inl ⟨_, rfl, rfl, now, saved⟩
  | stop at_ found out => rw [at_] at now saved ⊢; exact .inl ⟨_, rfl, rfl, now, saved⟩
  | pop leaves => exact .inr ⟨rfl, rfl⟩

theorem Activation.ne_nil {m : SigSet} {fs : List Frame} (live : Activation e r m fs) :
    fs ≠ [] := by
  rintro rfl
  exact live

/-- Any step on top of `low` keeps the activation going, or returns from it. -/
theorem activation_step {up low : List Frame} {a : Act} (split_ : s.frames = up ++ low)
    (live : Activation e r s.mask up) (step_ : step s a = some t) :
    (∃ up', t.frames = up' ++ low ∧ Activation e r t.mask up') ∨
      (t.frames = low ∧ t.mask = r) := by
  obtain ⟨f, up, rfl⟩ := List.exists_cons_of_ne_nil live.ne_nil
  rw [List.cons_append] at split_
  cases step_move step_ with
  | arrive sig handled => exact .inl ⟨f :: up, split_, live⟩
  | quit => exact .inl ⟨f :: up, split_, live⟩
  | child alive moved => exact .inl ⟨f :: up, split_, live⟩
  | main idle move =>
      rw [idle] at split_
      cases split_
  | @deliver sig h pending unblocked entry =>
      obtain ⟨isSig, maskId, savedOk⟩ := entryPoint_spec entry
      have same : interrupted s = (s.mask, s.main) := by simp only [interrupted, split_]
      refine .inl ⟨⟨h, s.mask⟩ :: f :: up, ?_, ⟨?_, savedOk _⟩, live⟩
      · rw [same, split_]
        rfl
      · rw [maskId, isSig]
  | @handler inp _ g gs top move =>
      rw [top, List.cons.injEq] at split_
      obtain ⟨rfl, rfl⟩ := split_
      cases up with
      | nil =>
          obtain ⟨ok, rfl⟩ := live
          rcases move.maskOk top ok with ⟨h, frames, -, ok'⟩ | ⟨frames, mask⟩
          · exact .inl ⟨[{ g with handler := h }], frames, ok', rfl⟩
          · exact .inr ⟨frames, mask⟩
      | cons g' up =>
          obtain ⟨ok, rest⟩ := live
          rcases move.maskOk top ok with ⟨h, frames, sig, ok'⟩ | ⟨frames, mask⟩
          · refine .inl ⟨{ g with handler := h } :: g' :: up, frames, ?_, rest⟩
            show h.MaskOk (insert h.sig g.saved) t.mask
            rw [sig]
            exact ok'
          · refine .inl ⟨g' :: up, frames, ?_⟩
            rw [mask]
            exact rest

/-- A handler with nothing left to do has the mask it was entered under. -/
theorem Handler.MaskOk.of_leaves {h : Handler} {m : SigSet} (ok : h.MaskOk e m)
    (leaves : h.Leaves) : m = e := by
  rw [ok.1]
  rcases leaves.cases with rfl | rfl | rfl <;> rfl

/-- A handler from its entry to its return: until then its frame is on the stack. -/
theorem handler_returns {sig : Signal} {u : St} (handled : sig ≠ .sigquit)
    (entered : step s (.deliver sig) = some t)
    (reached : (shellFrom t).Reaches (fun v _ => s.frames.length < v.frames.length) u) :
    (∃ up, u.frames = up ++ s.frames ∧ Activation t.mask (interrupted s).1 u.mask up) ∨
      (u.frames = s.frames ∧ u.mask = (interrupted s).1) := by
  have start : ∃ up, t.frames = up ++ s.frames ∧
      Activation t.mask (interrupted s).1 t.mask up := by
    cases step_move entered with
    | quit => exact absurd rfl handled
    | @deliver sig h pending unblocked entry =>
        obtain ⟨-, maskId, savedOk⟩ := entryPoint_spec entry
        exact ⟨[⟨h, (interrupted s).1⟩], rfl, ⟨(maskId _).symm, savedOk _⟩, rfl⟩
  refine Machine.invariant (M := shellFrom t)
    (P := fun u => (∃ up, u.frames = up ++ s.frames ∧
      Activation t.mask (interrupted s).1 u.mask up) ∨
      (u.frames = s.frames ∧ u.mask = (interrupted s).1)) (.inl start)
    (fun v a w _ now inside step_ => ?_) reached
  rcases now with ⟨up, split_, live⟩ | ⟨back, -⟩
  · exact activation_step split_ live step_
  · rw [back] at inside
    exact absurd inside (Nat.lt_irrefl _)

end Handlers

/-! ## The child -/

/-- A child of a caller with mask `b`: it inherits that mask in `prevMask`, and has set
it when it comes to `Execve`. -/
def Proc.GivenMask (b : SigSet) (pr : Proc) : Prop :=
  pr.prevMask = b ∧ (pr.phase = .unmasked → pr.mask = b)

/-- So has the child of pid `pid`, if there is one. -/
def Kern.GivesMask (b : SigSet) (pid : Int) (k : Kern) : Prop :=
  ∀ pr, k.procs.lookup pid = some pr → pr.GivenMask b

namespace Kern

variable {b : SigSet} {pid p : Int} {k k' : Kern} {pr : Proc}

/-- One process replaced. -/
theorem GivesMask.insert (gives : k.GivesMask b pid) {pr' : Proc} (pending : SigSet)
    (given : p = pid → pr'.GivenMask b) :
    GivesMask b pid ⟨k.procs.insert p pr', pending⟩ := by
  intro pr found
  rcases lookup_insert_cases found with ⟨same, rfl⟩ | ⟨-, there⟩
  · exact given same.symm
  · exact gives pr there

/-- A process replaced by one with the same masks at the same phase. -/
theorem GivesMask.same (gives : k.GivesMask b pid) (found : k.procs.lookup p = some pr)
    {pr' : Proc} (pending : SigSet)
    (same : pr'.prevMask = pr.prevMask ∧ pr'.phase = pr.phase ∧ pr'.mask = pr.mask) :
    GivesMask b pid ⟨k.procs.insert p pr', pending⟩ := by
  apply gives.insert
  rintro rfl
  have mine := gives pr found
  unfold Proc.GivenMask
  rw [same.1, same.2.1, same.2.2]
  exact mine

theorem GivesMask.sends (gives : k.GivesMask b pid) {sig : Signal} (sends : k.Sends sig k') :
    k'.GivesMask b pid := by
  cases sends with
  | nothing => exact gives
  | pending found alive other => exact gives.same found _ ⟨rfl, rfl, rfl⟩
  | continues found alive isCont => exact gives.same found _ ⟨rfl, rfl, rfl⟩

/-- A signal to a group. -/
theorem GivesMask.kill (gives : k.GivesMask b pid) (p : Int) (sig : Signal) :
    (k.kill p sig).GivesMask b pid :=
  gives.sends (kill_sends k p sig)

theorem GivesMask.waitpid (gives : k.GivesMask b pid) {status : ChStatus}
    (reported : k.waitpid p = some (status, k')) : k'.GivesMask b pid := by
  obtain ⟨pr, found, ⟨ending, -, -, rfl⟩ | ⟨sig, -, -, rfl⟩⟩ := Kern.waitpid_cases reported
  · exact fun pr found => gives pr (lookup_erase_cases found).2
  · exact gives.same found _ ⟨rfl, rfl, rfl⟩

/-- A step of a child: it sets its mask between `Setpgid` and `Execve`. -/
theorem GivesMask.child (gives : k.GivesMask b pid) {act : ChildAct}
    (found : k.procs.lookup p = some pr) (moved : k.child p pr act = some k') :
    k'.GivesMask b pid := by
  have mine : p = pid → pr.GivenMask b := fun same => gives pr (same ▸ found)
  cases child_move moved with
  | setpgid running at_ =>
      refine gives.insert _ fun same => ⟨(mine same).1, fun at_ => ?_⟩
      cases at_
  | unmask running at_ => exact gives.insert _ fun same => ⟨(mine same).1, fun _ => (mine same).1⟩
  | execve running at_ =>
      refine gives.insert _ fun same => ⟨(mine same).1, fun at_ => ?_⟩
      cases at_
  | take running pending unblocked takes =>
      cases takes with
      | ends started isInt default_ => exact gives.same found _ ⟨rfl, rfl, rfl⟩
      | stops started isTstp default_ => exact gives.same found _ ⟨rfl, rfl, rfl⟩
      | handled survives => exact gives.same found _ ⟨rfl, rfl, rfl⟩
      | forwards inherited listed sends other =>
          apply GivesMask.sends _ sends
          exact gives.same found _ ⟨rfl, rfl, rfl⟩
  | sigaction running at_ => exact gives.same found _ ⟨rfl, rfl, rfl⟩
  | sigprocmask running started =>
      -- the program changes its own mask
      refine gives.insert _ fun same => ⟨(mine same).1, fun at_ => ?_⟩
      rw [started] at at_
      cases at_
  | ends ending alive by_ => exact gives.same found _ ⟨rfl, rfl, rfl⟩
  | stop running => exact gives.same found _ ⟨rfl, rfl, rfl⟩
  | cont alive => exact gives.same found _ ⟨rfl, rfl, rfl⟩

end Kern

section Child

variable {b : SigSet} {pid : Int} {s t : St}

/-- A `fork` gives the child the mask of `eval`'s caller in `prevMask`. -/
theorem givesMask_main {inp : Input} (ok : MasksOk b s) (gives : s.kern.GivesMask b pid)
    (move : MainMove s inp t) : t.kern.GivesMask b pid := by
  have saved := ok.saved
  cases move with
  | fork at_ returned pos fresh =>
      rw [at_] at saved
      refine gives.insert _ fun _ => ⟨saved, fun at' => ?_⟩
      cases at'
  | kill at_ sent => exact gives.kill _ _
  | _ => exact gives

theorem givesMask_step {a : Act} (ok : MasksOk b s) (gives : s.kern.GivesMask b pid)
    (step_ : step s a = some t) : t.kern.GivesMask b pid := by
  cases step_move step_ with
  | child alive moved => exact gives.child alive moved
  | main idle move => exact givesMask_main ok gives move
  | handler top move =>
      cases move with
      | intKill at_ sent => exact gives.kill _ _
      | tstpKill at_ sent => exact gives.kill _ _
      | waitpid at_ reported => exact gives.waitpid reported
      | _ => exact gives
  | _ => exact gives

/-- Where `fork` returns to the parent. -/
theorem forked_step (forked : step s (.shell (.forked pid)) = some t) :
    ∃ l prev, s.main = .evalFork l prev ∧
      t.kern.procs = s.kern.procs.insert pid (newProc s prev) := by
  unfold step at forked
  split at forked
  · simp only at forked
    split at forked
    · unfold mainStep at forked
      split at forked
      case h_6 at_ same =>
          cases same
          split at forked <;> cases forked
          exact ⟨_, _, at_, rfl⟩
      case h_20 => cases forked
      all_goals contradiction
    · unfold handlerStep at forked
      split at forked
      case h_4 => simp [sigintStep] at forked
      case h_5 => simp [sigtstpStep] at forked
      case h_6 => simp [sigchldStep] at forked
      all_goals contradiction
  · cases forked

/-- The child of a `fork`, from the `fork` on. -/
theorem givesMask_fork {u : St} (ok : MasksOk b s)
    (forked : step s (.shell (.forked pid)) = some t)
    (reached : (shellFrom t).Reachable u) : u.kern.GivesMask b pid := by
  have saved := ok.saved
  have start : t.kern.GivesMask b pid := by
    obtain ⟨l, prev, at_, procs⟩ := forked_step forked
    rw [at_] at saved
    intro pr found
    rw [procs, AList.lookup_insert] at found
    cases found
    refine ⟨saved, fun at' => ?_⟩
    cases at'
  refine (Machine.invariant (M := shellFrom t)
    (P := fun u => MasksOk b u ∧ u.kern.GivesMask b pid) ⟨masksOk_step ok forked, start⟩
    (fun v a w _ now _ step_ => ?_) reached).2
  exact ⟨masksOk_step now.1 step_, givesMask_step now.1 now.2 step_⟩

end Child

/-! ## All of them -/

/-- `main` is back with the mask of `s` whenever it returns to its command loop. -/
def BackAtMain (s : St) : Prop :=
  ∀ t, (shellFrom s).Reachable t → t.main = .readLine → t.resumeMask = s.mask

/-- Every child forked from `s` on calls `Execve` with the mask of `s`. -/
def ChildGivenMask (s : St) : Prop :=
  ∀ t u v pid pr, (shellFrom s).Reachable t → step t (.shell (.forked pid)) = some u →
    (shellFrom u).Reachable v → v.kern.procs.lookup pid = some pr → pr.phase = .unmasked →
    pr.mask = s.mask

/-- The call of `waitfg` made in `s` returns to its caller with the mask of `s`. -/
def WaitfgGivesBack (s : St) (pid : Int) (ret : WaitRet) : Prop :=
  ∀ t, (shellFrom s).Reaches (fun u _ => ∃ pc, u.main = .waitfg pid pc ret) t →
    t.main = ret.point → t.frames = [] ∧ t.mask = s.mask

/-- The handler entered by the step from `s` to `t` is about to return with the mask it
was entered under, and the kernel then restores the one `s` was interrupted with. -/
def HandlerGivesBack (s t : St) : Prop :=
  ∀ u, (shellFrom t).Reaches (fun v _ => s.frames.length < v.frames.length) u →
    (∀ f, u.frames = f :: s.frames → f.handler.Leaves → u.mask = t.mask) ∧
      (u.frames.length ≤ s.frames.length → u.frames = s.frames ∧ u.mask = (interrupted s).1)

/-- **Every path gives the mask back**: `eval` and `do_bgfg`, `waitfg`, and the handlers
of SIGINT, SIGTSTP and SIGCHLD, called in any state; and the child gets it too. -/
theorem masks_restored :
    (∀ s : St, s.frames = [] → s.main.Calls → BackAtMain s ∧ ChildGivenMask s) ∧
      (∀ (s : St) (pid : Int) (ret : WaitRet), s.frames = [] → s.main = .waitfg pid .top ret →
        WaitfgGivesBack s pid ret) ∧
      ∀ (s t : St) (sig : Signal), sig ≠ .sigquit → step s (.deliver sig) = some t →
        HandlerGivesBack s t := by
  refine ⟨fun s idle calls => ⟨?_, ?_⟩, fun s pid ret idle called t reached back => ?_,
    fun s t sig handled entered u reached => ⟨?_, ?_⟩⟩
  · intro t reached back
    have ok := masksOk_from (masksOk_calls idle calls) reached
    rw [St.resumeMask, ok.stack.resume_eq, back]
    rfl
  · intro t u v pid pr before forked reached found at_
    have ok := masksOk_from (masksOk_calls idle calls) before
    exact (givesMask_fork ok forked reached pr found).2 at_
  · rcases waitfg_returns idle called reached with ⟨pc, inside, -⟩ | ⟨-, returned⟩
    · rw [inside] at back
      cases ret <;> cases back
    · exact returned
  · intro f top leaves
    rcases handler_returns handled entered reached with ⟨up, split_, live⟩ | ⟨returned, -⟩
    · -- nothing is on top of the handler's own frame
      have whole : up ++ s.frames = [f] ++ s.frames := split_.symm.trans top
      have own : up = [f] := List.append_cancel_right whole
      subst own
      exact live.1.of_leaves leaves
    · have same := congrArg List.length (top.symm.trans returned)
      simp at same
  · intro low
    rcases handler_returns handled entered reached with ⟨up, split_, live⟩ | returned
    · have pos := List.length_pos_iff.2 live.ne_nil
      rw [split_, List.length_append] at low
      omega
    · exact returned

end CsappLab.Tsh
