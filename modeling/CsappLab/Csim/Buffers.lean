/-
# Csim.Buffers — the read loop, buffer by buffer

The read loop does its body on what `fgets` stores, one buffer after the other
(`readLoop_eq`), so that what comes after a part of a file starts from the state that
part leaves (`processBufs_append`). In a buffer the cache calls the callbacks, which
count (`Called`) and set the flags of the line (`Flagged`). Whatever the state, what a
buffer prints are lines of the verbose mode and nothing else (`processBufs_prints`).
-/
import CsappLab.Csim.Named

namespace CsappLab.Csim

set_option autoImplicit false

open CsappLab.Lib CsappLab.Cache

/-- The state, whether the program goes on or not. -/
def Step.state : Step → Sim
  | .next st => st
  | .stopped st => st

section

variable (pCache : CacheParams) (calloc : Lines → Option Nat) (optarg : OptArg)
  (configShowVerbose : Bool)

/-- The loop body on one buffer after the other. -/
def processBufs : List (List Char) → Sim → Option Step
  | [], st => some (.next st)
  | buf :: bufs, st => do
      match ← processLine pCache calloc optarg configShowVerbose buf st with
      | .stopped st => some (.stopped st)
      | .next st => processBufs bufs st

/-- **The read loop takes the file buffer by buffer.** -/
theorem readLoop_eq {rounds : Nat} {file : List Char} (enough : file.length < rounds) (st : Sim) :
    readLoop pCache calloc optarg configShowVerbose rounds file st =
      processBufs pCache calloc optarg configShowVerbose (fgetsAll MAX_LINE_LEN file) st := by
  have wide : 2 ≤ MAX_LINE_LEN := by decide
  induction rounds generalizing file st with
  | zero => cases enough
  | succ rounds ih =>
      cases read : fgets MAX_LINE_LEN file with
      | none =>
          obtain rfl := fgets_eq_none read
          rfl
      | some taken =>
          obtain ⟨buf, rest⟩ := taken
          have shorter := fgets_shorter wide read
          rw [fgetsAll_cons wide read]
          simp only [readLoop, read, processBufs, Option.bind_eq_bind]
          refine congrArg _ (funext fun step => ?_)
          cases step with
          | stopped st => rfl
          | next st => exact ih (by omega) st

theorem processBufs_append (bufs bufs' : List (List Char)) (st : Sim) :
    processBufs pCache calloc optarg configShowVerbose (bufs ++ bufs') st =
      (processBufs pCache calloc optarg configShowVerbose bufs st).bind fun step =>
        match step with
        | .stopped st => some (.stopped st)
        | .next st => processBufs pCache calloc optarg configShowVerbose bufs' st := by
  induction bufs generalizing st with
  | nil => rfl
  | cons buf bufs ih =>
      simp only [List.cons_append, processBufs, Option.bind_eq_bind, Option.bind_assoc]
      refine congrArg _ (funext fun step => ?_)
      cases step with
      | stopped st => rfl
      | next st => exact ih st

end

/-- How the program ends once the read loop has. -/
def Step.finish : Step → End
  | .next st => .ended (printSummary st)
  | .stopped st => .ended st

/-- The program from `cacheInitialize` on, once the sets are allocated. -/
theorem runMain_eq (calloc : Lines → Option Nat) (optarg : OptArg) (configShowVerbose : Bool)
    (param_s paramE param_b : BitVec 32) (file : List Char) :
    runMain true calloc optarg configShowVerbose param_s paramE param_b file =
      (processBufs (cacheParams param_s paramE param_b) calloc optarg configShowVerbose
        (fgetsAll MAX_LINE_LEN file) (initSim ⟨fun _ => ⟨none, 0⟩, ∅⟩)).map Step.finish := by
  rw [← readLoop_eq _ _ _ _ (Nat.lt_succ_self _)]
  show (readLoop _ _ _ _ _ _ _).bind _ = _
  cases readLoop (cacheParams param_s paramE param_b) calloc optarg configShowVerbose
      (file.length + 1) file (initSim ⟨fun _ => ⟨none, 0⟩, ∅⟩) with
  | none => rfl
  | some step => cases step <;> rfl

/-! ## What the callbacks do -/

/-- From `st` to `st'` the callbacks of `events` have been called. -/
structure Called (events : List Event) (st st' : Sim) : Prop where
  hits : st'.hitCnt = st.hitCnt + BitVec.ofNat 32 (events.count .hit)
  misses : st'.missCnt = st.missCnt + BitVec.ofNat 32 (events.count .miss)
  evictions : st'.evictionCnt = st.evictionCnt + BitVec.ofNat 32 (events.count .eviction)
  mem : st'.mem = st.mem
  calls : st'.calls = st.calls
  out : st'.out = st.out
  memOpInfo : st'.memOpInfo = st.memOpInfo

theorem called_callback (event : Event) (st : Sim) : Called [event] st (st.callback event) := by
  cases event <;>
    constructor <;>
      simp [Sim.callback, Sim.hit_callback, Sim.miss_callback, Sim.eviction_callback]

theorem Called.trans {events events' : List Event} {st st' st'' : Sim}
    (first : Called events st st') (second : Called events' st' st'') :
    Called (events ++ events') st st'' := by
  constructor
  · rw [second.hits, first.hits, List.count_append, BitVec.ofNat_add, BitVec.add_assoc]
  · rw [second.misses, first.misses, List.count_append, BitVec.ofNat_add, BitVec.add_assoc]
  · rw [second.evictions, first.evictions, List.count_append, BitVec.ofNat_add, BitVec.add_assoc]
  · rw [second.mem, first.mem]
  · rw [second.calls, first.calls]
  · rw [second.out, first.out]
  · rw [second.memOpInfo, first.memOpInfo]

theorem called_foldl (events : List Event) (st : Sim) :
    Called events st (events.foldl Sim.callback st) := by
  induction events generalizing st with
  | nil => constructor <;> simp
  | cons event events ih => exact (called_callback event st).trans (ih _)

/-- From `st` to `st'` the callbacks of `events` have been called, for the flags. -/
structure Flagged (events : List Event) (st st' : Sim) : Prop where
  miss : st'.missFlag = (st.missFlag || decide (Event.miss ∈ events))
  hit : st'.hitFlag = (st.hitFlag || decide (Event.hit ∈ events))
  eviction : st'.evictionFlag = (st.evictionFlag || decide (Event.eviction ∈ events))

theorem flagged_callback (event : Event) (st : Sim) : Flagged [event] st (st.callback event) := by
  cases event <;>
    constructor <;>
      simp [Sim.callback, Sim.hit_callback, Sim.miss_callback, Sim.eviction_callback]

theorem Flagged.trans {events events' : List Event} {st st' st'' : Sim}
    (first : Flagged events st st') (second : Flagged events' st' st'') :
    Flagged (events ++ events') st st'' := by
  constructor
  · rw [second.miss, first.miss]
    simp [Bool.or_assoc]
  · rw [second.hit, first.hit]
    simp [Bool.or_assoc]
  · rw [second.eviction, first.eviction]
    simp [Bool.or_assoc]

theorem flagged_foldl (events : List Event) (st : Sim) :
    Flagged events st (events.foldl Sim.callback st) := by
  induction events generalizing st with
  | nil => constructor <;> simp
  | cons event events ih => exact (flagged_callback event st).trans (ih _)

/-! ## What is printed -/

/-- A line of the verbose mode. -/
def Out.IsVerbose : Out → Prop
  | .verbose _ _ _ _ => True
  | _ => False

/-- What is printed at a line of the file whose tokens are accepted. -/
def Out.OfLine (o : Out) : Prop :=
  o.IsVerbose ∨ o = .message noSpaceText

theorem Out.OfLine.eq_noSpaceText {text : String} (ofLine : Out.OfLine (.message text)) :
    text = noSpaceText := by
  rcases ofLine with verbose | same
  · exact verbose.elim
  · exact Out.message.inj same

/-- What has been printed from `st` to `st'`. -/
def Prints (st st' : Sim) : Prop :=
  ∃ shown, st'.out = st.out ++ shown ∧ ∀ o ∈ shown, o.OfLine

theorem prints_same {st st' : Sim} (same : st'.out = st.out) : Prints st st' :=
  ⟨[], by simp [same], by simp⟩

theorem Prints.trans {st st' st'' : Sim} (first : Prints st st') (second : Prints st' st'') :
    Prints st st'' := by
  obtain ⟨shown, out, verbose⟩ := first
  obtain ⟨shown', out', verbose'⟩ := second
  refine ⟨shown ++ shown', by rw [out', out, List.append_assoc], fun o member => ?_⟩
  rcases List.mem_append.1 member with old | new
  · exact verbose o old
  · exact verbose' o new

section

variable {pCache : CacheParams} {calloc : Lines → Option Nat} {optarg : OptArg}
  {configShowVerbose : Bool} {st : Sim} {step : Step}

/-- A call of the cache prints nothing if it returns. -/
theorem process_out (processed : process pCache calloc st = some step) :
    Prints st step.state ∧ ∀ st', step = .next st' → st'.out = st.out := by
  simp only [process, Option.bind_eq_bind, Option.bind_eq_some_iff] at processed
  obtain ⟨outcome, -, ends⟩ := processed
  cases outcome with
  | returned events mem =>
      cases ends
      have same := (called_foldl events { st with
        mem := mem, calls := st.calls ++ [st.memOpInfo.addr] }).out
      refine ⟨prints_same same, fun st' next => ?_⟩
      cases next
      exact same
  | exited events mem =>
      cases ends
      refine ⟨⟨[.message noSpaceText], (called_foldl events _).out, fun o member => ?_⟩,
        fun st' next => by cases next⟩
      exact .inr (List.mem_singleton.1 member)

theorem simulate_out (simulated : simulate pCache calloc st = some step) :
    Prints st step.state ∧ ∀ st', step = .next st' → st'.out = st.out := by
  unfold simulate at simulated
  by_cases modify : st.memOpInfo.memOpType = 'M'
  · simp only [if_pos modify, Option.bind_eq_bind, Option.bind_eq_some_iff] at simulated
    obtain ⟨first, load, second⟩ := simulated
    obtain ⟨printed, silent⟩ := process_out load
    cases first with
    | stopped st₁ =>
        cases second
        exact ⟨printed, fun st' next => by cases next⟩
    | next st₁ =>
        obtain ⟨printed', silent'⟩ := process_out second
        exact ⟨printed.trans printed', fun st' next =>
          (silent' st' next).trans (silent st₁ rfl)⟩
  · simp only [if_neg modify] at simulated
    by_cases single : st.memOpInfo.memOpType = 'L' ∨ st.memOpInfo.memOpType = 'S'
    · rw [if_pos single] at simulated
      exact process_out simulated
    · rw [if_neg single] at simulated
      cases simulated
      refine ⟨prints_same rfl, fun st' next => ?_⟩
      cases next
      rfl

theorem showLine_prints (configShowVerbose : Bool) (currLine : List Char) (st : Sim) :
    Prints st (clearFlags (showLine configShowVerbose currLine st)) := by
  by_cases shows : configShowVerbose ∧ st.memOpInfo.memOpType ≠ 'I'
  · refine ⟨_, by simp only [clearFlags, showLine, if_pos shows]; rfl, ?_⟩
    intro o member
    rw [List.mem_singleton.1 member]
    exact .inl trivial
  · exact prints_same (by simp only [clearFlags, showLine, if_neg shows])

theorem processLine_prints {buf : List Char}
    (processed : processLine pCache calloc optarg configShowVerbose buf st = some step) :
    Prints st step.state := by
  obtain ⟨memOpInfo, parsed, -⟩ := parseLine_named optarg (cString buf) st.memOpInfo
  simp only [processLine, parsed, Option.bind_eq_bind, Option.bind_some,
    Option.bind_eq_some_iff] at processed
  obtain ⟨simulated, ran, ends⟩ := processed
  have printed := (simulate_out ran).1
  cases simulated with
  | stopped st₁ =>
      cases ends
      exact printed
  | next st₁ =>
      cases ends
      exact printed.trans (showLine_prints _ _ _)

theorem processBufs_prints {bufs : List (List Char)}
    (ran : processBufs pCache calloc optarg configShowVerbose bufs st = some step) :
    Prints st step.state := by
  induction bufs generalizing st with
  | nil =>
      cases ran
      exact prints_same rfl
  | cons buf bufs ih =>
      simp only [processBufs, Option.bind_eq_bind, Option.bind_eq_some_iff] at ran
      obtain ⟨first, processed, rest⟩ := ran
      have printed := processLine_prints processed
      cases first with
      | stopped st₁ =>
          cases rest
          exact printed
      | next st₁ => exact printed.trans (ih rest)

end

end CsappLab.Csim
