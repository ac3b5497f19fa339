/-
# Driver.Scored — from the matrices to the points

The whole way of `transpose_submit` through the driver: `tracegen` runs it and validates the
result, valgrind writes its accesses into a trace, `eval_perf` filters the trace, a simulator
counts the misses on the cache with 32 sets of one line of 32 bytes, `test-trans` prints them,
and `driver.py` turns them into points. The simulator here is this repository's own, in the
place of `csim-ref`, of which there is no source; `Watched` says what valgrind is relied upon
for: the trace has the accesses of the run, in order, with some others before and behind.

The misses that are reported are at most those of the function's lines and one for each other
access, so that all three sizes score in full as long as the other accesses are few
(`evalPerf_submission`).
-/
import CsappLab.Csim.Options
import CsappLab.Driver.EvalPerf
import CsappLab.Trans.Graded

namespace CsappLab.Driver

set_option autoImplicit false

open CsappLab.Lib CsappLab.Cache CsappLab.Csim CsappLab.Trans

/-! ## The simulator -/

/-- The arguments in `./csim-ref -s %u -E %u -b %u -t trace.f%d`. -/
def csimArgs (s E b : BitVec 32) (i : Nat) (part : List Char) : List Given :=
  [.num .s (Nat.toDigits 10 s.toNat), .num .E (Nat.toDigits 10 E.toNat),
    .num .b (Nat.toDigits 10 b.toNat), .t ("trace.f".toList ++ Nat.toDigits 10 i) (some part)]

/-- What the simulator leaves in `.csim_results`. -/
def csimResults (locals : Param → BitVec 32) (calloc : Lines → Option Nat) (optarg : OptArg)
    (s E b : BitVec 32) (i : Nat) (part : List Char) : Option (List Char) :=
  match Csim.main locals (csimArgs s E b i part) true calloc optarg with
  | some (.ran (.ended st)) =>
      match st.out.getLast? with
      | some (.summary hits misses evictions) => some (resultsText hits misses evictions)
      | _ => none
  | _ => none

section Simulator

variable (locals : Param → BitVec 32) {calloc : Lines → Option Nat} (optarg : OptArg)

/-- The counters for some accesses, from the empty cache. -/
def counter (event : Event) (addrs : List (BitVec 64)) : BitVec 32 :=
  BitVec.ofNat 32 ((runEvents (cacheParams 5 1 5) (fun _ => []) addrs).flatten.count event)

theorem csimResults_render (allocates : Allocates calloc) (i : Nat) (lines : List TraceLine) :
    csimResults locals calloc optarg 5 1 5 i (render lines true) =
      some (resultsText (counter .hit (lines.flatMap TraceLine.accesses)).toInt
        (counter .miss (lines.flatMap TraceLine.accesses)).toInt
        (counter .eviction (lines.flatMap TraceLine.accesses)).toInt) := by
  have widths : Widths 5 5 := ⟨by decide, by decide, by decide, by decide⟩
  have read : readOptions locals (csimArgs 5 1 5 i (render lines true)) =
      .goesOn ⟨false, 5, 1, 5, some (render lines true), false⟩ := by
    have five : positiveArg (Nat.toDigits 10 (5 : BitVec 32).toNat) = some 5 := by decide
    have one : positiveArg (Nat.toDigits 10 (1 : BitVec 32).toNat) = some 1 := by decide
    unfold readOptions csimArgs
    simp only [List.foldlM_cons, List.foldlM_nil, takeOption, five, one]
    rfl
  have positive : 1 ≤ (1 : BitVec 32).toNat := by decide
  obtain ⟨st, ended, after⟩ := runMain_after allocates widths positive optarg false
    (noNul_render lines true)
  rw [accessesFrom_render] at after
  unfold csimResults Csim.main
  rw [read]
  simp only [ended, Option.map_some, printSummary, List.getLast?_append, List.getLast?_singleton,
    Option.some_or, after.hits, after.misses, after.evictions]
  rfl

/-- An access misses at most once. -/
theorem misses_le_length (all : Nat → List (BitVec 64)) (addrs : List (BitVec 64)) :
    (runEvents (cacheParams 5 1 5) all addrs).flatten.count .miss ≤ addrs.length := by
  have total := hits_add_misses (cacheParams 5 1 5) all addrs
  omega

/-- Between other accesses the accesses of a transpose miss as they do on the empty cache, at
most. -/
theorem counter_between {M N baseA baseB : Nat} (aligned : Aligned M N baseA baseB)
    (before after : List (BitVec 64)) :
    (counter .miss (before ++ (submitLog M N).map (rowMajor M N baseA baseB) ++ after)).toNat ≤
      submitMisses M N + (before.length + after.length) := by
  have oneLine : (cacheParams 5 1 5).paramE.toNat = 1 := by decide
  have cold := misses_le_cold oneLine
    (before.foldl (access (cacheParams 5 1 5)) fun _ => [])
    ((submitLog M N).map (rowMajor M N baseA baseB))
  rw [aligned.changes fun access member => mem_submitLog.1 member] at cold
  have front := misses_le_length (fun _ => []) before
  have back := misses_le_length
    ((before ++ (submitLog M N).map (rowMajor M N baseA baseB)).foldl
      (access (cacheParams 5 1 5)) fun _ => []) after
  have cut : ∀ addrs, (counter .miss addrs).toNat ≤
      (runEvents (cacheParams 5 1 5) (fun _ => []) addrs).flatten.count .miss := by
    intro addrs
    unfold counter
    rw [BitVec.toNat_ofNat]
    exact Nat.mod_le _ _
  replace cut := cut (before ++ (submitLog M N).map (rowMajor M N baseA baseB) ++ after)
  rw [runEvents_append, runEvents_append, List.flatten_append, List.flatten_append,
    List.count_append, List.count_append] at cut
  have sum : tally (fun _ => 0) ((submitLog M N).map (lineOf M N)) = submitMisses M N := rfl
  omega

end Simulator

/-! ## The run under valgrind -/

/-- What is left when valgrind watches `tracegen` call `transpose_submit`: the exit status, the
markers, and a trace of which the part between them has the accesses to the matrices in
program order, and other accesses to low memory before and after them. -/
structure Watched {α : Type} [DecidableEq α] [OfNat α 0] (M N baseA baseB : Nat) (m : Mem α)
    (traced : Traced) where
  outcome : Outcome α
  ran : tracegen M N 0 [submission] m = some outcome
  flag : traced.flag = outcome.returned
  marker_start : BitVec 64
  marker_end : BitVec 64
  marker : traced.marker = markerText marker_start marker_end
  lines : List FullLine
  rest : List Char
  trace : traced.trace = fullText lines ++ rest
  ended : ∃ l ∈ lines.filterMap FullLine.data, l.address = marker_end
  before : List (BitVec 64)
  log : List Access
  after : List (BitVec 64)
  logged : outcome.mem.accesses = m.accesses ++ log
  accesses : (between marker_start marker_end (lines.filterMap FullLine.data)).flatMap
    TraceLine.accesses = before ++ log.map (rowMajor M N baseA baseB) ++ after

/-- The accesses in the trace that are not to the matrices. -/
def Watched.others {α : Type} [DecidableEq α] [OfNat α 0] {M N baseA baseB : Nat} {m : Mem α}
    {traced : Traced} (watched : Watched M N baseA baseB m traced) : Nat :=
  watched.before.length + watched.after.length

section

variable {α : Type} [DecidableEq α] [OfNat α 0] {M N baseA baseB : Nat} {m : Mem α}
  {system : Nat → Traced} {calloc : Lines → Option Nat}

/-- `tracegen` returns 0, and the accesses of its run are those of `submitLog`. -/
theorem Watched.passes (cols : M ≤ INT_MAX - 8) (rows : N ≤ INT_MAX - 8)
    (watched : Watched M N baseA baseB m (system 0)) :
    watched.outcome.returned = 0 ∧ watched.log = submitLog M N := by
  obtain ⟨m', submitted, -, -, ran⟩ := tracegen_submission ⟨cols, rows⟩ m
  have same := watched.ran
  rw [ran, Option.some.injEq] at same
  constructor
  · rw [← same]
  · have logged := watched.logged
    rw [← same, transposeSubmit_logs m m' submitted] at logged
    exact (List.append_cancel_left logged).symm

/-- What `eval_perf` does with the run. -/
theorem Watched.evaluated (cols : M ≤ INT_MAX - 8) (rows : N ≤ INT_MAX - 8)
    (aligned : Aligned M N baseA baseB) (watched : Watched M N baseA baseB m (system 0))
    (locals : Param → BitVec 32) (allocates : Allocates calloc) (optarg : OptArg) :
    ∃ func, evalPerf system (csimResults locals calloc optarg 5 1 5) ([] : List (TransFunc α)) =
        some ([func], ⟨0, 1, func.num_misses⟩) ∧
      func.num_misses.toNat ≤ submitMisses M N + watched.others := by
  obtain ⟨returned, log⟩ := watched.passes cols rows
  have flag : (system 0).flag = 0 := watched.flag.trans returned
  obtain ⟨f, filtered, part, closed⟩ := filterBufs_render watched.marker_start
    watched.lines watched.rest (.inr watched.ended) ⟨false, none, [], false⟩ rfl
  rw [copied_false, List.nil_append] at part
  have simulated := csimResults_render locals optarg allocates 0
    (between watched.marker_start watched.marker_end (watched.lines.filterMap FullLine.data))
  rw [← part, watched.accesses, log] at simulated
  obtain ⟨func, addr, evaluated, same⟩ : ∃ (func : TransFunc α) (addr : Option (BitVec 64)),
      evalFunction system (csimResults locals calloc optarg 5 1 5) 0 submission initResults none =
        some (func, ⟨0, 1, func.num_misses⟩, addr) ∧
      func.num_misses = counter .miss
        (watched.before ++ (submitLog M N).map (rowMajor M N baseA baseB) ++ watched.after) :=
    ⟨_, _, evalFunction_submission initResults rfl flag watched.marker (watched.trace ▸ filtered)
      (closed.2 watched.ended) simulated, rfl⟩
  refine ⟨func, ?_, ?_⟩
  · show (evalFunction system _ 0 submission initResults none).bind _ = _
    rw [evaluated]
    rfl
  · rw [same]
    exact counter_between aligned watched.before watched.after

/-! ## A trace -/

theorem accessLine_accesses {op : Op} (one : op = .L ∨ op = .S) (addr : BitVec 64) :
    (accessLine op addr).accesses = [addr] := by
  rcases one with rfl | rfl
  · exact congrArg (fun a => [a]) (accessLine_address .L addr)
  · exact congrArg (fun a => [a]) (accessLine_address .S addr)

/-- The lines of some accesses between those to the markers. -/
def plainLines (marker_start marker_end : BitVec 64) (addrs : List (BitVec 64)) :
    List TraceLine :=
  accessLine .S marker_start :: (addrs.map (accessLine .L) ++ [accessLine .S marker_end])

theorem data_plainLines (marker_start marker_end : BitVec 64) (addrs : List (BitVec 64)) :
    ((plainLines marker_start marker_end addrs).map .access).filterMap FullLine.data =
      plainLines marker_start marker_end addrs := by
  have each : ∀ l ∈ plainLines marker_start marker_end addrs,
      (FullLine.data ∘ FullLine.access) l = some l := by
    intro l member
    have isData : l.op ≠ .I := by
      simp only [plainLines, List.mem_cons, List.mem_append, List.mem_map, List.not_mem_nil,
        or_false] at member
      rcases member with rfl | ⟨addr, -, rfl⟩ | rfl <;> exact Op.noConfusion
    exact if_neg isData
  rw [List.filterMap_map, List.filterMap_congr each, List.filterMap_some]

/-- There is a run under valgrind with just the two other accesses, for matrices and markers in
low memory. -/
theorem exists_watched (cols : M ≤ INT_MAX - 8) (rows : N ≤ INT_MAX - 8)
    {marker_start marker_end : BitVec 64} (apart : marker_start ≠ marker_end)
    (lowStart : isLow marker_start = true) (lowEnd : isLow marker_end = true)
    (lowRun : ∀ access ∈ submitLog M N, isLow (rowMajor M N baseA baseB access) = true ∧
      rowMajor M N baseA baseB access ≠ marker_end) (m : Mem α) :
    ∃ traced, ∃ watched : Watched M N baseA baseB m traced, watched.others = 2 := by
  obtain ⟨m', submitted, -, -, ran⟩ := tracegen_submission ⟨cols, rows⟩ m
  let addrs := (submitLog M N).map (rowMajor M N baseA baseB)
  have stop : ∃ l ∈ plainLines marker_start marker_end addrs, l.address = marker_end :=
    ⟨accessLine .S marker_end, by simp [plainLines], accessLine_address .S marker_end⟩
  have accesses : (between marker_start marker_end
      (plainLines marker_start marker_end addrs)).flatMap TraceLine.accesses =
      [marker_start] ++ addrs ++ [marker_end] := by
    unfold plainLines
    rw [between_region apart (accessLine_address _ _) ?_ (accessLine_address _ _) []]
    · have low : ∀ l ∈ plainLines marker_start marker_end addrs, isLow l.address = true := by
        intro l member
        simp only [plainLines, List.mem_cons, List.mem_append, List.mem_map, List.not_mem_nil,
          or_false] at member
        rcases member with rfl | ⟨addr, here, rfl⟩ | rfl
        · rw [accessLine_address, lowStart]
        · obtain ⟨access, inLog, rfl⟩ := List.mem_map.1 here
          rw [accessLine_address, (lowRun access inLog).1]
        · rw [accessLine_address, lowEnd]
      have each : (addrs.map (accessLine .L)).flatMap TraceLine.accesses = addrs := by
        rw [List.flatMap_map]
        simp only [accessLine_accesses (.inl rfl), List.flatMap_singleton']
      have all := List.filter_eq_self.2 low
      unfold plainLines at all
      rw [all, List.flatMap_cons, List.flatMap_append, each, List.flatMap_singleton,
        accessLine_accesses (.inr rfl), accessLine_accesses (.inr rfl), List.append_assoc]
    · intro l member
      obtain ⟨addr, here, rfl⟩ := List.mem_map.1 member
      obtain ⟨access, inLog, rfl⟩ := List.mem_map.1 here
      rw [accessLine_address]
      exact (lowRun access inLog).2
  refine ⟨⟨0, markerText marker_start marker_end,
    fullText ((plainLines marker_start marker_end addrs).map .access) ++ []⟩, ?_⟩
  exact ⟨{
    outcome := ⟨0, none, m'⟩
    ran := ran
    flag := rfl
    marker_start := marker_start
    marker_end := marker_end
    marker := rfl
    lines := (plainLines marker_start marker_end addrs).map .access
    rest := []
    trace := rfl
    ended := by rw [data_plainLines]; exact stop
    before := [marker_start]
    log := submitLog M N
    after := [marker_end]
    logged := transposeSubmit_logs m m' submitted
    accesses := by rw [data_plainLines]; exact accesses }, rfl⟩

/-! ## The points -/

/-- The line of `test-trans` that `driver.py` looks for. -/
def testTransLine (results : Results) : List Char :=
  if results.funcid = -1 then "TEST_TRANS_RESULTS=0:0\n".toList
  else "TEST_TRANS_RESULTS=".toList ++
    (formatInt results.correct ++ ':' :: (formatInt results.misses.toInt ++ ['\n']))

/-- `re.findall(r'(\d+)', line)`. -/
def findall (line : List Char) : List (List Char) :=
  (line.splitOnP fun c => !c.isDigit).filter (· ≠ [])

/-- `int(result[0])` and `int(result[1])`. -/
def readResult (line : List Char) : Option (Nat × Nat) :=
  match findall line with
  | correct :: misses :: _ => some (digitsVal 10 correct, digitsVal 10 misses)
  | _ => none

/-- `computeMissScore`, with `prorated` for what is rounded between the two bounds. -/
def computeMissScore (prorated : Nat → Nat) (miss lower upper full_score : Nat) : Nat :=
  if miss ≤ lower then full_score else if upper ≤ miss then 0 else prorated miss

/-- The sizes that the driver runs, with the bounds and the points of `computeMissScore`. -/
def driverSizes : List (Nat × Nat × Nat × Nat × Nat) :=
  [(32, 32, 300, 600, 8), (64, 64, 1300, 2000, 8), (61, 67, 2000, 3000, 10)]

theorem findall_other {other : List Char} (others : ∀ c ∈ other, c.isDigit = false)
    (s : List Char) : findall (other ++ s) = findall s := by
  induction other with
  | nil => rfl
  | cons c other ih =>
      have rest := ih fun d member => others d (List.mem_cons_of_mem _ member)
      have first : (!c.isDigit) = true := by rw [others c List.mem_cons_self]; rfl
      rw [← rest]
      unfold findall
      rw [List.cons_append, List.splitOnP_cons_eq_if_modifyHead, if_pos first,
        List.filter_cons_of_neg (by simp)]

theorem findall_word {word : List Char} (digits : ∀ c ∈ word, c.isDigit = true)
    (nonempty : word ≠ []) {c : Char} (other : c.isDigit = false) (s : List Char) :
    findall (word ++ c :: s) = word :: findall s := by
  unfold findall
  rw [List.splitOnP_append_cons_of_forall_mem (by simpa using digits) c (by simp [other]),
    List.filter_cons_of_pos (by simpa using nonempty)]

/-- A line of results is read as it was written. -/
theorem readResult_testTransLine {misses : BitVec 32} (few : misses.toNat < 2 ^ 31) :
    readResult (testTransLine ⟨0, 1, misses⟩) = some (1, misses.toNat) := by
  have number : formatInt misses.toInt = Nat.toDigits 10 misses.toNat := by
    have value : misses.toInt = misses.toNat := BitVec.toInt_eq_toNat_of_lt (by omega)
    have notNeg : ¬ (misses.toNat : Int) < 0 := by omega
    rw [value, formatInt, Int.natAbs_natCast]
    simp [signOf, notNeg]
  have digits : ∀ c ∈ Nat.toDigits 10 misses.toNat, c.isDigit = true :=
    fun c member => Nat.isDigit_of_mem_toDigits (by decide) (by decide) member
  have words : findall (testTransLine ⟨0, 1, misses⟩) = [['1'], Nat.toDigits 10 misses.toNat] := by
    have line : testTransLine ⟨0, 1, misses⟩ = "TEST_TRANS_RESULTS=".toList ++
        (['1'] ++ ':' :: (Nat.toDigits 10 misses.toNat ++ '\n' :: [])) := by
      have one : formatInt 1 = ['1'] := by decide
      unfold testTransLine
      rw [if_neg (show ¬ (0 : Int) = -1 by decide), number, one]
    have noDigit : ("TEST_TRANS_RESULTS=".toList.all fun c => !c.isDigit) = true := by decide
    have noDigits : ∀ c ∈ "TEST_TRANS_RESULTS=".toList, c.isDigit = false := by
      intro c member
      have other := List.all_eq_true.1 noDigit c member
      rwa [Bool.not_eq_true'] at other
    rw [line, findall_other noDigits, findall_word (List.forall_mem_singleton.2 rfl)
      (List.cons_ne_nil _ _) rfl, findall_word digits Nat.toDigits_ne_nil rfl]
    rfl
  unfold readResult
  rw [words]
  show some (digitsVal 10 ['1'], digitsVal 10 (Nat.toDigits 10 misses.toNat)) = _
  rw [digitsVal_toDigits (by decide) (by decide)]
  rfl

/-- **The points of `transpose_submit`.** For all matrices of the given sizes, wherever they are
placed in alignment, and with whatever other accesses around the run, `tracegen` returns 0, and
the evaluation reports the submission as correct, with no more misses than its lines have and
one for each other access. At the three sizes of the driver that is worth all the points, as
long as there are no more than six other accesses. -/
theorem evalPerf_submission (system : Nat → Traced) (cols : M ≤ INT_MAX - 8)
    (rows : N ≤ INT_MAX - 8)
    (aligned : Aligned M N baseA baseB) (watched : Watched M N baseA baseB m (system 0))
    (locals : Param → BitVec 32) (allocates : Allocates calloc) (optarg : OptArg) :
    watched.outcome.returned = 0 ∧
    ∃ func, evalPerf system (csimResults locals calloc optarg 5 1 5) ([] : List (TransFunc α)) =
        some ([func], ⟨0, 1, func.num_misses⟩) ∧
      func.num_misses.toNat ≤ submitMisses M N + watched.others ∧
      ∀ lower upper full_score, (M, N, lower, upper, full_score) ∈ driverSizes →
        watched.others ≤ 6 → ∀ prorated, ∃ correct misses,
          readResult (testTransLine ⟨0, 1, func.num_misses⟩) = some (correct, misses) ∧
          computeMissScore prorated misses lower upper full_score * correct = full_score := by
  obtain ⟨func, evaluated, bound⟩ := watched.evaluated cols rows aligned locals allocates optarg
  refine ⟨(watched.passes cols rows).1, func, evaluated, bound, ?_⟩
  intro lower upper full_score size few prorated
  have within : submitMisses M N + 6 ≤ lower ∧ lower < 2 ^ 31 := by
    have graded32 : submitMisses 32 32 = 284 :=
      (submitMisses_graded _ (by decide : (32, 32, 284, 300) ∈ graded)).1
    have graded64 : submitMisses 64 64 = 1280 :=
      (submitMisses_graded _ (by decide : (64, 64, 1280, 1300) ∈ graded)).1
    have graded61 : submitMisses 61 67 = 1994 :=
      (submitMisses_graded _ (by decide : (61, 67, 1994, 2000) ∈ graded)).1
    simp only [driverSizes, List.mem_cons, Prod.mk.injEq, List.not_mem_nil, or_false] at size
    rcases size with ⟨rfl, rfl, rfl, -⟩ | ⟨rfl, rfl, rfl, -⟩ | ⟨rfl, rfl, rfl, -⟩
    · exact ⟨by omega, by decide⟩
    · exact ⟨by omega, by decide⟩
    · exact ⟨by omega, by decide⟩
  refine ⟨1, func.num_misses.toNat, readResult_testTransLine (by omega), ?_⟩
  rw [computeMissScore, if_pos (by omega), Nat.mul_one]

/-- Matrices of 4 KB, the one behind the other. -/
theorem evalPerf_submission_square :
    ∃ (system : Nat → Traced) (func : TransFunc Nat),
      evalPerf system (csimResults (fun _ => 0) callocNext .null 5 1 5) [] =
        some ([func], ⟨0, 1, func.num_misses⟩) ∧
      func.num_misses.toNat ≤ submitMisses 32 32 + 2 ∧ ∃ correct misses,
        readResult (testTransLine ⟨0, 1, func.num_misses⟩) = some (correct, misses) ∧
        computeMissScore (fun _ => 0) misses 300 600 8 * correct = 8 := by
  have low : ∀ access ∈ submitLog 32 32,
      isLow (rowMajor 32 32 0x1000 0x2000 access) = true ∧
        rowMajor 32 32 0x1000 0x2000 access ≠ 0x101 := by
    decide +kernel
  obtain ⟨traced, watched, two⟩ := exists_watched (by decide) (by decide)
    (by decide : (0x100 : BitVec 64) ≠ 0x101) rfl rfl low
    (⟨fun i j => 100 * i + j, fun _ _ => 7, fun _ => 7, fun _ => false, []⟩ : Mem Nat)
  obtain ⟨-, func, evaluated, bound, points⟩ := evalPerf_submission (fun _ => traced)
    (by decide) (by decide) ⟨by decide, by decide, by decide, by decide, by decide⟩ watched
    (fun _ => 0) allocates_callocNext .null
  refine ⟨_, func, evaluated, two ▸ bound, ?_⟩
  exact points 300 600 8 (by decide) (by omega) _

end

end CsappLab.Driver
