/-
# Driver.EvalPerf — the evaluation of the registered functions

`eval_perf` of `test-trans.c` runs `tracegen` under valgrind for one function after the other,
filters the trace, has a simulator run on the part and reads the numbers it has written. The
programs talk through files: `.marker` and `.csim_results` are written and read back here as
`printf` and `scanf` do, and every number that a program writes is the one the next program
reads (`fscanfMarker_markerText`, `fscanfResults_resultsText`), negative ones too, which
`printSummary` makes of a counter from 2^31 on. What is reported at the end are the results of
the function with the description of the submission (`evalPerf_results`).

What a command leaves is a parameter: `Traced` is what valgrind and `tracegen` leave for a
function, and `csim_ref` what the simulator leaves for a trace. `none` is undefined behaviour,
or that a variable or a file does not have a determined content: a conversion that fails, a
trace without the end marker, whose part is not closed before the simulator reads it.
-/
import CsappLab.Driver.Filter
import CsappLab.Driver.Tracegen
import CsappLab.Lib.Numeral

namespace CsappLab.Driver

set_option autoImplicit false

open CsappLab.Lib CsappLab.Csim

/-! ## The files that are handed on -/

/-- `fprintf(marker_fp, "%llx %llx", …)` of `tracegen`. -/
def markerText (marker_start marker_end : BitVec 64) : List Char :=
  Nat.toDigits 16 marker_start.toNat ++ ' ' :: Nat.toDigits 16 marker_end.toNat

/-- `fprintf(output_fp, "%d %d %d\n", hits, misses, evictions)` of `printSummary`. -/
def resultsText (hits misses evictions : Int) : List Char :=
  formatInt hits ++ ' ' :: (formatInt misses ++ ' ' :: (formatInt evictions ++ ['\n']))

/-- `%llx` of `fscanf`: the value, and what is left of the file. -/
def scanLlx (file : List Char) : Option (BitVec 64 × List Char) :=
  (scanNumber 16 file).map fun read => ((strtoul 16 file).1, file.drop read.2.2)

/-- `%u` of `fscanf`. -/
def scanU (file : List Char) : Option (BitVec 32 × List Char) :=
  (scanNumber 10 file).map fun read => ((strtoul 10 file).1.setWidth 32, file.drop read.2.2)

/-- `fscanf(marker_fp, "%llx %llx", &marker_start, &marker_end)`. -/
def fscanfMarker (file : List Char) : Option (BitVec 64 × BitVec 64) := do
  let (marker_start, file) ← scanLlx file
  let (marker_end, _) ← scanLlx file
  some (marker_start, marker_end)

/-- `fscanf(in_fp, "%u %u %u", &hits, &misses, &evictions)`. -/
def fscanfResults (file : List Char) : Option (BitVec 32 × BitVec 32 × BitVec 32) := do
  let (hits, file) ← scanU file
  let (misses, file) ← scanU file
  let (evictions, _) ← scanU file
  some (hits, misses, evictions)

section Files

variable {blank : List Char} (tail : List Char)

theorem scanLlx_toDigits (blanks : ∀ c ∈ blank, isspace c = true) (addr : BitVec 64)
    (ends : EndsNumber tail) :
    scanLlx (blank ++ (Nat.toDigits 16 addr.toNat ++ tail)) = some (addr, tail) := by
  have digits : IsDigits 16 (Nat.toDigits 16 addr.toNat) :=
    isDigits_toDigits (by decide) (by decide) _
  have number := scanNumber_word (Nat.le_refl 16) digits Nat.toDigits_ne_nil
    (ends.not_goesOn (Nat.le_refl 16)) false
  rw [digitsVal_toDigits (by decide) (by decide)] at number
  have whole : scanNumber 16 (blank ++ (Nat.toDigits 16 addr.toNat ++ tail)) =
      some (false, addr.toNat, blank.length + (Nat.toDigits 16 addr.toNat).length) := by
    rw [scanNumber_blank blanks, show scanNumber 16 (Nat.toDigits 16 addr.toNat ++ tail) = _ from
      number]
    simp [signOf]
  have rest : (blank ++ (Nat.toDigits 16 addr.toNat ++ tail)).drop
      (blank.length + (Nat.toDigits 16 addr.toNat).length) = tail := by
    rw [← List.append_assoc, ← List.length_append, List.drop_left]
  unfold scanLlx strtoul
  rw [whole]
  simp only [Option.map_some, rest, if_neg (Nat.not_le.2 addr.isLt), Bool.false_eq_true, if_false,
    BitVec.ofNat_toNat, BitVec.setWidth_eq]

/-- What `%u` makes of a number that `%d` has written. -/
theorem scanU_formatInt (blanks : ∀ c ∈ blank, isspace c = true) {v : Int}
    (fits : v.natAbs < 2 ^ 64) (ends : EndsNumber tail) :
    scanU (blank ++ (formatInt v ++ tail)) = some (BitVec.ofInt 32 v, tail) := by
  have whole : scanNumber 10 (blank ++ (formatInt v ++ tail)) =
      some (decide (v < 0), v.natAbs, blank.length + (formatInt v).length) := by
    rw [scanNumber_blank blanks, scanNumber_formatInt ends]
    rfl
  have rest : (blank ++ (formatInt v ++ tail)).drop (blank.length + (formatInt v).length) =
      tail := by
    rw [← List.append_assoc, ← List.length_append, List.drop_left]
  have value : ((if v < 0 then -BitVec.ofNat 64 v.natAbs else BitVec.ofNat 64 v.natAbs) :
      BitVec 64).setWidth 32 = BitVec.ofInt 32 v := by
    apply BitVec.eq_of_toNat_eq
    rw [BitVec.toNat_setWidth, BitVec.toNat_ofInt]
    split
    · rw [BitVec.toNat_neg, BitVec.toNat_ofNat]
      omega
    · rw [BitVec.toNat_ofNat]
      omega
  unfold scanU strtoul
  rw [whole]
  simp only [Option.map_some, rest, if_neg (Nat.not_le.2 fits), decide_eq_true_eq, value]

/-- What may stand behind a number in these files. -/
theorem endsNumber_cons {c : Char} (other : digitVal 16 c = none ∧ c ≠ 'x' ∧ c ≠ 'X') :
    EndsNumber (c :: tail) := by
  intro d member
  obtain rfl : c = d := Option.some.inj member
  exact other

/-- **The markers are read as they were written.** -/
theorem fscanfMarker_markerText (marker_start marker_end : BitVec 64) :
    fscanfMarker (markerText marker_start marker_end) = some (marker_start, marker_end) := by
  have nothing : ∀ c ∈ ([] : List Char), isspace c = true := List.forall_mem_nil _
  have blank : ∀ c ∈ [' '], isspace c = true := List.forall_mem_singleton.2 rfl
  have space : digitVal 16 ' ' = none ∧ ' ' ≠ 'x' ∧ ' ' ≠ 'X' := by decide
  have first := scanLlx_toDigits _ nothing marker_start
    (endsNumber_cons (Nat.toDigits 16 marker_end.toNat) space)
  have second := scanLlx_toDigits [] blank marker_end (by rintro c ⟨⟩)
  rw [List.append_nil] at second
  unfold fscanfMarker markerText
  rw [show scanLlx (Nat.toDigits 16 marker_start.toNat ++ ' ' ::
      Nat.toDigits 16 marker_end.toNat) = _ from first]
  show (scanLlx (' ' :: Nat.toDigits 16 marker_end.toNat)).bind _ = _
  rw [show scanLlx (' ' :: Nat.toDigits 16 marker_end.toNat) = _ from second]
  rfl

/-- **The results are read as they were counted**, whatever the counters. -/
theorem fscanfResults_resultsText (hits misses evictions : BitVec 32) :
    fscanfResults (resultsText hits.toInt misses.toInt evictions.toInt) =
      some (hits, misses, evictions) := by
  have fits : ∀ c : BitVec 32, c.toInt.natAbs < 2 ^ 64 := by
    intro c
    have low := c.le_toInt
    have high := c.toInt_lt
    omega
  have nothing : ∀ c ∈ ([] : List Char), isspace c = true := List.forall_mem_nil _
  have blank : ∀ c ∈ [' '], isspace c = true := List.forall_mem_singleton.2 rfl
  have space : digitVal 16 ' ' = none ∧ ' ' ≠ 'x' ∧ ' ' ≠ 'X' := by decide
  have newline : digitVal 16 '\n' = none ∧ '\n' ≠ 'x' ∧ '\n' ≠ 'X' := by decide
  have third := scanU_formatInt _ blank (fits evictions) (endsNumber_cons [] newline)
  have second := scanU_formatInt _ blank (fits misses)
    (endsNumber_cons (formatInt evictions.toInt ++ ['\n']) space)
  have first := scanU_formatInt _ nothing (fits hits)
    (endsNumber_cons (formatInt misses.toInt ++ ' ' :: (formatInt evictions.toInt ++ ['\n'])) space)
  simp only [BitVec.ofInt_toInt, List.nil_append, List.cons_append] at first second third
  unfold fscanfResults resultsText
  rw [first]
  show (scanU (' ' :: (formatInt misses.toInt ++ ' ' ::
    (formatInt evictions.toInt ++ ['\n'])))).bind _ = _
  rw [second]
  show (scanU (' ' :: (formatInt evictions.toInt ++ ['\n']))).bind _ = _
  rw [third]
  rfl

end Files

/-! ## `eval_perf` -/

def SUBMIT_DESCRIPTION : String := "Transpose submission"

/-- `struct results`. -/
structure Results where
  funcid : Int
  correct : Int
  misses : BitVec 32
  deriving DecidableEq, Repr

/-- `results` before the evaluation; the misses are `INT_MAX`. -/
def initResults : Results := ⟨-1, 0, 0x7fffffff⟩

/-- What the run of `tracegen` under valgrind leaves: its exit status, `.marker` and
`trace.tmp`. -/
structure Traced where
  flag : Nat
  marker : List Char
  trace : List Char

section

variable {α : Type} (system : Nat → Traced) (csim_ref : Nat → List Char → Option (List Char))

/-- The body of the loop in `eval_perf`. -/
def evalFunction (i : Nat) (func : TransFunc α) (results : Results) (addr : Option (BitVec 64)) :
    Option (TransFunc α × Results × Option (BitVec 64)) :=
  let results :=
    if func.description = SUBMIT_DESCRIPTION then { results with funcid := i } else results
  if (system i).flag ≠ 0 then some (func, results, addr)
  else do
    let (marker_start, marker_end) ← fscanfMarker (system i).marker
    let func := { func with correct := true }
    let results := if results.funcid = i then { results with correct := 1 } else results
    let f ← filterTrace marker_start marker_end (system i).trace addr
    if f.closed then do
      let in_fp ← csim_ref i f.part
      let (hits, misses, evictions) ← fscanfResults in_fp
      let func := { func with num_hits := hits, num_misses := misses, num_evictions := evictions }
      let results := if results.funcid = i then { results with misses } else results
      some (func, results, f.addr)
    else none

/-- `for (i=0; i<func_counter; i++)`. -/
def evalFrom : Nat → List (TransFunc α) → Results → Option (BitVec 64) →
    Option (List (TransFunc α) × Results)
  | _, [], results, _ => some ([], results)
  | i, func :: func_list, results, addr => do
      let (func, results, addr) ← evalFunction system csim_ref i func results addr
      let (func_list, results) ← evalFrom (i + 1) func_list results addr
      some (func :: func_list, results)

/-- `eval_perf`. -/
def evalPerf (func_list : List (TransFunc α)) : Option (List (TransFunc α) × Results) := do
  let func_list ← registerFunctions func_list
  evalFrom system csim_ref 0 func_list initResults none

end

/-! ## What the results are about -/

section

variable {α : Type} {system : Nat → Traced} {csim_ref : Nat → List Char → Option (List Char)}

/-- What the loop body leaves of an entry: its description and its function stay, and it is
marked and counted where the run has not failed. -/
theorem evalFunction_entry {i : Nat} {func func' : TransFunc α} {results results' : Results}
    {addr addr' : Option (BitVec 64)}
    (ran : evalFunction system csim_ref i func results addr = some (func', results', addr')) :
    (func.description = SUBMIT_DESCRIPTION → results' =
      if (system i).flag = 0 then ⟨i, 1, func'.num_misses⟩ else { results with funcid := i }) ∧
    (func.description ≠ SUBMIT_DESCRIPTION → results.funcid ≠ i → results' = results) ∧
    func'.description = func.description ∧
    ((system i).flag = 0 → func'.correct = true) ∧
    ((system i).flag ≠ 0 → func' = func) := by
  unfold evalFunction at ran
  by_cases failed : (system i).flag ≠ 0
  · rw [if_pos failed, Option.some.injEq, Prod.mk.injEq, Prod.mk.injEq] at ran
    obtain ⟨rfl, rfl, -⟩ := ran
    rw [if_neg failed]
    exact ⟨fun submit => if_pos submit, fun other _ => if_neg other, rfl,
      fun zero => absurd zero failed, fun _ => rfl⟩
  · rw [if_neg failed] at ran
    rw [if_pos (not_not.1 failed)]
    obtain ⟨⟨marker_start, marker_end⟩, -, ran⟩ := Option.bind_eq_some_iff.1 ran
    obtain ⟨f, -, ran⟩ := Option.bind_eq_some_iff.1 ran
    by_cases closed : f.closed = true
    · rw [if_pos closed] at ran
      obtain ⟨in_fp, -, ran⟩ := Option.bind_eq_some_iff.1 ran
      obtain ⟨⟨hits, misses, evictions⟩, -, ran⟩ := Option.bind_eq_some_iff.1 ran
      rw [Option.some.injEq, Prod.mk.injEq, Prod.mk.injEq] at ran
      obtain ⟨rfl, rfl, -⟩ := ran
      refine ⟨?_, ?_, rfl, fun _ => rfl, fun nonzero => absurd nonzero failed⟩
      · intro submit
        simp [submit]
      · intro other away
        simp [other, away]
    · rw [if_neg closed] at ran
      cases ran

/-- The submission, where nothing goes wrong. -/
theorem evalFunction_submission {i : Nat} {func : TransFunc α} (results : Results)
    {addr : Option (BitVec 64)} {marker_start marker_end : BitVec 64} {f : Filter}
    {hits misses evictions : BitVec 32} (submit : func.description = SUBMIT_DESCRIPTION)
    (flag : (system i).flag = 0)
    (marker : (system i).marker = markerText marker_start marker_end)
    (filtered : filterTrace marker_start marker_end (system i).trace addr = some f)
    (closed : f.closed = true)
    (simulated : csim_ref i f.part =
      some (resultsText hits.toInt misses.toInt evictions.toInt)) :
    evalFunction system csim_ref i func results addr =
      some ({ func with
        correct := true, num_hits := hits, num_misses := misses, num_evictions := evictions },
        ⟨i, 1, misses⟩, f.addr) := by
  unfold evalFunction
  simp only [flag, marker, fscanfMarker_markerText, filtered, closed, simulated,
    fscanfResults_resultsText, submit, Option.bind_eq_bind, Option.bind_some, ne_eq,
    not_true_eq_false, if_false, if_true]

/-- The entries from number `i` on, none of them the submission. -/
theorem evalFrom_others {i : Nat} {func_list func_list' : List (TransFunc α)}
    {results results' : Results} {addr : Option (BitVec 64)}
    (others : ∀ func ∈ func_list, func.description ≠ SUBMIT_DESCRIPTION)
    (away : results.funcid < i)
    (ran : evalFrom system csim_ref i func_list results addr = some (func_list', results')) :
    results' = results := by
  induction func_list generalizing i func_list' addr with
  | nil =>
      obtain ⟨-, rfl⟩ := Prod.mk.inj (Option.some.inj ran)
      rfl
  | cons func func_list ih =>
      obtain ⟨⟨func₁, results₁, addr₁⟩, first, ran⟩ := Option.bind_eq_some_iff.1 ran
      obtain ⟨⟨rest, results₂⟩, later, ran⟩ := Option.bind_eq_some_iff.1 ran
      obtain ⟨-, rfl⟩ := Prod.mk.inj (Option.some.inj ran)
      obtain ⟨-, stays, -⟩ := evalFunction_entry first
      obtain rfl := stays (others func List.mem_cons_self) (by omega)
      exact ih (fun func member => others func (List.mem_cons_of_mem _ member)) (by omega) later

/-- The entries from number `i` on, with the submission among them. -/
theorem evalFrom_submission {i : Nat} {before after func_list' : List (TransFunc α)}
    {func : TransFunc α} {results results' : Results} {addr : Option (BitVec 64)}
    (first : ∀ func ∈ before, func.description ≠ SUBMIT_DESCRIPTION)
    (submit : func.description = SUBMIT_DESCRIPTION)
    (last : ∀ func ∈ after, func.description ≠ SUBMIT_DESCRIPTION)
    (away : results.funcid < i)
    (ran : evalFrom system csim_ref i (before ++ func :: after) results addr =
      some (func_list', results')) :
    ∃ func' ∈ func_list'[before.length]?, results' =
      if (system (i + before.length)).flag = 0 then ⟨i + before.length, 1, func'.num_misses⟩
      else { results with funcid := i + before.length } := by
  induction before generalizing i func_list' addr with
  | nil =>
      obtain ⟨⟨func₁, results₁, addr₁⟩, here, ran⟩ := Option.bind_eq_some_iff.1 ran
      obtain ⟨⟨rest, results₂⟩, later, ran⟩ := Option.bind_eq_some_iff.1 ran
      obtain ⟨rfl, rfl⟩ := Prod.mk.inj (Option.some.inj ran)
      obtain ⟨submitted, -⟩ := evalFunction_entry here
      have set := submitted submit
      have isHere : results₁.funcid = i := by
        rw [set]
        split <;> rfl
      obtain rfl := evalFrom_others last (by omega) later
      exact ⟨func₁, rfl, set⟩
  | cons other before ih =>
      obtain ⟨⟨func₁, results₁, addr₁⟩, here, ran⟩ := Option.bind_eq_some_iff.1 ran
      obtain ⟨⟨rest, results₂⟩, later, ran⟩ := Option.bind_eq_some_iff.1 ran
      obtain ⟨rfl, rfl⟩ := Prod.mk.inj (Option.some.inj ran)
      obtain ⟨-, stays, -⟩ := evalFunction_entry here
      obtain rfl := stays (first other List.mem_cons_self) (by omega)
      obtain ⟨func', member, same⟩ :=
        ih (fun func member => first func (List.mem_cons_of_mem _ member)) (by omega) later
      refine ⟨func', member, ?_⟩
      rw [same, List.length_cons]
      have shift : i + 1 + before.length = i + (before.length + 1) := by omega
      have shift' : ((i + 1 : Nat) : Int) + before.length = i + (before.length + 1 : Nat) := by
        omega
      rw [shift, shift']

/-- **The results are the submission's.** When `eval_perf` ends they have the number of
`transpose_submit`, and either the misses of its own entry or, where `tracegen` has failed for
it, what they began with, whatever the other functions do. -/
theorem evalPerf_results {func_list func_list' : List (TransFunc α)} {results : Results}
    (others : ∀ func ∈ func_list, func.description ≠ SUBMIT_DESCRIPTION)
    (ran : evalPerf system csim_ref func_list = some (func_list', results)) :
    ∃ func ∈ func_list'[func_list.length]?, results =
      if (system func_list.length).flag = 0 then ⟨func_list.length, 1, func.num_misses⟩
      else ⟨func_list.length, 0, 0x7fffffff⟩ := by
  obtain ⟨registered, register, ran⟩ := Option.bind_eq_some_iff.1 ran
  unfold registerFunctions registerTransFunction at register
  split at register
  next room =>
    obtain rfl := Option.some.inj register
    obtain ⟨func, member, same⟩ := evalFrom_submission others rfl
      (fun func member => absurd member List.not_mem_nil) (by decide) ran
    rw [Nat.zero_add] at same
    refine ⟨func, member, same.trans ?_⟩
    simp [initResults]
  next => cases register

/-- A run that fails, and one with two accesses. -/
def failsFirst (i : Nat) : Traced :=
  if i = 0 then ⟨1, [], []⟩ else ⟨0, markerText 16 17, " S 10,1\n S 11,1\n".toList⟩

/-- `trans` is registered before the submission, and fails. -/
theorem evalPerf_results_second :
    ∃ func_list' results, evalPerf failsFirst (fun _ _ => some (resultsText 5 7 2))
        [(⟨trans, "Simple row-wise scan transpose", false, 0, 0, 0⟩ : TransFunc Nat)] =
        some (func_list', results) ∧
      results.funcid = 1 ∧ results.correct = 1 := by
  have ends : (evalPerf failsFirst (fun _ _ => some (resultsText 5 7 2))
      [(⟨trans, "Simple row-wise scan transpose", false, 0, 0, 0⟩ : TransFunc Nat)]).isSome := by
    decide +kernel
  obtain ⟨⟨func_list', results⟩, ran⟩ := Option.isSome_iff_exists.1 ends
  obtain ⟨func, -, same⟩ := evalPerf_results (by decide) ran
  refine ⟨func_list', results, ran, ?_⟩
  rw [same]
  exact ⟨rfl, rfl⟩

end

end CsappLab.Driver
