/-
# Data.Btest — the test harness of the puzzles

`gen_vals`, `test_0_arg` to `test_3_arg`, `test_function` and `run_tests` of `btest.c`. The
arguments of a test are lists, and a function gives `none` where it returns no value. What
`random_val` returns is a sequence of words that nothing is known about, and `n` counts the
calls. A store behind the end of a test value array is `none`, and so are the count past
`INT_MAX` that ends no loop and the exit for a function of more than three arguments.

The clock is a parameter too: `alarm t` is the number of tests of the record `t` that are
done when the alarm set for them goes off. The handler's jump out of the loops counts one
error, like a test that fails, and so it is here. The alarm also ends a test of which one
function does not return. It is never turned off: one that goes off when the tests of its
record are over, and jumps to a call that has returned, is left out.

The harness is exact for the values it generates: it counts one error if there is a
combination of them on which the two functions differ or in whose test the alarm goes off,
and shows the first one (`testFunction_eq`). The arrays are large enough but for a range of
arguments that is one too large for them (`genVals_spec`).
-/
import CsappLab.Lib.CString
import Mathlib.Tactic.Ring

namespace CsappLab.Data

set_option autoImplicit false

open CsappLab.Lib

def TEST_RANGE : Nat := 500000

def MAX_TEST_VALS : Nat := 13 * TEST_RANGE

def INT_MAX : Int := 2 ^ 31 - 1

def INT_MIN : Int := -2 ^ 31

def TIMEOUT_LIMIT : Int := 50

/-- What the options set: `argval` is `none` where `has_arg` is 0. -/
structure Options where
  grade : Bool
  test_fname : Option String
  argval : Nat → Option (BitVec 32)
  global_rating : Nat
  timeout_limit : Int

/-- `test_rec`, without what only the compiler of the puzzles reads. -/
structure TestRec where
  name : String
  solution_funct : List (BitVec 32) → Option (BitVec 32)
  test_funct : List (BitVec 32) → Option (BitVec 32)
  args : Nat
  rating : Nat
  arg_ranges : (Int × Int) × (Int × Int) × (Int × Int)

/-! ## Test values -/

abbrev Vals : Type := Array (BitVec 32)

/-- `test_vals[test_count++] = v`. -/
def storeVal (vals : Vals) (v : BitVec 32) : Option Vals :=
  if vals.size < MAX_TEST_VALS then some (vals.push v) else none

def storeVals (vals : Vals) (vs : List (BitVec 32)) : Option Vals :=
  vs.foldlM storeVal vals

/-- `for (i = 0; i < test_range; i++)`, with what one round stores. -/
def storeRounds (test_range : Nat) (round : Nat → List (BitVec 32)) (vals : Vals) : Option Vals :=
  (List.range test_range).foldlM (fun vals i => storeVals vals (round i)) vals

/-- A round of the test values for floating-point functions. -/
def floatRound (i : Nat) : List (BitVec 32) :=
  let smallest_norm : BitVec 32 := 0x00800000
  let one : BitVec 32 := 0x3f800000
  let largest_norm : BitVec 32 := 0x7f000000
  let sign : BitVec 32 := 0x80000000
  let i := BitVec.ofNat 32 i
  [i, sign ||| i,
    smallest_norm + i, smallest_norm - i, sign ||| (smallest_norm + i),
    sign ||| (smallest_norm - i),
    one + i, one - i, sign ||| (one + i), sign ||| (one - i),
    largest_norm - i, sign ||| (largest_norm - i)]

/-- `inf`, `-inf`, `nan` and `-nan`. -/
def specialVals : List (BitVec 32) :=
  [0x7f800000, 0x80000000 ||| 0x7f800000, 0x7fc00000, 0x80000000 ||| 0x7fc00000]

/-- A round of the test values for integer functions. -/
def intRound (min max : Int) (random : BitVec 32) (i : Nat) : List (BitVec 32) :=
  [BitVec.ofInt 32 (min + i), BitVec.ofInt 32 (max - i)] ++
    (if min ≤ i ∧ (i : Int) ≤ max then [BitVec.ofInt 32 i] else []) ++
    (if min ≤ -i ∧ -(i : Int) ≤ max then [BitVec.ofInt 32 (-i)] else []) ++ [random]

/-- `for (i = min; i <= max; i++)`. -/
def allVals (min max : Int) : List (BitVec 32) :=
  (List.range (max - min + 1).toNat).map fun k : Nat => BitVec.ofInt 32 (min + k)

section Harness

variable (o : Options) (randoms : Nat → BitVec 32)

/-- `gen_vals`. Where `max - MAX_TEST_VALS` is below the least `int`, it wraps. -/
def genVals (min max : Int) (test_range : Nat) (arg : Nat) (n : Nat) : Option (Vals × Nat) :=
  match o.argval arg with
  | some v => (storeVal #[] v).map fun vals => (vals, n)
  | none =>
      if min = 1 ∧ max = 1 then do
        let test_range := if 2 ^ 23 < test_range then 2 ^ 23 else test_range
        let vals ← storeRounds test_range floatRound #[]
        let vals ← storeVals vals specialVals
        some (vals, n)
      else if narrowInt (max - MAX_TEST_VALS) ≤ min then
        if max = INT_MAX then none else (storeVals #[] (allVals min max)).map fun vals => (vals, n)
      else
        (storeRounds test_range (fun i => intRound min max (randoms (n + i)) i) #[]).map
          fun vals => (vals, n + test_range)

/-! ## Tests -/

/-- `%d[0x%x]`. -/
def shown (v : BitVec 32) : String :=
  let digits := String.ofList (Nat.toDigits 16 v.toNat)
  s!"{v.toInt}[0x{digits}]"

def errorText (name : String) (args : List (BitVec 32)) (r rt : BitVec 32) : String :=
  let args := ",".intercalate (args.map shown)
  s!"ERROR: Test {name}({args}) failed...\n...Gives {shown r}. Should be {shown rt}\n"

/-- `test_0_arg` to `test_3_arg`: the number of errors, and what is printed. -/
def testArgs (t : TestRec) (args : List (BitVec 32)) : Option (Nat × List String) := do
  let r ← t.solution_funct args
  let rt ← t.test_funct args
  if r ≠ rt then some (1, if o.grade then [] else [errorText t.name args r rt]) else some (0, [])

def timeoutText (name : String) (timeout_limit : Int) : String :=
  s!"ERROR: Test {name} failed.\n  Timed out after {timeout_limit} secs " ++
    "(probably infinite loop)\n"

/-- One of the tests under the alarm, which goes off when `left` more are done. The jump of
its handler is an error, and what there was to count or print before it is nothing. -/
def timedTest (t : TestRec) (args : List (BitVec 32)) (left : Option Nat) :
    Option (Nat × List String × Option Nat) :=
  let test := testArgs o t args
  let left' := left.map (· - 1)
  if 0 < o.timeout_limit ∧ (left = some 0 ∨ test = none) then
    some (1, [timeoutText t.name o.timeout_limit], left')
  else test.map fun r => (r.1, r.2, left')

/-- A loop of tests, which stops if there is an error. -/
def tests {α : Type} (body : α → Option Nat → Option (Nat × List String × Option Nat)) :
    List α → Option Nat → Option (Nat × List String × Option Nat)
  | [], left => some (0, [], left)
  | a :: rest, left => do
      let (errors, out, left) ← body a left
      if errors ≠ 0 then some (errors, out, left)
      else (tests body rest left).map fun r => (r.1, out ++ r.2.1, r.2.2)

/-- The loops of `test_function`, one in the other. -/
def testLoops (t : TestRec) :
    List Vals → List (BitVec 32) → Option Nat → Option (Nat × List String × Option Nat)
  | [], args, left => timedTest o t args left
  | vals :: rest, args, left => tests (fun a => testLoops t rest (args ++ [a])) vals.toList left

/-- `arg_test_range`: the range, its square root or its power 0.333. -/
def argTestRange (args : Nat) : Nat :=
  if args = 1 then TEST_RANGE else if args = 2 then 707 else 79

/-- `gen_vals` for one argument after the other. -/
def genArgs (test_range : Nat) : List ((Int × Int) × Nat) → Nat → Option (List Vals × Nat)
  | [], n => some ([], n)
  | ((min, max), i) :: rest, n => do
      let (vals, n) ← genVals o randoms min max test_range i n
      let (others, n) ← genArgs test_range rest n
      some (vals :: others, n)

/-- The arguments that a function takes, with their ranges. -/
def TestRec.ranges (t : TestRec) : List ((Int × Int) × Nat) :=
  [(t.arg_ranges.1, 0), (t.arg_ranges.2.1, 1), (t.arg_ranges.2.2, 2)].take t.args

variable (alarm : TestRec → Option Nat)

/-- `test_function`. -/
def testFunction (t : TestRec) (n : Nat) : Option (Nat × List String × Nat) :=
  if 3 < t.args then none
  else do
    let (vals, n) ← genArgs o randoms (argTestRange t.args) t.ranges n
    let (errors, out, _) ← testLoops o t vals [] (alarm t)
    some (errors, out, n)

/-! ## All functions -/

/-- What `run_tests` counts, and what it has printed. -/
structure Totals where
  errors : Nat
  points : Nat
  max_points : Nat
  out : List String
  n : Nat

def scoreLine (tpoints rating terrors : Nat) (name : String) : String :=
  s!" {tpoints}\t{rating}\t{terrors}\t{name}\n"

def headLine : String := "Score\tRating\tErrors\tFunction\n"

def totalLine (points max_points : Nat) : String :=
  s!"Total points: {points}/{max_points}\n"

/-- The loop of `run_tests`. -/
def runTest (s : Totals) (t : TestRec) : Option Totals :=
  if o.test_fname = none ∨ o.test_fname = some t.name then do
    let rating := if o.global_rating ≠ 0 then o.global_rating else t.rating
    let (terrors, out, n) ← testFunction o randoms alarm t s.n
    let tpoints := rating * if terrors = 0 then 1 else 0
    some {
      errors := s.errors + terrors
      points := s.points + tpoints
      max_points := s.max_points + rating
      out := s.out ++ out ++
        if o.grade || terrors < 1 then [scoreLine tpoints rating terrors t.name] else []
      n := n }
  else some s

/-- `run_tests`: the number of errors, and what is printed. -/
def runTests (test_set : List TestRec) : Option (Nat × List String) := do
  let s ← test_set.foldlM (runTest o randoms alarm) ⟨0, 0, 0, [headLine], 0⟩
  some (s.errors, s.out ++ [totalLine s.points s.max_points])

end Harness

/-! ## Stores -/

theorem storeVals_eq (vals : Vals) (vs : List (BitVec 32)) :
    storeVals vals vs =
      if vals.size + vs.length ≤ MAX_TEST_VALS ∨ vs = [] then some (vals ++ vs.toArray)
      else none := by
  unfold storeVals
  induction vs generalizing vals with
  | nil => simp
  | cons v vs ih =>
      rw [List.foldlM_cons]
      unfold storeVal
      by_cases room : vals.size < MAX_TEST_VALS
      · rw [if_pos room]
        show List.foldlM storeVal (vals.push v) vs = _
        rw [ih, Array.size_push, List.length_cons]
        by_cases rest : vs = []
        · subst rest
          rw [if_pos (.inr rfl), if_pos (.inl room)]
          simp
        · have next : vals.push v ++ vs.toArray = vals ++ (v :: vs).toArray := by simp
          have count : vals.size + 1 + vs.length = vals.size + (vs.length + 1) := by omega
          rw [next, count]
          simp [rest]
      · rw [if_neg room, if_neg]
        · rfl
        · rw [List.length_cons]
          rintro (fits | none_)
          · omega
          · cases none_

theorem storeRounds_eq (test_range : Nat) (round : Nat → List (BitVec 32)) (vals : Vals) :
    storeRounds test_range round vals =
      storeVals vals ((List.range test_range).flatMap round) := by
  unfold storeRounds storeVals
  induction List.range test_range generalizing vals with
  | nil => rfl
  | cons i is ih =>
      rw [List.foldlM_cons, List.flatMap_cons, List.foldlM_append]
      exact bind_congr fun vals => ih vals

/-! ## What is generated -/

section Generated

variable (o : Options) (randoms : Nat → BitVec 32)

/-- The values that `gen_vals` stores. -/
def genList (min max : Int) (test_range : Nat) (arg : Nat) (n : Nat) : List (BitVec 32) :=
  match o.argval arg with
  | some v => [v]
  | none =>
      if min = 1 ∧ max = 1 then
        (List.range (if 2 ^ 23 < test_range then 2 ^ 23 else test_range)).flatMap floatRound ++
          specialVals
      else if narrowInt (max - MAX_TEST_VALS) ≤ min then allVals min max
      else (List.range test_range).flatMap fun i => intRound min max (randoms (n + i)) i

variable {o randoms} {min max : Int} {test_range : Nat} {arg : Nat} {n : Nat}

theorem length_floatRounds (k : Nat) :
    ((List.range k).flatMap floatRound).length = 12 * k := by
  induction k with
  | zero => rfl
  | succ k ih =>
      rw [List.range_succ, List.flatMap_append, List.length_append, ih, List.flatMap_singleton]
      show 12 * k + 12 = _
      omega

theorem length_intRound (min max : Int) (random : BitVec 32) (i : Nat) :
    (intRound min max random i).length ≤ 5 := by
  unfold intRound
  split_ifs <;> simp

theorem length_intRounds (min max : Int) (random : Nat → BitVec 32) (k : Nat) :
    ((List.range k).flatMap fun i => intRound min max (random i) i).length ≤ 5 * k := by
  induction k with
  | zero => exact Nat.le_refl 0
  | succ k ih =>
      have round := length_intRound min max (random k) k
      rw [List.range_succ, List.flatMap_append, List.length_append, List.flatMap_singleton]
      omega

theorem length_allVals (min max : Int) :
    (allVals min max).length = (max - min + 1).toNat := by
  simp [allVals]

/-- The values of an `int`. -/
def IsInt (v : Int) : Prop := INT_MIN ≤ v ∧ v ≤ INT_MAX

/-- What keeps `gen_vals` inside its array, and its loop below `INT_MAX`. -/
def Fits (o : Options) (min max : Int) (arg : Nat) : Prop :=
  o.argval arg ≠ none ∨ min = 1 ∧ max = 1 ∨
    max - min ≠ MAX_TEST_VALS ∧ (max = INT_MAX → MAX_TEST_VALS < max - min)

/-- The test in front of the exhaustive loop is what it looks like, unless its subtraction
overflows. -/
theorem exhaustive_iff (isMax : IsInt max) (low : INT_MIN + MAX_TEST_VALS ≤ max) :
    narrowInt (max - MAX_TEST_VALS) ≤ min ↔ max - min ≤ MAX_TEST_VALS := by
  simp only [IsInt, INT_MIN, INT_MAX] at isMax low
  rw [narrowInt_of_fits (by omega) (by omega)]
  omega

/-- Then it fails, so that every range that passes it is short. -/
theorem short_of_exhaustive (isMin : IsInt min) (isMax : IsInt max)
    (exhaustive : narrowInt (max - MAX_TEST_VALS) ≤ min) : max - min ≤ MAX_TEST_VALS := by
  by_cases low : INT_MIN + MAX_TEST_VALS ≤ max
  · exact (exhaustive_iff isMax low).1 exhaustive
  · simp only [IsInt, INT_MIN] at isMin low
    omega

theorem storeVals_empty {vs : List (BitVec 32)} (fits : vs.length ≤ MAX_TEST_VALS) :
    storeVals #[] vs = some vs.toArray := by
  rw [storeVals_eq, if_pos (.inl (by simpa using fits)), Array.empty_append]

theorem genVals_of_fits (randoms : Nat → BitVec 32) (n : Nat) (small : test_range ≤ TEST_RANGE)
    (isMin : IsInt min) (isMax : IsInt max) (fits : Fits o min max arg) :
    ∃ n', genVals o randoms min max test_range arg n =
      some ((genList o randoms min max test_range arg n).toArray, n') := by
  have range : TEST_RANGE = 500000 := rfl
  have capacity : MAX_TEST_VALS = 6500000 := rfl
  unfold genVals genList
  cases given : o.argval arg with
  | some v => exact ⟨n, rfl⟩
  | none =>
      by_cases float : min = 1 ∧ max = 1
      · simp only [if_pos float, if_neg (by omega : ¬ 2 ^ 23 < test_range)]
        have rounds : ((List.range test_range).flatMap floatRound).length ≤ MAX_TEST_VALS := by
          rw [length_floatRounds]
          omega
        rw [storeRounds_eq, storeVals_empty rounds]
        refine ⟨n, ?_⟩
        show (storeVals _ specialVals >>= fun vals => some (vals, n)) = _
        rw [storeVals_eq, if_pos]
        · simp
        · rw [List.size_toArray, length_floatRounds]
          show 12 * test_range + 4 ≤ _ ∨ _
          omega
      · simp only [if_neg float]
        by_cases exhaustive : narrowInt (max - MAX_TEST_VALS) ≤ min
        · have short := short_of_exhaustive isMin isMax exhaustive
          obtain ⟨notFull, notLast⟩ : max - min ≠ MAX_TEST_VALS ∧ max ≠ INT_MAX := by
            rcases fits with used | isFloat | ⟨notFull, long⟩
            · exact absurd given used
            · exact absurd isFloat float
            · exact ⟨notFull, fun last => absurd (long last) (by omega)⟩
          have room : (allVals min max).length ≤ MAX_TEST_VALS := by
            rw [length_allVals]
            omega
          rw [if_pos exhaustive, if_pos exhaustive, if_neg notLast, storeVals_empty room]
          exact ⟨n, rfl⟩
        · have rounds := length_intRounds min max (fun i => randoms (n + i)) test_range
          rw [if_neg exhaustive, if_neg exhaustive, storeRounds_eq, storeVals_empty (by omega)]
          exact ⟨n + test_range, rfl⟩

theorem genVals_of_not_fits (isMin : IsInt min) (isMax : IsInt max)
    (outside : ¬ Fits o min max arg) : genVals o randoms min max test_range arg n = none := by
  have capacity : MAX_TEST_VALS = 6500000 := rfl
  unfold Fits at outside
  push Not at outside
  obtain ⟨given, float, ends⟩ := outside
  have isFloat : ¬ (min = 1 ∧ max = 1) := fun both => float both.1 both.2
  have exhaustive : narrowInt (max - MAX_TEST_VALS) ≤ min := by
    by_cases full : max - min = MAX_TEST_VALS
    · have low : INT_MIN + MAX_TEST_VALS ≤ max := by
        have := isMin.1
        omega
      exact (exhaustive_iff isMax low).2 (by omega)
    · obtain ⟨last, short⟩ := ends full
      have low : INT_MIN + MAX_TEST_VALS ≤ max := by
        rw [last, capacity]
        decide
      exact (exhaustive_iff isMax low).2 (by omega)
  unfold genVals
  rw [given]
  simp only [if_neg isFloat, if_pos exhaustive]
  by_cases last : max = INT_MAX
  · rw [if_pos last]
  · have full : max - min = MAX_TEST_VALS := by
      by_contra notFull
      exact last (ends notFull).1
    have many : (allVals min max).length = MAX_TEST_VALS + 1 := by
      rw [length_allVals]
      omega
    rw [if_neg last, storeVals_eq, if_neg]
    · rfl
    · rintro (fits | none_)
      · rw [many] at fits
        simp at fits
      · rw [none_] at many
        simp at many

theorem mem_allVals {min max v : Int} (low : min ≤ v) (high : v ≤ max) :
    BitVec.ofInt 32 v ∈ allVals min max := by
  refine List.mem_map.2 ⟨(v - min).toNat, List.mem_range.2 (by omega), ?_⟩
  congr 1
  omega

/-- **The test values**: the array is large enough, and the loops end, but for a range that
has as many values as the array and one more, which the test in front of the loop lets pass,
and for a short range up to `INT_MAX`. The ends of a range are among them, and 0 if it is
between; all its values are, if it is short and the subtraction in the test does not
overflow. -/
theorem genVals_spec (small : test_range ≤ TEST_RANGE) (isMin : IsInt min) (isMax : IsInt max) :
    (genVals o randoms min max test_range arg n ≠ none ↔ Fits o min max arg) ∧
    ∀ vals n', genVals o randoms min max test_range arg n = some (vals, n') →
      o.argval arg = none → ¬ (min = 1 ∧ max = 1) → min ≤ max → 0 < test_range →
      (BitVec.ofInt 32 min ∈ vals ∧ BitVec.ofInt 32 max ∈ vals ∧
        (min ≤ 0 → 0 ≤ max → 0 ∈ vals)) ∧
      (max - min ≤ MAX_TEST_VALS → INT_MIN + MAX_TEST_VALS ≤ max →
        ∀ v, min ≤ v → v ≤ max → BitVec.ofInt 32 v ∈ vals) := by
  constructor
  · constructor
    · intro stored
      by_contra outside
      exact stored (genVals_of_not_fits isMin isMax outside)
    · intro fits
      obtain ⟨n', stored⟩ := genVals_of_fits randoms n small isMin isMax fits
      rw [stored]
      exact Option.some_ne_none _
  · intro vals n' stored given float le pos
    have fits : Fits o min max arg := by
      by_contra outside
      rw [genVals_of_not_fits isMin isMax outside] at stored
      cases stored
    obtain ⟨n'', stored'⟩ := genVals_of_fits randoms n small isMin isMax fits
    obtain ⟨rfl, -⟩ := Prod.mk.inj (Option.some.inj (stored.symm.trans stored'))
    have zero : (0 : BitVec 32) = BitVec.ofInt 32 0 := rfl
    simp only [List.mem_toArray]
    unfold genList
    rw [given]
    simp only [if_neg float]
    by_cases exhaustive : narrowInt (max - MAX_TEST_VALS) ≤ min
    · rw [if_pos exhaustive, zero]
      exact ⟨⟨mem_allVals (by omega) le, mem_allVals le (by omega), mem_allVals⟩,
        fun _ _ v => mem_allVals⟩
    · rw [if_neg exhaustive]
      have first {v : BitVec 32} (round : v ∈ intRound min max (randoms (n + 0)) 0) :
          v ∈ (List.range test_range).flatMap fun i => intRound min max (randoms (n + i)) i :=
        List.mem_flatMap.2 ⟨0, List.mem_range.2 pos, round⟩
      refine ⟨⟨first ?_, first ?_, fun low high => first ?_⟩, fun short low => ?_⟩
      · simp [intRound]
      · simp [intRound]
      · have between : min ≤ ((0 : Nat) : Int) ∧ ((0 : Nat) : Int) ≤ max := ⟨low, high⟩
        simp [intRound, low, high]
      · exact absurd ((exhaustive_iff isMax low).2 short) exhaustive

/-- The least range that is too large for the array. -/
theorem genVals_spec_full :
    genVals ⟨false, none, fun _ => none, 0, TIMEOUT_LIMIT⟩ (fun _ => 0) 0 MAX_TEST_VALS
      TEST_RANGE 0 0 = none := by
  by_contra stored
  have isMin : IsInt 0 := ⟨by decide, by decide⟩
  have isMax : IsInt MAX_TEST_VALS := ⟨by decide, by decide⟩
  rcases (genVals_spec (Nat.le_refl TEST_RANGE) isMin isMax).1.1 stored with given | one | ends
  · exact given rfl
  · exact absurd one (by decide)
  · exact ends.1 (by decide)

end Generated

/-! ## The tests of one function -/

section Tests

variable {α β : Type} {body : α → Option Nat → Option (Nat × List String × Option Nat)}

/-- What follows a test, or some: the rest, if they have passed. -/
def andThen (first : Option (Nat × List String × Option Nat))
    (rest : Option Nat → Option (Nat × List String × Option Nat)) :
    Option (Nat × List String × Option Nat) :=
  first.bind fun r =>
    if r.1 ≠ 0 then some r else (rest r.2.2).map fun r' => (r'.1, r.2.1 ++ r'.2.1, r'.2.2)

theorem tests_cons (a : α) (rest : List α) (left : Option Nat) :
    tests body (a :: rest) left = andThen (body a left) (tests body rest) := by
  rw [tests, andThen]
  cases body a left <;> rfl

theorem andThen_assoc (first : Option (Nat × List String × Option Nat))
    (second third : Option Nat → Option (Nat × List String × Option Nat)) :
    andThen (andThen first second) third =
      andThen first fun left => andThen (second left) third := by
  cases first with
  | none => rfl
  | some r =>
      by_cases failed : r.1 ≠ 0
      · simp only [andThen, Option.bind_some, if_pos failed]
      · simp only [andThen, Option.bind_some, if_neg failed]
        cases second r.2.2 with
        | none => rfl
        | some r' =>
            simp only [Option.map_some, Option.bind_some]
            by_cases failed' : r'.1 ≠ 0
            · rw [if_pos failed', if_pos failed', Option.map_some]
            · rw [if_neg failed', if_neg failed', Option.map_map]
              simp only [Function.comp_def, List.append_assoc]

theorem tests_append (l m : List α) (left : Option Nat) :
    tests body (l ++ m) left = andThen (tests body l left) (tests body m) := by
  induction l generalizing left with
  | nil => simp [tests, andThen]
  | cons a l ih =>
      rw [List.cons_append, tests_cons, tests_cons, andThen_assoc]
      congr 1
      funext left
      exact ih left

/-- One loop in the other is one loop over all combinations. -/
theorem tests_flatMap (f : β → List α) (l : List β) (left : Option Nat) :
    tests body (l.flatMap f) left = tests (fun b => tests body (f b)) l left := by
  induction l generalizing left with
  | nil => rfl
  | cons b l ih =>
      rw [List.flatMap_cons, tests_append, tests_cons]
      congr 1
      funext left
      exact ih left

theorem tests_map (f : β → α) (l : List β) (left : Option Nat) :
    tests body (l.map f) left = tests (fun b => body (f b)) l left := by
  induction l generalizing left with
  | nil => rfl
  | cons b l ih =>
      rw [List.map_cons, tests_cons, tests_cons]
      congr 1
      funext left
      exact ih left

end Tests

/-- All combinations of the test values, in the order of the loops. -/
def combinations : List Vals → List (List (BitVec 32))
  | [] => [[]]
  | vals :: rest => vals.toList.flatMap fun a => (combinations rest).map (a :: ·)

theorem testLoops_eq (o : Options) (t : TestRec) (vals : List Vals) (args : List (BitVec 32))
    (left : Option Nat) :
    testLoops o t vals args left =
      tests (fun more => timedTest o t (args ++ more)) (combinations vals) left := by
  induction vals generalizing args left with
  | nil =>
      unfold testLoops combinations
      rw [tests_cons, List.append_nil, andThen]
      cases timedTest o t args left with
      | none => rfl
      | some r =>
          obtain ⟨errors, out, left⟩ := r
          rw [Option.bind_some]
          split
          · rfl
          next passed =>
            have zero : errors = 0 := not_not.1 passed
            simp [tests, zero]
  | cons v vals ih =>
      unfold testLoops combinations
      rw [tests_flatMap]
      congr 1
      funext a left
      rw [ih, tests_map]
      simp only [List.append_assoc, List.singleton_append]

/-! ## How a test ends -/

inductive Verdict where
  | passed
  | differs (r rt : BitVec 32)
  | timedOut
  | endless
  deriving DecidableEq, Repr

/-- The test of `args`, before which `k` others were done. -/
def TestRec.verdict (t : TestRec) (o : Options) (alarm : Option Nat) (args : List (BitVec 32))
    (k : Nat) : Verdict :=
  if 0 < o.timeout_limit ∧ alarm = some k then .timedOut
  else
    match t.solution_funct args, t.test_funct args with
    | some r, some rt => if r ≠ rt then .differs r rt else .passed
    | _, _ => if 0 < o.timeout_limit then .timedOut else .endless

/-- What is counted and printed of a test, if it ends. -/
def TestRec.report (t : TestRec) (o : Options) (args : List (BitVec 32)) :
    Verdict → Option (Nat × List String)
  | .passed => some (0, [])
  | .differs r rt => some (1, if o.grade then [] else [errorText t.name args r rt])
  | .timedOut => some (1, [timeoutText t.name o.timeout_limit])
  | .endless => none

section Function

variable {o : Options} {randoms : Nat → BitVec 32} {alarm : TestRec → Option Nat} {t : TestRec}
  {n n' : Nat} {vals : List Vals}

/-- The alarm goes off in the test of `args` or does not, whatever `k` the loops are at. -/
theorem timedTest_eq {alarm left : Option Nat} {k : Nat} (args : List (BitVec 32))
    (now : 0 < o.timeout_limit → (left = some 0 ↔ alarm = some k)) :
    timedTest o t args left = (t.report o args (t.verdict o alarm args k)).map
      fun r => (r.1, r.2, left.map (· - 1)) := by
  unfold timedTest TestRec.verdict testArgs
  by_cases limit : 0 < o.timeout_limit
  · by_cases late : alarm = some k
    · simp [limit, now limit, late, TestRec.report]
    · simp only [limit, now limit, late, true_and, false_or, if_false]
      cases t.solution_funct args with
      | none => rfl
      | some r =>
          cases t.test_funct args with
          | none => rfl
          | some rt => by_cases same : r = rt <;> simp [same, TestRec.report]
  · simp only [limit, false_and, if_false]
    cases t.solution_funct args with
    | none => rfl
    | some r =>
        cases t.test_funct args with
        | none => rfl
        | some rt => by_cases same : r = rt <;> simp [same, TestRec.report]

/-- The tests up to the first that is not passed. -/
def TestRec.outcome (t : TestRec) (o : Options) (alarm : Option Nat)
    (tried : List (List (BitVec 32) × Nat)) : Option (Nat × List String) :=
  (tried.find? fun x => t.verdict o alarm x.1 x.2 ≠ .passed).elim (some (0, []))
    fun x => t.report o x.1 (t.verdict o alarm x.1 x.2)

theorem outcome_of_passed {alarm : Option Nat} {tried : List (List (BitVec 32) × Nat)}
    (passed : ∀ x ∈ tried, t.verdict o alarm x.1 x.2 = .passed) :
    t.outcome o alarm tried = some (0, []) := by
  have none_ : tried.find? (fun x => t.verdict o alarm x.1 x.2 ≠ .passed) = none := by
    rw [List.find?_eq_none]
    intro x member
    simp [passed x member]
  rw [TestRec.outcome, none_]
  rfl

theorem report_fails {args : List (BitVec 32)} {v : Verdict} {r : Nat × List String}
    (failed : v ≠ .passed) (reported : t.report o args v = some r) : r.1 = 1 := by
  cases v with
  | passed => exact absurd rfl failed
  | differs => cases reported; rfl
  | timedOut => cases reported; rfl
  | endless => cases reported

/-- A loop stops at the first test that is not passed. -/
theorem tests_eq_outcome {alarm left : Option Nat} (k : Nat)
    (same : 0 < o.timeout_limit → ∀ j, left = some j ↔ alarm = some (k + j))
    (l : List (List (BitVec 32))) :
    (tests (timedTest o t) l left).map (fun r => (r.1, r.2.1)) =
      t.outcome o alarm (l.zipIdx k) := by
  induction l generalizing k left with
  | nil => rfl
  | cons args l ih =>
      have here := @timedTest_eq o t alarm left k args fun limit => same limit 0
      rw [tests_cons, here, List.zipIdx_cons, andThen, TestRec.outcome, List.find?_cons]
      by_cases passed : t.verdict o alarm args k = .passed
      · have next : 0 < o.timeout_limit →
            ∀ j, left.map (· - 1) = some j ↔ alarm = some (k + 1 + j) := by
          intro limit j
          have notNow : left ≠ some 0 := by
            intro now
            simp [TestRec.verdict, limit, (same limit 0).1 now] at passed
          rw [show k + 1 + j = k + (j + 1) by omega, ← same limit]
          cases left with
          | none => simp
          | some i =>
              have pos : i ≠ 0 := fun zero => notNow (by rw [zero])
              simp only [Option.map_some, Option.some.injEq]
              omega
        have rest := ih (k + 1) next
        rw [TestRec.outcome] at rest
        simp only [passed, TestRec.report, Option.map_some, Option.bind_some, ne_eq,
          not_true_eq_false, if_false, decide_false, List.nil_append, Option.map_map]
        exact rest
      · have failed : decide (t.verdict o alarm args k ≠ .passed) = true := by simpa using passed
        simp only [failed, Option.elim_some]
        cases reported : t.report o args (t.verdict o alarm args k) with
        | none => rfl
        | some r =>
            have one : r.1 ≠ 0 := by
              rw [report_fails passed reported]
              decide
            show Option.map _ (if r.1 ≠ 0 then some (r.1, r.2, left.map (· - 1)) else _) = some r
            rw [if_pos one, Option.map_some]

theorem testFunction_outcome (upTo3 : t.args ≤ 3)
    (generated : genArgs o randoms (argTestRange t.args) t.ranges n = some (vals, n')) :
    testFunction o randoms alarm t n =
      (t.outcome o (alarm t) (combinations vals).zipIdx).map fun r => (r.1, r.2, n') := by
  have loops := @tests_eq_outcome o t (alarm t) (alarm t) 0 (fun _ j => by rw [Nat.zero_add])
    (combinations vals)
  unfold testFunction
  rw [if_neg (Nat.not_lt.2 upTo3), generated, ← loops, Option.map_map]
  show (testLoops o t vals [] (alarm t) >>= fun r => some (r.1, r.2.1, n')) = _
  rw [testLoops_eq]
  simp only [List.nil_append]
  cases tests (timedTest o t) (combinations vals) (alarm t) <;> rfl

/-- **The test of a function is exact** for the values that are generated, whenever the alarm
goes off: it counts no error if every combination of them is passed, and otherwise one, for the
first that is not: there the function differs from its reference, or the time is over. Only a
function that does not return, and has no limit, leaves no result. -/
theorem testFunction_eq (upTo3 : t.args ≤ 3)
    (generated : genArgs o randoms (argTestRange t.args) t.ranges n = some (vals, n')) :
    testFunction o randoms alarm t n =
      (((combinations vals).zipIdx.find? fun x =>
          t.verdict o (alarm t) x.1 x.2 ≠ .passed).elim (some (0, []))
        fun x => t.report o x.1 (t.verdict o (alarm t) x.1 x.2)).map
          fun r => (r.1, r.2, n') :=
  testFunction_outcome upTo3 generated

/-- A sum and a bitwise or differ first on 1 and 1, if the alarm does not go off before. -/
theorem testFunction_eq_sum :
    testFunction ⟨false, none, fun _ => none, 0, TIMEOUT_LIMIT⟩ (fun _ => 0) (fun _ => some 7)
      ⟨"sum", fun args => some (args.foldl (fun x y => x + y) 0),
        fun args => some (args.foldl (fun x y => x ||| y) 0), 2, 1,
        ((0, 2), (0, 2), (0, 2))⟩ 0 =
      some (1, ["ERROR: Test sum(1[0x1],1[0x1]) failed...\n...Gives 2[0x2]. Should be 1[0x1]\n"],
        0) := by
  have generated : genArgs ⟨false, none, fun _ => none, 0, TIMEOUT_LIMIT⟩ (fun _ => 0)
      (argTestRange 2) [((0, 2), 0), ((0, 2), 1)] 0 = some ([#[0, 1, 2], #[0, 1, 2]], 0) := by
    decide +kernel
  refine (testFunction_eq (by decide) generated).trans ?_
  decide +kernel

end Function

end CsappLab.Data
