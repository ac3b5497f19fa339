/-
# Data.Score — the score of the puzzles

`test_set` of `decl.c`, run by the harness. The integer puzzles agree with their references
everywhere. The floating-point puzzles do not, but the harness looks for differences around
0, the least normal number, 1 and the greatest binade only, with `TEST_RANGE` fractions next
to each (`floatVals_near`). There is none there, so all 36 points are given, whatever the
random numbers are (`submission_scores`).
-/
import CsappLab.Data.Btest
import CsappLab.Data.HowManyBits
import CsappLab.Data.Integers
import CsappLab.Data.References

namespace CsappLab.Data

set_option autoImplicit false

open CsappLab.Lib

/-! ## The functions -/

/-- A `funct_t`. -/
def funct (f : BitVec 32) : List (BitVec 32) → Option (BitVec 32)
  | [] => some f
  | _ => none

/-- A `funct1_t`. -/
def funct1 (f : BitVec 32 → Option (BitVec 32)) : List (BitVec 32) → Option (BitVec 32)
  | [x] => f x
  | _ => none

/-- A `funct2_t`. -/
def funct2 (f : BitVec 32 → BitVec 32 → BitVec 32) : List (BitVec 32) → Option (BitVec 32)
  | [x, y] => some (f x y)
  | _ => none

/-- A `funct3_t`. -/
def funct3 (f : BitVec 32 → BitVec 32 → BitVec 32 → BitVec 32) :
    List (BitVec 32) → Option (BitVec 32)
  | [x, y, z] => some (f x y z)
  | _ => none

def TMin : Int := -2 ^ 31

def TMax : Int := INT_MAX

def anyInt : (Int × Int) × (Int × Int) × (Int × Int) :=
  ((TMin, TMax), (TMin, TMax), (TMin, TMax))

def anyFloat : (Int × Int) × (Int × Int) × (Int × Int) := ((1, 1), (1, 1), (1, 1))

def test_set : List TestRec :=
  [⟨"bitXor", funct2 bitXor, funct2 test_bitXor, 2, 1, anyInt⟩,
    ⟨"tmin", funct tmin, funct test_tmin, 0, 1, anyInt⟩,
    ⟨"isTmax", funct1 (some ∘ isTmax), funct1 (some ∘ test_isTmax), 1, 1, anyInt⟩,
    ⟨"allOddBits", funct1 (some ∘ allOddBits), funct1 test_allOddBits, 1, 2, anyInt⟩,
    ⟨"negate", funct1 (some ∘ negate), funct1 (some ∘ test_negate), 1, 2, anyInt⟩,
    ⟨"isAsciiDigit", funct1 (some ∘ isAsciiDigit), funct1 (some ∘ test_isAsciiDigit), 1, 3,
      anyInt⟩,
    ⟨"conditional", funct3 conditional, funct3 test_conditional, 3, 3, anyInt⟩,
    ⟨"isLessOrEqual", funct2 isLessOrEqual, funct2 test_isLessOrEqual, 2, 3, anyInt⟩,
    ⟨"logicalNeg", funct1 (some ∘ logicalNeg), funct1 (some ∘ test_logicalNeg), 1, 4, anyInt⟩,
    ⟨"howManyBits", funct1 (some ∘ howManyBits), funct1 test_howManyBits, 1, 4, anyInt⟩,
    ⟨"floatScale2", funct1 (some ∘ floatScale2), funct1 (some ∘ test_floatScale2), 1, 4, anyFloat⟩,
    ⟨"floatFloat2Int", funct1 (some ∘ floatFloat2Int), funct1 (some ∘ test_floatFloat2Int), 1, 4,
      anyFloat⟩,
    ⟨"floatPower2", funct1 (some ∘ floatPower2), funct1 test_floatPower2, 1, 4, anyFloat⟩]

/-- What the harness prints if it finds no error. -/
def fullScore : List String :=
  [headLine,
    scoreLine 1 1 0 "bitXor",
    scoreLine 1 1 0 "tmin",
    scoreLine 1 1 0 "isTmax",
    scoreLine 2 2 0 "allOddBits",
    scoreLine 2 2 0 "negate",
    scoreLine 3 3 0 "isAsciiDigit",
    scoreLine 3 3 0 "conditional",
    scoreLine 3 3 0 "isLessOrEqual",
    scoreLine 4 4 0 "logicalNeg",
    scoreLine 4 4 0 "howManyBits",
    scoreLine 4 4 0 "floatScale2",
    scoreLine 4 4 0 "floatFloat2Int",
    scoreLine 4 4 0 "floatPower2",
    totalLine 36 36]

/-- Only `-g` may have been given. -/
def plainOptions (grade : Bool) : Options := ⟨grade, none, fun _ => none, 0, TIMEOUT_LIMIT⟩

/-- All tests are over before an alarm goes off. -/
def noAlarm : TestRec → Option Nat := fun _ => none

/-! ## A function that passes -/

section Passes

variable {o : Options} {randoms : Nat → BitVec 32} {t : TestRec}

/-- `args` may be tried on a function with these ranges. -/
def Tried (o : Options) (randoms : Nat → BitVec 32) (test_range : Nat)
    (args : List (BitVec 32)) (ranges : List ((Int × Int) × Nat)) : Prop :=
  List.Forall₂ (fun a r => ∃ n, a ∈ genList o randoms r.1.1 r.1.2 test_range r.2 n) args ranges

theorem genArgs_of_fits (randoms : Nat → BitVec 32) {test_range : Nat}
    (small : test_range ≤ TEST_RANGE) {ranges : List ((Int × Int) × Nat)}
    (fits : ∀ r ∈ ranges, IsInt r.1.1 ∧ IsInt r.1.2 ∧ Fits o r.1.1 r.1.2 r.2) (n : Nat) :
    ∃ vals n', genArgs o randoms test_range ranges n = some (vals, n') ∧
      ∀ args ∈ combinations vals, Tried o randoms test_range args ranges := by
  induction ranges generalizing n with
  | nil =>
      refine ⟨[], n, rfl, fun args member => ?_⟩
      obtain rfl := List.mem_singleton.1 member
      exact .nil
  | cons r ranges ih =>
      obtain ⟨⟨min, max⟩, i⟩ := r
      obtain ⟨isMin, isMax, fit⟩ := fits _ List.mem_cons_self
      obtain ⟨n₁, first⟩ := genVals_of_fits randoms n small isMin isMax fit
      obtain ⟨vals, n₂, rest, tried⟩ :=
        ih (fun r member => fits r (List.mem_cons_of_mem _ member)) n₁
      refine ⟨(genList o randoms min max test_range i n).toArray :: vals, n₂, ?_, ?_⟩
      · unfold genArgs
        rw [first]
        show (genArgs o randoms test_range ranges n₁ >>= _) = _
        rw [rest]
        rfl
      · intro args member
        obtain ⟨a, inFirst, member⟩ := List.mem_flatMap.1 member
        obtain ⟨more, inRest, rfl⟩ := List.mem_map.1 member
        exact .cons ⟨n, by simpa using inFirst⟩ (tried more inRest)

variable (o randoms t) in
def Passes : Prop := ∀ n, ∃ n', testFunction o randoms noAlarm t n = some (0, [], n')

theorem argTestRange_le (args : Nat) : argTestRange args ≤ TEST_RANGE := by
  unfold argTestRange
  split_ifs <;> decide

/-- A function that agrees with its reference wherever it may be tried passes. -/
theorem passes_of_agrees (upTo3 : t.args ≤ 3)
    (fits : ∀ r ∈ t.ranges, IsInt r.1.1 ∧ IsInt r.1.2 ∧ Fits o r.1.1 r.1.2 r.2)
    (agrees : ∀ args, Tried o randoms (argTestRange t.args) args t.ranges →
      t.solution_funct args ≠ none ∧ t.solution_funct args = t.test_funct args) :
    Passes o randoms t := by
  intro n
  obtain ⟨vals, n', generated, tried⟩ :=
    genArgs_of_fits randoms (argTestRange_le t.args) fits n
  refine ⟨n', ?_⟩
  have passed : ∀ x ∈ (combinations vals).zipIdx, t.verdict o none x.1 x.2 = .passed := by
    intro x member
    obtain ⟨returns, same⟩ := agrees x.1 (tried x.1 (List.fst_mem_of_mem_zipIdx member))
    obtain ⟨r, result⟩ := Option.ne_none_iff_exists'.1 returns
    simp [TestRec.verdict, ← same, result]
  rw [testFunction_outcome upTo3 generated, noAlarm, outcome_of_passed passed]
  rfl

/-- One function after the other, where all pass. -/
theorem runTest_pass {set : List TestRec} (all : o.test_fname = none) (own : o.global_rating = 0)
    (passes : ∀ t ∈ set, Passes o randoms t) (s : Totals) :
    ∃ n', set.foldlM (runTest o randoms noAlarm) s = some {
      errors := s.errors
      points := s.points + (set.map TestRec.rating).sum
      max_points := s.max_points + (set.map TestRec.rating).sum
      out := s.out ++ set.map fun t => scoreLine t.rating t.rating 0 t.name
      n := n' } := by
  induction set generalizing s with
  | nil => exact ⟨s.n, by simp⟩
  | cons t set ih =>
      obtain ⟨n₁, passed⟩ := passes t List.mem_cons_self s.n
      obtain ⟨n₂, rest⟩ := ih (fun t member => passes t (List.mem_cons_of_mem _ member))
        ⟨s.errors, s.points + t.rating, s.max_points + t.rating,
          s.out ++ [scoreLine t.rating t.rating 0 t.name], n₁⟩
      have first : runTest o randoms noAlarm s t = some ⟨s.errors, s.points + t.rating,
          s.max_points + t.rating, s.out ++ [scoreLine t.rating t.rating 0 t.name], n₁⟩ := by
        unfold runTest
        rw [if_pos (.inl all), own, passed]
        simp
      refine ⟨n₂, ?_⟩
      rw [List.foldlM_cons, first]
      show set.foldlM (runTest o randoms noAlarm) _ = _
      rw [rest]
      simp [Nat.add_assoc]

end Passes

/-! ## The integer puzzles -/

theorem test_howManyBits_eq (x : BitVec 32) : some (howManyBits x) = test_howManyBits x := by
  have digits : Nat.size (magnitude x.toInt) ≤ 31 := Nat.size_le.2 (magnitude_lt x)
  have loop := @shiftLoop_eq 33 (if x.slt 0 then -x - 1 else x) 0 (by rw [abs_toNat]; omega)
  rw [abs_toNat] at loop
  unfold test_howManyBits
  simp only [loop, howManyBits_eq, BitVec.ofNat_add]
  simp

theorem isLessOrEqual_reference (x y : BitVec 32) :
    isLessOrEqual x y = test_isLessOrEqual x y := by
  rw [isLessOrEqual_eq_truth]
  rfl

theorem fits_anyInt {grade : Bool} {name : String}
    {f ft : List (BitVec 32) → Option (BitVec 32)} {args rating : Nat} :
    ∀ r ∈ TestRec.ranges ⟨name, f, ft, args, rating, anyInt⟩,
      IsInt r.1.1 ∧ IsInt r.1.2 ∧ Fits (plainOptions grade) r.1.1 r.1.2 r.2 := by
  intro r member
  have any : r ∈ [((TMin, TMax), 0), ((TMin, TMax), 1), ((TMin, TMax), 2)] :=
    List.mem_of_mem_take member
  have full : r.1 = (TMin, TMax) := by
    simp only [List.mem_cons, List.not_mem_nil, or_false] at any
    rcases any with rfl | rfl | rfl <;> rfl
  rw [full]
  exact ⟨⟨by decide, by decide⟩, ⟨by decide, by decide⟩,
    .inr (.inr ⟨by decide, fun _ => by decide⟩)⟩

section Ints

variable {grade : Bool} {randoms : Nat → BitVec 32} {name : String} {rating : Nat}

theorem passes_int {f ft : List (BitVec 32) → Option (BitVec 32)} {args : Nat}
    (upTo3 : args ≤ 3)
    (agrees : ∀ l : List (BitVec 32), l.length = args → f l ≠ none ∧ f l = ft l) :
    Passes (plainOptions grade) randoms ⟨name, f, ft, args, rating, anyInt⟩ := by
  apply passes_of_agrees upTo3 fits_anyInt
  intro l tried
  apply agrees
  rw [tried.length_eq]
  show (List.take args _).length = args
  rw [List.length_take]
  exact Nat.min_eq_left upTo3

theorem passes_funct {f ft : BitVec 32} (same : f = ft) :
    Passes (plainOptions grade) randoms ⟨name, funct f, funct ft, 0, rating, anyInt⟩ := by
  apply passes_int (by decide)
  intro l count
  obtain rfl := List.eq_nil_of_length_eq_zero count
  exact ⟨Option.some_ne_none _, congrArg some same⟩

theorem passes_funct1 {f : BitVec 32 → BitVec 32} {ft : BitVec 32 → Option (BitVec 32)}
    (same : ∀ x, some (f x) = ft x) :
    Passes (plainOptions grade) randoms
      ⟨name, funct1 (some ∘ f), funct1 ft, 1, rating, anyInt⟩ := by
  apply passes_int (by decide)
  intro l count
  obtain ⟨x, rfl⟩ := List.length_eq_one_iff.1 count
  exact ⟨Option.some_ne_none _, same x⟩

theorem passes_funct2 {f ft : BitVec 32 → BitVec 32 → BitVec 32} (same : ∀ x y, f x y = ft x y) :
    Passes (plainOptions grade) randoms ⟨name, funct2 f, funct2 ft, 2, rating, anyInt⟩ := by
  apply passes_int (by decide)
  intro l count
  obtain ⟨x, y, rfl⟩ := List.length_eq_two.1 count
  exact ⟨Option.some_ne_none _, congrArg some (same x y)⟩

theorem passes_funct3 {f ft : BitVec 32 → BitVec 32 → BitVec 32 → BitVec 32}
    (same : ∀ x y z, f x y z = ft x y z) :
    Passes (plainOptions grade) randoms ⟨name, funct3 f, funct3 ft, 3, rating, anyInt⟩ := by
  apply passes_int (by decide)
  intro l count
  obtain ⟨x, y, z, rfl⟩ := List.length_eq_three.1 count
  exact ⟨Option.some_ne_none _, congrArg some (same x y z)⟩

end Ints

/-! ## The floating-point puzzles -/

/-- The words that are tried on a floating-point puzzle. -/
def floatVals : List (BitVec 32) :=
  (List.range TEST_RANGE).flatMap floatRound ++ specialVals

/-- Where the harness looks, by the pattern without its sign: around 0, the least normal
number and 1, below the least number of the greatest binade, at infinity and at a NaN. -/
def Near (m : Nat) : Prop :=
  m < 500000 ∨ 2 ^ 23 - 500000 < m ∧ m < 2 ^ 23 + 500000 ∨
    127 * 2 ^ 23 - 500000 < m ∧ m < 127 * 2 ^ 23 + 500000 ∨
    254 * 2 ^ 23 - 500000 < m ∧ m ≤ 254 * 2 ^ 23 ∨ m = 255 * 2 ^ 23 ∨
    m = 255 * 2 ^ 23 + 2 ^ 22

/-- `sign | w`. -/
theorem sign_or_toNat {w : BitVec 32} (positive : w.toNat < 2 ^ 31) :
    ((0x80000000 : BitVec 32) ||| w).toNat = 2 ^ 31 + w.toNat := by
  have top : (0x80000000 : BitVec 32).toNat = 1 * 2 ^ 31 := rfl
  rw [BitVec.toNat_or, top, or_add 1 positive, Nat.one_mul]

theorem near_of_round {i : Nat} (below : i < TEST_RANGE) {v : BitVec 32}
    (member : v ∈ floatRound i) : Near (v.toNat % 2 ^ 31) := by
  have range : TEST_RANGE = 500000 := rfl
  have index : (BitVec.ofNat 32 i).toNat = i := by
    rw [BitVec.toNat_ofNat]
    omega
  have plus (c : BitVec 32) (room : c.toNat + i < 2 ^ 32) :
      (c + BitVec.ofNat 32 i).toNat = c.toNat + i := by
    rw [BitVec.toNat_add, index, Nat.mod_eq_of_lt room]
  have minus (c : BitVec 32) (room : i ≤ c.toNat) :
      (c - BitVec.ofNat 32 i).toNat = c.toNat - i := by
    have word := c.isLt
    rw [BitVec.toNat_sub, index]
    omega
  have norm : (0x00800000 : BitVec 32).toNat = 2 ^ 23 := rfl
  have one : (0x3f800000 : BitVec 32).toNat = 127 * 2 ^ 23 := rfl
  have largest : (0x7f000000 : BitVec 32).toNat = 254 * 2 ^ 23 := rfl
  have normPlus := plus 0x00800000 (by omega)
  have normMinus := minus 0x00800000 (by omega)
  have onePlus := plus 0x3f800000 (by omega)
  have oneMinus := minus 0x3f800000 (by omega)
  have largestMinus := minus 0x7f000000 (by omega)
  unfold floatRound at member
  simp only [List.mem_cons, List.not_mem_nil, or_false] at member
  unfold Near
  rcases member with rfl | rfl | rfl | rfl | rfl | rfl | rfl | rfl | rfl | rfl | rfl | rfl
  · omega
  · rw [sign_or_toNat (by omega)]
    omega
  · omega
  · omega
  · rw [sign_or_toNat (by omega)]
    omega
  · rw [sign_or_toNat (by omega)]
    omega
  · omega
  · omega
  · rw [sign_or_toNat (by omega)]
    omega
  · rw [sign_or_toNat (by omega)]
    omega
  · omega
  · rw [sign_or_toNat (by omega)]
    omega

theorem floatVals_near {v : BitVec 32} (member : v ∈ floatVals) : Near (v.toNat % 2 ^ 31) := by
  unfold floatVals at member
  rw [List.mem_append] at member
  rcases member with sampled | special
  · obtain ⟨i, below, round⟩ := List.mem_flatMap.1 sampled
    exact near_of_round (List.mem_range.1 below) round
  · unfold specialVals at special
    simp only [List.mem_cons, List.not_mem_nil, or_false] at special
    refine .inr (.inr (.inr (.inr ?_)))
    rcases special with rfl | rfl | rfl | rfl
    · exact .inl (by decide)
    · exact .inl (by decide)
    · exact .inr (by decide)
    · exact .inr (by decide)

/-- There is no fraction in the last binade but 0. -/
theorem floatScale2_near {v : BitVec 32} (near : Near (v.toNat % 2 ^ 31)) :
    floatScale2 v = test_floatScale2 v := by
  rw [floatScale2_agrees_iff, single_exponent, single_fraction]
  unfold Near at near
  omega

/-- There is no number from 2 on that is an `int`. -/
theorem floatFloat2Int_near {v : BitVec 32} (near : Near (v.toNat % 2 ^ 31)) :
    floatFloat2Int v = test_floatFloat2Int v := by
  rw [floatFloat2Int_agrees_iff, single_exponent]
  unfold Near at near
  omega

/-- The words are no small negative exponents, nor the greatest ones. -/
theorem floatPower2_near {v : BitVec 32} (near : Near (v.toNat % 2 ^ 31)) :
    some (floatPower2 v) = test_floatPower2 v := by
  have word := v.isLt
  rw [floatPower2_agrees_iff]
  unfold GoodPower
  rw [BitVec.toInt_eq_toNat_cond]
  unfold Near at near
  split_ifs <;> omega

theorem passes_float {grade : Bool} {randoms : Nat → BitVec 32} {name : String} {rating : Nat}
    {f : BitVec 32 → BitVec 32} {ft : BitVec 32 → Option (BitVec 32)}
    (same : ∀ v, Near (v.toNat % 2 ^ 31) → some (f v) = ft v) :
    Passes (plainOptions grade) randoms
      ⟨name, funct1 (some ∘ f), funct1 ft, 1, rating, anyFloat⟩ := by
  apply passes_of_agrees (Nat.le_of_ble_eq_true rfl)
  · intro r member
    obtain rfl := List.mem_singleton.1 member
    have one : IsInt 1 := ⟨by decide, by decide⟩
    exact ⟨one, one, .inr (.inl ⟨rfl, rfl⟩)⟩
  · intro l tried
    cases tried with
    | cons first rest =>
        cases rest
        obtain ⟨_, member⟩ := first
        have tried : _ ∈ floatVals := member
        exact ⟨Option.some_ne_none _, same _ (floatVals_near tried)⟩

/-! ## The score -/

/-- **The submission gets all points**, with all random numbers, although three of its
functions are not what their references are. -/
theorem submission_scores :
    (∀ grade randoms,
      runTests (plainOptions grade) randoms noAlarm test_set = some (0, fullScore)) ∧
    (∃ uf, floatScale2 uf ≠ test_floatScale2 uf) ∧
    (∃ uf, floatFloat2Int uf ≠ test_floatFloat2Int uf) ∧
    ∃ x, some (floatPower2 x) ≠ test_floatPower2 x := by
  refine ⟨fun grade randoms => ?_, ⟨0x7f000001, ?_⟩, ⟨0x40000000, ?_⟩, ⟨-1, ?_⟩⟩
  · have passes : ∀ t ∈ test_set, Passes (plainOptions grade) randoms t := by
      unfold test_set
      simp only [List.forall_mem_cons]
      exact ⟨passes_funct2 bitXor_eq, passes_funct rfl,
        passes_funct1 fun x => congrArg some (isTmax_reference x),
        passes_funct1 allOddBits_reference,
        passes_funct1 fun x => congrArg some (negate_reference x),
        passes_funct1 fun x => congrArg some (isAsciiDigit_eq x),
        passes_funct3 conditional_eq, passes_funct2 isLessOrEqual_reference,
        passes_funct1 fun x => congrArg some (logicalNeg_reference x),
        passes_funct1 test_howManyBits_eq,
        passes_float fun v near => congrArg some (floatScale2_near near),
        passes_float fun v near => congrArg some (floatFloat2Int_near near),
        passes_float fun v near => floatPower2_near near, List.forall_mem_nil _⟩
    obtain ⟨n, run⟩ := runTest_pass rfl rfl passes ⟨0, 0, 0, [headLine], 0⟩
    unfold runTests
    rw [run]
    rfl
  · rw [Ne, floatScale2_agrees_iff]
    decide
  · rw [Ne, floatFloat2Int_agrees_iff]
    decide
  · rw [Ne, floatPower2_agrees_iff]
    unfold GoodPower
    decide

/-- The text of the score, as it was kept. -/
example : fullScore =
    ["Score\tRating\tErrors\tFunction\n", " 1\t1\t0\tbitXor\n", " 1\t1\t0\ttmin\n",
      " 1\t1\t0\tisTmax\n", " 2\t2\t0\tallOddBits\n", " 2\t2\t0\tnegate\n",
      " 3\t3\t0\tisAsciiDigit\n", " 3\t3\t0\tconditional\n", " 3\t3\t0\tisLessOrEqual\n",
      " 4\t4\t0\tlogicalNeg\n", " 4\t4\t0\thowManyBits\n", " 4\t4\t0\tfloatScale2\n",
      " 4\t4\t0\tfloatFloat2Int\n", " 4\t4\t0\tfloatPower2\n",
      "Total points: 36/36\n"] := by
  decide +kernel

end CsappLab.Data
