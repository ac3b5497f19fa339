/-
# Driver.Tracegen — the registered transpose functions, run and validated

`func_list` and its registration of `cachelab.c`, `registerFunctions`, `trans` and
`is_transpose` of `trans.c`, and what `tracegen.c` does with them: `main` calls the functions
on the same two matrices, one after the other or one that is selected, and `validate` compares
`B` with what `correctTrans` gives. `func_list` holds the entries below `func_counter`; `none`
is undefined behaviour, such as an entry beyond them.

`validate` accepts where `B` is the transpose of `A` and names the first place where it is not
(`validate_spec`). What `main` returns is 0 where every function in turn leaves the transpose,
and tells otherwise which one is the first that does not (`tracegen_returns`).
-/
import CsappLab.Trans.Submit

namespace CsappLab.Driver

set_option autoImplicit false

open CsappLab.Lib CsappLab.Trans

def MAX_TRANS_FUNCS : Nat := 100

/-- `trans_func_t`. -/
structure TransFunc (α : Type) where
  func_ptr : Nat → Nat → Mem α → Option (Mem α)
  description : String
  correct : Bool
  num_hits : BitVec 32
  num_misses : BitVec 32
  num_evictions : BitVec 32

section Functions

variable {α : Type}

def registerTransFunction (trans : Nat → Nat → Mem α → Option (Mem α)) (desc : String)
    (func_list : List (TransFunc α)) : Option (List (TransFunc α)) :=
  if func_list.length < MAX_TRANS_FUNCS then
    some (func_list ++ [{
      func_ptr := trans
      description := desc
      correct := false
      num_hits := 0
      num_misses := 0
      num_evictions := 0 }])
  else none

def transpose_submit_desc : String := "Transpose submission"

/-- `registerFunctions`; the registration of the other functions is commented out. -/
def registerFunctions (func_list : List (TransFunc α)) : Option (List (TransFunc α)) :=
  registerTransFunction transposeSubmit transpose_submit_desc func_list

/-- `trans`, with the loops of `correctTrans`. -/
def trans (M N : Nat) (m : Mem α) : Option (Mem α) :=
  forInt 0 N 1 (always fun i => forInt 0 M 1 (always fun j => copyElement M N i j)) m

variable [DecidableEq α]

/-- `is_transpose`. -/
def isTranspose (M N : Nat) (m : Mem α) : Bool :=
  (Grid.firstDifference N M m.A fun i j => m.B j i).isNone

/-! ## `validate` -/

/-- What `validate` prints. -/
structure Failure (α : Type) where
  fn : Nat
  expected : α
  got : α
  i : Nat
  j : Nat
  deriving DecidableEq, Repr

def Failure.message [ToString α] (failure : Failure α) : String :=
  "Validation failed on function " ++ toString failure.fn ++ "! Expected " ++
    toString failure.expected ++ " but got " ++ toString failure.got ++ " at B[" ++
    toString failure.i ++ "][" ++ toString failure.j ++ "]\n"

variable [OfNat α 0]

/-- `validate`, which prints and returns 0, or returns 1. -/
def validate (fn M N : Nat) (m : Mem α) : Option (Except (Failure α) Unit) := do
  let C ← correctTrans M N { m with B := fun _ _ => 0 }
  match Grid.firstDifference M N m.B C.B with
  | some (i, j) => some (.error ⟨fn, C.B i j, m.B i j, i, j⟩)
  | none => some (.ok ())

/-! ## `main` -/

/-- How `tracegen` ends: what `main` returns, what has been printed, and the matrices. -/
structure Outcome (α : Type) where
  returned : Nat
  printed : Option (Failure α)
  mem : Mem α

/-- `for (i=0; i < func_counter; i++)`. -/
def invokeAll (M N : Nat) : Nat → List (TransFunc α) → Mem α → Option (Outcome α)
  | _, [], m => some ⟨0, none, m⟩
  | i, func :: func_list, m => do
      let m ← func.func_ptr M N m
      match ← validate i M N m with
      | .error failure => some ⟨i + 1, some failure, m⟩
      | .ok () => invokeAll M N (i + 1) func_list m

/-- The function that is selected. -/
def invokeSelected (M N selectedFunc : Nat) (func_list : List (TransFunc α)) (m : Mem α) :
    Option (Outcome α) := do
  let func ← func_list[selectedFunc]?
  let m ← func.func_ptr M N m
  match ← validate selectedFunc M N m with
  | .error failure => some ⟨selectedFunc + 1, some failure, m⟩
  | .ok () => some ⟨0, none, m⟩

/-- `main` of `tracegen.c` from the functions' registration on. -/
def tracegen (M N : Nat) (selectedFunc : Int) (func_list : List (TransFunc α)) (m : Mem α) :
    Option (Outcome α) :=
  if selectedFunc = -1 then invokeAll M N 0 func_list m
  else if selectedFunc < 0 then none
  else invokeSelected M N selectedFunc.toNat func_list m

end Functions

/-! ## One function after the other -/

section

variable {α : Type} {M N : Nat}

/-- The functions, one after the other on the same matrices. -/
def runs (M N : Nat) (func_list : List (TransFunc α)) (m : Mem α) : Option (Mem α) :=
  func_list.foldlM (fun m func => func.func_ptr M N m) m

theorem runs_cons (func : TransFunc α) (func_list : List (TransFunc α)) (m : Mem α) :
    runs M N (func :: func_list) m = (func.func_ptr M N m).bind (runs M N func_list) := rfl

/-- The functions up to the one with number `n` are defined, and it leaves the matrices with
`P`. -/
def After (M N : Nat) (func_list : List (TransFunc α)) (m : Mem α) (P : Mem α → Prop) (n : Nat) :
    Prop :=
  Ends (runs M N (func_list.take (n + 1)) m) P

theorem after_succ {func : TransFunc α} {func_list : List (TransFunc α)} {m m' : Mem α}
    {P : Mem α → Prop} (ran : func.func_ptr M N m = some m') (n : Nat) :
    After M N (func :: func_list) m P (n + 1) ↔ After M N func_list m' P n := by
  unfold After
  rw [List.take_succ_cons, runs_cons, ran]
  rfl

theorem after_zero {func : TransFunc α} {func_list : List (TransFunc α)} {m m' : Mem α}
    {P : Mem α → Prop} (ran : func.func_ptr M N m = some m') :
    After M N (func :: func_list) m P 0 ↔ P m' := by
  unfold After Ends
  rw [List.take_succ_cons, List.take_zero, runs_cons, ran]
  constructor
  · rintro ⟨s, same, post⟩
    obtain rfl : m' = s := Option.some.inj same
    exact post
  · intro post
    exact ⟨m', rfl, post⟩

end

/-! ## What is validated -/

/-- `B` is the transpose of `A`. -/
def Transposed {α : Type} (M N : Nat) (m : Mem α) : Prop :=
  ∀ i < N, ∀ j < M, m.B j i = m.A i j

section

variable {α : Type} [DecidableEq α] {M N : Nat}

theorem isTranspose_iff (m : Mem α) : isTranspose M N m = true ↔ Transposed M N m := by
  unfold isTranspose Transposed
  rw [Option.isNone_iff_eq_none, Grid.firstDifference_eq_none]
  constructor
  · intro same i inRows j inCols
    exact (same i inRows j inCols).symm
  · intro same i inRows j inCols
    exact (same i inRows j inCols).symm

variable [OfNat α 0]

/-- `validate` in its two cases. -/
theorem validate_cases (sizes : Sizes M N) (fn : Nat) (m : Mem α) :
    (Transposed M N m ∧ validate fn M N m = some (.ok ())) ∨
      ∃ i j, (i < M ∧ j < N ∧ m.B i j ≠ m.A j i) ∧
        (∀ i' j', i' < i ∨ i' = i ∧ j' < j → j' < N → m.B i' j' = m.A j' i') ∧
        validate fn M N m = some (.error ⟨fn, m.A j i, m.B i j, i, j⟩) := by
  obtain ⟨C, ran, writes⟩ := correctTrans_ends sizes { m with B := fun _ _ => 0 }
  have filled : ∀ i < M, ∀ j < N, C.B i j = m.A j i := by
    intro i inRows j inCols
    exact writes.b.inside i j ⟨inRows, inCols⟩
  have step : validate fn M N m =
      match Grid.firstDifference M N m.B C.B with
      | some (i, j) => some (.error ⟨fn, C.B i j, m.B i j, i, j⟩)
      | none => some (.ok ()) := by
    unfold validate
    rw [ran]
    rfl
  rw [step]
  cases found : Grid.firstDifference M N m.B C.B with
  | none =>
      refine .inl ⟨?_, rfl⟩
      intro i inRows j inCols
      rw [Grid.firstDifference_eq_none.1 found j inCols i inRows, filled j inCols i inRows]
  | some place =>
      obtain ⟨i, j⟩ := place
      obtain ⟨⟨inRows, inCols, differ⟩, earlier⟩ := Grid.firstDifference_eq_some found
      rw [filled i inRows j inCols] at differ
      refine .inr ⟨i, j, ⟨inRows, inCols, differ⟩, ?_, ?_⟩
      · intro i' j' before inside
        rw [earlier i' j' before inside, filled i' (by omega) j' inside]
      · show some (Except.error _) = _
        rw [filled i inRows j inCols]

theorem validate_ok (sizes : Sizes M N) (fn : Nat) {m : Mem α} (transposed : Transposed M N m) :
    validate fn M N m = some (.ok ()) := by
  rcases validate_cases sizes fn m with ⟨-, ok⟩ | ⟨i, j, ⟨inRows, inCols, differ⟩, -, -⟩
  · exact ok
  · exact absurd (transposed j inCols i inRows) differ

theorem validate_error (sizes : Sizes M N) (fn : Nat) {m : Mem α}
    (wrong : ¬ Transposed M N m) : ∃ failure, validate fn M N m = some (.error failure) := by
  rcases validate_cases sizes fn m with ⟨transposed, -⟩ | ⟨i, j, -, -, error⟩
  · exact absurd transposed wrong
  · exact ⟨_, error⟩

/-- **`validate` is exact**: it accepts the transpose and nothing else, as `is_transpose` does,
and where it rejects, the message names the first place of `B`, row by row, that is not
`A`'s. -/
theorem validate_spec (cols : M ≤ INT_MAX - 8) (rows : N ≤ INT_MAX - 8) (fn : Nat) (m : Mem α) :
    (validate fn M N m = some (.ok ()) ↔ Transposed M N m) ∧
    (isTranspose M N m = true ↔ validate fn M N m = some (.ok ())) ∧
    (¬ Transposed M N m → ∃ i j, i < M ∧ j < N ∧
      validate fn M N m = some (.error ⟨fn, m.A j i, m.B i j, i, j⟩) ∧
      m.B i j ≠ m.A j i ∧
      ∀ i' j', i' < i ∨ i' = i ∧ j' < j → j' < N → m.B i' j' = m.A j' i') := by
  have sizes : Sizes M N := ⟨cols, rows⟩
  have accepts : validate fn M N m = some (.ok ()) ↔ Transposed M N m := by
    constructor
    · intro ok
      by_contra wrong
      obtain ⟨failure, error⟩ := validate_error sizes fn wrong
      rw [ok] at error
      cases error
    · exact validate_ok sizes fn
  refine ⟨accepts, (isTranspose_iff m).trans accepts.symm, ?_⟩
  intro wrong
  rcases validate_cases sizes fn m with ⟨transposed, -⟩ | ⟨i, j, ⟨inRows, inCols, differ⟩, rest⟩
  · exact absurd transposed wrong
  · exact ⟨i, j, inRows, inCols, rest.2, differ, rest.1⟩

/-- The second row of `B` is wrong. -/
def wrongRow : Mem Nat :=
  ⟨fun i j => 10 * i + j, fun j i => if j = 1 then 5 else 10 * i + j, fun _ => 0, fun _ => false,
    []⟩

theorem validate_spec_wrong : validate 3 2 2 wrongRow = some (.error ⟨3, 1, 5, 1, 0⟩) := by
  have wrong : ¬ Transposed 2 2 wrongRow := by
    intro transposed
    have same : (5 : Nat) = 1 := transposed 0 (by decide) 1 (by decide)
    cases same
  obtain ⟨-, -, rejects⟩ := validate_spec (M := 2) (N := 2) (by decide) (by decide) 3 wrongRow
  obtain ⟨i, j, inRows, inCols, error, differ, earlier⟩ := rejects wrong
  obtain rfl : i = 1 := by
    by_contra other
    obtain rfl : i = 0 := by omega
    exact differ rfl
  obtain rfl : j = 0 := by
    by_contra other
    have same : (5 : Nat) = 1 := earlier 1 0 (.inr ⟨rfl, by omega⟩) (by decide)
    cases same
  exact error

/-! ## What is returned -/

/-- The calls of `main`, from the function with number `i` on: all pass, or one is the first
that does not, or one is the first that is undefined. -/
theorem invokeAll_cases (sizes : Sizes M N) (i : Nat) (func_list : List (TransFunc α))
    (m : Mem α) :
    (∃ m', invokeAll M N i func_list m = some ⟨0, none, m'⟩ ∧
      ∀ n < func_list.length, After M N func_list m (Transposed M N) n) ∨
    ∃ n < func_list.length, (∀ k < n, After M N func_list m (Transposed M N) k) ∧
      ((∃ failure m', invokeAll M N i func_list m = some ⟨i + n + 1, some failure, m'⟩ ∧
          failure.fn = i + n ∧
          After M N func_list m (fun m'' => m'' = m' ∧ ¬ Transposed M N m'') n) ∨
        invokeAll M N i func_list m = none ∧ runs M N (func_list.take (n + 1)) m = none) := by
  induction func_list generalizing i m with
  | nil => exact .inl ⟨m, rfl, fun n less => absurd less (Nat.not_lt_zero n)⟩
  | cons func func_list ih =>
      cases ran : func.func_ptr M N m with
      | none =>
          refine .inr ⟨0, Nat.succ_pos _, fun k less => absurd less (Nat.not_lt_zero k), .inr ?_⟩
          constructor
          · rw [invokeAll, ran]
            rfl
          · rw [List.take_succ_cons, runs_cons, ran]
            rfl
      | some m₁ =>
          have step : invokeAll M N i (func :: func_list) m =
              (validate i M N m₁).bind fun verdict =>
                match verdict with
                | .error failure => some ⟨i + 1, some failure, m₁⟩
                | .ok () => invokeAll M N (i + 1) func_list m₁ := by
            rw [invokeAll, ran]
            rfl
          rcases validate_cases sizes i m₁ with ⟨transposed, ok⟩ | ⟨r, c, ⟨inRows, inCols, differ⟩,
            -, error⟩
          · -- it passes
            rw [ok] at step
            have passes : ∀ n, (∀ k < n, After M N func_list m₁ (Transposed M N) k) →
                ∀ k < n + 1, After M N (func :: func_list) m (Transposed M N) k := by
              intro n before k less
              cases k with
              | zero => exact (after_zero ran).2 transposed
              | succ k => exact (after_succ ran k).2 (before k (Nat.lt_of_succ_lt_succ less))
            rcases ih (i + 1) m₁ with ⟨m', ended, all⟩ | ⟨n, less, before, rest⟩
            · exact .inl ⟨m', step.trans ended, passes _ all⟩
            · refine .inr ⟨n + 1, Nat.succ_lt_succ less, passes n before, ?_⟩
              rcases rest with ⟨failure, m', ended, fn, there⟩ | ⟨undefined, none_⟩
              · refine .inl ⟨failure, m', ?_, by omega, (after_succ ran n).2 there⟩
                rw [step, show i + (n + 1) + 1 = i + 1 + n + 1 by omega]
                exact ended
              · refine .inr ⟨step.trans undefined, ?_⟩
                rw [List.take_succ_cons, runs_cons, ran]
                exact none_
          · -- it is the first that does not
            rw [error] at step
            refine .inr ⟨0, Nat.succ_pos _, fun k less => absurd less (Nat.not_lt_zero k), .inl ?_⟩
            refine ⟨_, m₁, step, rfl, (after_zero ran).2 ⟨rfl, ?_⟩⟩
            exact fun transposed => differ (transposed c inCols r inRows)

/-- **What `tracegen` returns** when it calls all the functions: 0 where every one is defined
and leaves the transpose of the matrix it leaves, and the number after the first function that
does not. -/
theorem tracegen_returns (cols : M ≤ INT_MAX - 8) (rows : N ≤ INT_MAX - 8)
    (func_list : List (TransFunc α)) (m : Mem α) :
    (∃ m', tracegen M N (-1) func_list m = some ⟨0, none, m'⟩ ∧
      ∀ n < func_list.length, After M N func_list m (Transposed M N) n) ∨
    ∃ n < func_list.length, (∀ k < n, After M N func_list m (Transposed M N) k) ∧
      ((∃ failure m', tracegen M N (-1) func_list m = some ⟨n + 1, some failure, m'⟩ ∧
          failure.fn = n ∧
          After M N func_list m (fun m'' => m'' = m' ∧ ¬ Transposed M N m'') n) ∨
        tracegen M N (-1) func_list m = none ∧
          runs M N (func_list.take (n + 1)) m = none) := by
  have cases_ := invokeAll_cases ⟨cols, rows⟩ 0 func_list m
  simp only [Nat.zero_add] at cases_
  exact cases_

/-- `trans`, a function that does nothing, and one that spoils an element. -/
def threeFunctions : List (TransFunc Nat) :=
  [⟨trans, "", false, 0, 0, 0⟩, ⟨fun _ _ m => some m, "", false, 0, 0, 0⟩,
    ⟨fun M N m => m.writeB M N 0 0 7, "", false, 0, 0, 0⟩]

/-- The function that does nothing finds the transpose in place, and passes. -/
theorem tracegen_returns_spoiled :
    ∃ failure m', tracegen 2 2 (-1) threeFunctions wrongRow = some ⟨3, some failure, m'⟩ ∧
      failure.fn = 2 := by
  have returned : (tracegen 2 2 (-1) threeFunctions wrongRow).map (·.returned) = some 3 := by
    decide +kernel
  rcases tracegen_returns (M := 2) (N := 2) (by decide) (by decide) threeFunctions wrongRow with
    ⟨m', ended, -⟩ | ⟨n, -, -, ⟨failure, m', ended, fn, -⟩ | ⟨undefined, -⟩⟩
  · rw [ended] at returned
    cases returned
  · rw [ended] at returned
    obtain rfl : n = 2 := Nat.succ.inj (Option.some.inj returned)
    exact ⟨failure, m', ended, fn⟩
  · rw [undefined] at returned
    cases returned

/-- The entry of `transpose_submit`. -/
def submission : TransFunc α :=
  ⟨transposeSubmit, transpose_submit_desc, false, 0, 0, 0⟩

/-- **The function that is registered passes**, whatever the sizes and the matrices, where all
functions are called and where it is selected. -/
theorem tracegen_submission (sizes : Sizes M N) (m : Mem α) :
    ∃ m', transposeSubmit M N m = some m' ∧ Transposed M N m' ∧
      tracegen M N (-1) [submission] m = some ⟨0, none, m'⟩ ∧
      tracegen M N 0 [submission] m = some ⟨0, none, m'⟩ := by
  obtain ⟨m', ran, writes⟩ := transposeSubmit_ends sizes m
  have transposed : Transposed M N m' := by
    intro i inRows j inCols
    rw [writes.a]
    exact writes.b.inside j i ⟨inCols, inRows⟩
  refine ⟨m', ran, transposed, ?_, ?_⟩
  · show (transposeSubmit M N m).bind _ = _
    rw [ran]
    show (validate 0 M N m').bind _ = _
    rw [validate_ok sizes 0 transposed]
    rfl
  · show (transposeSubmit M N m).bind _ = _
    rw [ran]
    show (validate 0 M N m').bind _ = _
    rw [validate_ok sizes 0 transposed]
    rfl

end

end CsappLab.Driver
