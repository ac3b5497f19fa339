/-
# Csim.Options — the options of the simulator

`main` of `csim.c` up to `cacheInitialize`: `getopt` returns one option after the
other, the number of each `-s`, `-E` and `-b` is stored in a local that nothing has
initialised, `-t` opens the trace, and at the end `main` goes on unless an error has
been seen. `Stored` says what a sequence of options has stored (`takeOption_stored` for
one of them, `Stored.trans` for one sequence after another).

`main` goes on if what is given is `Accepted`, which is less than what the usage text
asks for: a number is looked at after it has been cut down to an `int`, a missing one is
what happens to be in the local, and a missing trace is no error. `checked_iff` puts this
together.
-/
import CsappLab.Csim.Csim

namespace CsappLab.Csim

set_option autoImplicit false

open CsappLab.Lib CsappLab.Cache

/-! ## The options -/

def helpInfo : String :=
  "Usage: ./csim-ref [-hv] -s <num> -E <num> -b <num> -t <file>\n" ++
  "Options:\n" ++
  "  -h         Print this help message.\n" ++
  "  -v         Optional verbose flag." ++
  "  -s <num>   Number of set index bits.\n" ++
  "  -E <num>   Number of lines per set.\n" ++
  "  -b <num>   Number of block offset bits.\n" ++
  "  -t <file>  Trace file."

/-- The options with a number: `-s`, `-E` and `-b`. -/
inductive Param where
  | s
  | E
  | b
  deriving DecidableEq, Repr

/-- What `getopt` returns, with `optarg`; `file` is what `fopen(optarg, "r")` returns then,
the characters of the file or null. -/
inductive Given where
  | h
  | v
  | num (p : Param) (optarg : List Char)
  | t (optarg : List Char) (file : Option (List Char))
  | unknown
  deriving DecidableEq, Repr

/-- What the options are stored in. -/
structure Settings where
  configShowVerbose : Bool
  param_s : BitVec 32
  paramE : BitVec 32
  param_b : BitVec 32
  pInputFile : Option (List Char)
  generalInputError : Bool
  deriving DecidableEq, Repr

namespace Settings

/-- The local of an option. -/
def get (st : Settings) : Param → BitVec 32
  | .s => st.param_s
  | .E => st.paramE
  | .b => st.param_b

def set (st : Settings) (tmp : BitVec 32) : Param → Settings
  | .s => { st with param_s := tmp }
  | .E => { st with paramE := tmp }
  | .b => { st with param_b := tmp }

end Settings

/-- `tmp = strtol(optarg, &pEndTmp, 10)`, where `(pEndTmp != optarg) && (tmp > 0)`. -/
def positiveArg (optarg : List Char) : Option (BitVec 32) :=
  let (v, used) := strtol 10 optarg
  let tmp := narrowInt v
  if used ≠ 0 ∧ 0 < tmp then some (BitVec.ofInt 32 tmp) else none

/-- One round of the option loop; `none` when `main` prints the usage and returns. -/
def takeOption (st : Settings) : Given → Option Settings
  | .h => none
  | .v => some { st with configShowVerbose := true }
  | .num p optarg =>
      match positiveArg optarg with
      | some tmp => some (st.set tmp p)
      | none => some { st with generalInputError := true }
  | .t _ file =>
      match file with
      | some _ => some { st with pInputFile := file }
      | none => some { st with pInputFile := none, generalInputError := true }
  | .unknown => none

/-- Before the option loop; `locals` is what is in the locals. -/
def initSettings (locals : Param → BitVec 32) : Settings where
  configShowVerbose := false
  param_s := locals .s
  paramE := locals .E
  param_b := locals .b
  pInputFile := none
  generalInputError := false

/-- What comes after the options: the usage text and no more, or `cacheInitialize`. -/
inductive Start where
  | help
  | goesOn (st : Settings)
  deriving DecidableEq, Repr

/-- The option loop and the checks after it. -/
def readOptions (locals : Param → BitVec 32) (givens : List Given) : Start :=
  match givens.foldlM takeOption (initSettings locals) with
  | none => .help
  | some st =>
      if st.generalInputError ∨ st.param_s = 0 ∨ st.paramE = 0 ∨ st.param_b = 0 then .help
      else .goesOn st

/-- How the program ends: with the usage text, or as `runMain` does. -/
inductive Exit where
  | help (text : String)
  | ran (e : End)

/-- `main`, from the options on. -/
def main (locals : Param → BitVec 32) (givens : List Given) (allocated : Bool)
    (calloc : Lines → Option Nat) (optarg : OptArg) : Option Exit :=
  match readOptions locals givens with
  | .help => some (.help helpInfo)
  | .goesOn st =>
      match st.pInputFile with
      | some file =>
          (runMain allocated calloc optarg st.configShowVerbose st.param_s st.paramE st.param_b
            file).map .ran
      | none =>
          -- `fgets` is called with a null pointer, if the sets can be allocated
          if allocated then none else some (.ran .unallocated)

/-! ## What is given -/

/-- The arguments of an option with a number. -/
def args (p : Param) (givens : List Given) : List (List Char) :=
  givens.filterMap fun g =>
    match g with
    | .num q optarg => if q = p then some optarg else none
    | _ => none

/-- The files of the `-t` options. -/
def files (givens : List Given) : List (Option (List Char)) :=
  givens.filterMap fun g =>
    match g with
    | .t _ file => some file
    | _ => none

/-- What the usage asks for, and the settings are what it says: each number is given, as
a positive one each time, and is the last one given; a file that opened is given. -/
structure Proper (givens : List Given) (st : Settings) : Prop where
  positive : ∀ p, ∀ optarg ∈ args p givens, ∃ v, leadingNumber 10 optarg = some v ∧ 0 < v
  exact : ∀ p, ∃ optarg ∈ (args p givens).getLast?,
    leadingNumber 10 optarg = some ((st.get p).toNat : Int)
  file : ∃ file, some file ∈ files givens ∧ st.pInputFile = some file

/-- The options are checked: `main` goes on with what it should only, and prints the usage
and does nothing else where it should not go on at all. -/
structure Checked (locals : Param → BitVec 32) (givens : List Given) : Prop where
  onlyIf : ∀ st, readOptions locals givens = .goesOn st → Proper givens st
  otherwise : (∀ st, ¬ Proper givens st) → ∀ allocated calloc optarg,
    main locals givens allocated calloc optarg = some (.help helpInfo)

/-- The number fits in a `long`, and is positive as an `int`. -/
def PositiveInt (optarg : List Char) : Prop :=
  ∃ v, leadingNumber 10 optarg = some v ∧ -2 ^ 63 ≤ v ∧ v < 2 ^ 63 ∧
    0 < v % 2 ^ 32 ∧ v % 2 ^ 32 < 2 ^ 31

/-- What `main` accepts. -/
structure Accepted (locals : Param → BitVec 32) (givens : List Given) : Prop where
  known : ∀ g ∈ givens, g ≠ .h ∧ g ≠ .unknown
  numbers : ∀ p, ∀ optarg ∈ args p givens, PositiveInt optarg
  opened : none ∉ files givens
  /-- A number that is not given must not be 0 by chance. -/
  leftOver : ∀ p, args p givens = [] → locals p ≠ 0

/-- What `main` does not see. -/
inductive Overlooked (givens : List Given) : Prop
  | missing {p : Param} (none_ : args p givens = [])
  | noFile (none_ : files givens = [])
  | negative {p : Param} {optarg : List Char} {v : Int} (given : optarg ∈ args p givens)
      (number : leadingNumber 10 optarg = some v) (less : v < 0)
  | tooLarge {p : Param} {optarg : List Char} {v : Int}
      (last : optarg ∈ (args p givens).getLast?) (number : leadingNumber 10 optarg = some v)
      (large : 2 ^ 31 ≤ v)

/-! ## Numbers -/

theorem strtol_used {base : Nat} {optarg : List Char} (nonzero : (strtol base optarg).1 ≠ 0) :
    (strtol base optarg).2 ≠ 0 := by
  unfold strtol at nonzero ⊢
  cases scanned : scanNumber base optarg with
  | none => simp [scanned] at nonzero
  | some read =>
      obtain ⟨neg, v, used⟩ := read
      simp only [scanNumber, Option.ite_none_left_eq_some, Option.some.injEq,
        Prod.mk.injEq] at scanned
      simp only
      omega

theorem narrowInt_lt (v : Int) : narrowInt v < 2 ^ 31 := by
  rcases narrowInt_cases v with ⟨below, eq⟩ | ⟨-, eq⟩ <;> omega

theorem toNat_ofInt_small {n : Int} (pos : 0 < n) (small : n < 2 ^ 31) :
    ((BitVec.ofInt 32 n).toNat : Int) = n := by
  rw [BitVec.toNat_ofInt]
  omega

/-- The value that is stored, where there is one. -/
theorem positiveArg_eq_some_iff {optarg : List Char} {tmp : BitVec 32} :
    positiveArg optarg = some tmp ↔
      ∃ v, leadingNumber 10 optarg = some v ∧ -2 ^ 63 ≤ v ∧ v < 2 ^ 63 ∧
        0 < v % 2 ^ 32 ∧ v % 2 ^ 32 < 2 ^ 31 ∧ (tmp.toNat : Int) = v % 2 ^ 32 := by
  have unfolded : positiveArg optarg = some tmp ↔ ((strtol 10 optarg).2 ≠ 0 ∧
      0 < narrowInt (strtol 10 optarg).1) ∧ BitVec.ofInt 32 (narrowInt (strtol 10 optarg).1) =
        tmp := by
    simp [positiveArg]
  rw [unfolded]
  constructor
  · rintro ⟨⟨-, pos⟩, rfl⟩
    have small := narrowInt_lt (strtol 10 optarg).1
    obtain ⟨v, number, low, high, same⟩ := (narrowInt_strtol_eq_iff pos small).1 rfl
    refine ⟨v, number, low, high, by omega, by omega, ?_⟩
    rw [toNat_ofInt_small pos small, same]
  · rintro ⟨v, number, low, high, pos, small, value⟩
    have narrowed : narrowInt (strtol 10 optarg).1 = v % 2 ^ 32 :=
      (narrowInt_strtol_eq_iff pos small).2 ⟨v, number, low, high, rfl⟩
    refine ⟨⟨strtol_used ?_, by omega⟩, ?_⟩
    · intro zero
      have none_ : narrowInt 0 = 0 := rfl
      rw [zero] at narrowed
      omega
    · apply BitVec.eq_of_toNat_eq
      have value' := toNat_ofInt_small pos small
      rw [narrowed]
      omega

theorem positiveArg_isSome_iff {optarg : List Char} :
    (positiveArg optarg).isSome ↔ PositiveInt optarg := by
  rw [Option.isSome_iff_exists]
  constructor
  · rintro ⟨tmp, stored⟩
    obtain ⟨v, number, low, high, pos, small, -⟩ := positiveArg_eq_some_iff.1 stored
    exact ⟨v, number, low, high, pos, small⟩
  · rintro ⟨v, number, low, high, pos, small⟩
    exact ⟨_, positiveArg_eq_some_iff.2
      ⟨v, number, low, high, pos, small, toNat_ofInt_small pos small⟩⟩

/-! ## The option loop -/

namespace Settings

@[simp] theorem get_set_self (st : Settings) (tmp : BitVec 32) (p : Param) :
    (st.set tmp p).get p = tmp := by
  cases p <;> rfl

@[simp] theorem get_set_other (st : Settings) (tmp : BitVec 32) {p q : Param} (ne : q ≠ p) :
    (st.set tmp p).get q = st.get q := by
  cases p <;> cases q <;> first | rfl | exact absurd rfl ne

@[simp] theorem set_pInputFile (st : Settings) (tmp : BitVec 32) (p : Param) :
    (st.set tmp p).pInputFile = st.pInputFile := by
  cases p <;> rfl

@[simp] theorem set_generalInputError (st : Settings) (tmp : BitVec 32) (p : Param) :
    (st.set tmp p).generalInputError = st.generalInputError := by
  cases p <;> rfl

end Settings

/-- From `st` to `st'` the options `givens` have been taken. -/
structure Stored (st : Settings) (givens : List Given) (st' : Settings) : Prop where
  error : st'.generalInputError = false ↔ st.generalInputError = false ∧
    (∀ p, ∀ optarg ∈ args p givens, (positiveArg optarg).isSome) ∧ none ∉ files givens
  param : st'.generalInputError = false → ∀ p,
    st'.get p = ((args p givens).getLast?.bind positiveArg).getD (st.get p)
  file : st'.pInputFile = (files givens).getLast?.getD st.pInputFile

theorem args_append (p : Param) (givens givens' : List Given) :
    args p (givens ++ givens') = args p givens ++ args p givens' :=
  List.filterMap_append

theorem files_append (givens givens' : List Given) :
    files (givens ++ givens') = files givens ++ files givens' :=
  List.filterMap_append

theorem stored_nil (st : Settings) : Stored st [] st := by
  constructor
  · simp [args, files]
  · simp [args]
  · rfl

theorem Stored.trans {st st₁ st₂ : Settings} {givens givens' : List Given}
    (first : Stored st givens st₁) (second : Stored st₁ givens' st₂) :
    Stored st (givens ++ givens') st₂ := by
  constructor
  · rw [second.error, first.error, files_append]
    simp only [args_append, List.mem_append, or_imp, forall_and, not_or]
    tauto
  · intro noError p
    obtain ⟨noError₁, numbers, -⟩ := second.error.1 noError
    rw [second.param noError, first.param noError₁, args_append, List.getLast?_append]
    cases last : (args p givens').getLast? with
    | none => simp
    | some optarg =>
        -- the last argument has been stored, there being no error
        obtain ⟨tmp, stored⟩ := Option.isSome_iff_exists.1
          (numbers p optarg (List.mem_of_getLast? last))
        simp [stored]
  · rw [second.file, first.file, files_append, List.getLast?_append]
    cases (files givens').getLast? <;> simp

/-- One option. -/
theorem takeOption_stored (st : Settings) {g : Given} (known : g ≠ .h ∧ g ≠ .unknown) :
    ∃ st', takeOption st g = some st' ∧ Stored st [g] st' := by
  cases g with
  | h => exact absurd rfl known.1
  | unknown => exact absurd rfl known.2
  | v => exact ⟨_, rfl, by simp [args, files], by simp [args, Settings.get], rfl⟩
  | t optarg file =>
      cases file with
      | none => exact ⟨_, rfl, by simp [files], by simp, by simp [files]⟩
      | some file =>
          exact ⟨_, rfl, by simp [args, files], by simp [args, Settings.get], by simp [files]⟩
  | num p optarg =>
      cases value : positiveArg optarg with
      | none =>
          refine ⟨{ st with generalInputError := true }, by simp [takeOption, value], ?_, by simp,
            rfl⟩
          simp [args, value]
      | some tmp =>
          refine ⟨st.set tmp p, by simp [takeOption, value], ?_, ?_, by simp [files]⟩
          · simp [args, files, value]
          · intro _ q
            by_cases same : q = p
            · subst same
              simp [args, value]
            · simp [args, same, Ne.symm same]

/-- **The option loop**: a `-h` or an unknown option ends it, otherwise everything is
stored. -/
theorem foldlM_takeOption (st : Settings) (givens : List Given) :
    (givens.foldlM takeOption st = none ∧ ¬ ∀ g ∈ givens, g ≠ .h ∧ g ≠ .unknown) ∨
      ∃ st', givens.foldlM takeOption st = some st' ∧ Stored st givens st' ∧
        ∀ g ∈ givens, g ≠ .h ∧ g ≠ .unknown := by
  induction givens generalizing st with
  | nil => exact .inr ⟨st, rfl, stored_nil st, by simp⟩
  | cons g givens ih =>
      by_cases known : g ≠ .h ∧ g ≠ .unknown
      · obtain ⟨st₁, taken, stored⟩ := takeOption_stored st known
        simp only [List.foldlM_cons, taken, Option.bind_eq_bind, Option.bind_some,
          List.forall_mem_cons]
        rcases ih st₁ with ⟨stops, some_⟩ | ⟨st₂, ends, stored', all⟩
        · exact .inl ⟨stops, fun all => some_ all.2⟩
        · exact .inr ⟨st₂, ends, stored.trans stored', known, all⟩
      · left
        constructor
        · have stops : takeOption st g = none := by
            rw [not_and_or, not_not, not_not] at known
            rcases known with rfl | rfl <;> rfl
          rw [List.foldlM_cons, stops]
          rfl
        · exact fun all => known (all g List.mem_cons_self)

section

variable {locals : Param → BitVec 32} {givens : List Given} {st : Settings}

@[simp] theorem get_initSettings (locals : Param → BitVec 32) (p : Param) :
    (initSettings locals).get p = locals p := by
  cases p <;> rfl

/-- The value of an option is that of its last argument, or what was in the local. -/
theorem Stored.get_cases (stored : Stored (initSettings locals) givens st)
    (noError : st.generalInputError = false) (p : Param) :
    (args p givens = [] ∧ st.get p = locals p) ∨
      ∃ optarg ∈ (args p givens).getLast?, positiveArg optarg = some (st.get p) := by
  have value := stored.param noError p
  cases last : (args p givens).getLast? with
  | none =>
      rw [last] at value
      exact .inl ⟨List.getLast?_eq_none_iff.1 last, by simpa using value⟩
  | some optarg =>
      obtain ⟨-, numbers, -⟩ := stored.error.1 noError
      obtain ⟨tmp, positive⟩ := Option.isSome_iff_exists.1
        (numbers p optarg (List.mem_of_getLast? last))
      rw [last] at value
      have same : st.get p = tmp := by simpa [positive] using value
      exact .inr ⟨optarg, rfl, by rw [positive, same]⟩

theorem ne_zero_of_positiveArg {optarg : List Char} {tmp : BitVec 32}
    (positive : positiveArg optarg = some tmp) : tmp ≠ 0 := by
  obtain ⟨v, -, -, -, pos, -, value⟩ := positiveArg_eq_some_iff.1 positive
  rintro rfl
  have zero : (0 : BitVec 32).toNat = 0 := rfl
  omega

theorem Stored.accepted_iff (stored : Stored (initSettings locals) givens st)
    (known : ∀ g ∈ givens, g ≠ .h ∧ g ≠ .unknown) :
    Accepted locals givens ↔ st.generalInputError = false ∧ ∀ p, st.get p ≠ 0 := by
  constructor
  · intro accepted
    have noError : st.generalInputError = false := stored.error.2 ⟨rfl,
      fun p optarg member => positiveArg_isSome_iff.2 (accepted.numbers p optarg member),
      accepted.opened⟩
    refine ⟨noError, fun p => ?_⟩
    rcases stored.get_cases noError p with ⟨absent, left⟩ | ⟨optarg, -, positive⟩
    · rw [left]
      exact accepted.leftOver p absent
    · exact ne_zero_of_positiveArg positive
  · rintro ⟨noError, nonzero⟩
    obtain ⟨-, numbers, opened⟩ := stored.error.1 noError
    refine ⟨known, fun p optarg member => positiveArg_isSome_iff.1 (numbers p optarg member),
      opened, fun p absent => ?_⟩
    have left := stored.param noError p
    rw [absent] at left
    simpa [left] using nonzero p

/-- `main` goes on with what is stored if the options are accepted, and only then. -/
theorem readOptions_cases (locals : Param → BitVec 32) (givens : List Given) :
    (readOptions locals givens = .help ∧ ¬ Accepted locals givens) ∨
      ∃ st, readOptions locals givens = .goesOn st ∧ Accepted locals givens ∧
        st.generalInputError = false ∧ Stored (initSettings locals) givens st := by
  unfold readOptions
  rcases foldlM_takeOption (initSettings locals) givens with
    ⟨stops, unknown⟩ | ⟨st, ends, stored, known⟩
  · rw [stops]
    exact .inl ⟨rfl, fun accepted => unknown accepted.known⟩
  · have iff_ := stored.accepted_iff known
    have each : (∀ p, st.get p ≠ 0) ↔ st.param_s ≠ 0 ∧ st.paramE ≠ 0 ∧ st.param_b ≠ 0 := by
      constructor
      · exact fun all => ⟨all .s, all .E, all .b⟩
      · intro all p
        cases p with
        | s => exact all.1
        | E => exact all.2.1
        | b => exact all.2.2
    have checks : (st.generalInputError ∨ st.param_s = 0 ∨ st.paramE = 0 ∨ st.param_b = 0) ↔
        ¬ Accepted locals givens := by
      rw [iff_, each]
      cases st.generalInputError with
      | false => simp only [Bool.false_eq_true, true_and]; tauto
      | true => simp
    rw [ends]
    by_cases accepted : Accepted locals givens
    · right
      refine ⟨st, ?_, accepted, (iff_.1 accepted).1, stored⟩
      simp only [checks, accepted, not_true_eq_false, if_false]
    · left
      simp only [checks, accepted, not_false_eq_true, if_true, and_self]

/-! ## What `main` checks -/

/-- What is accepted and not overlooked is proper. -/
theorem Stored.proper (stored : Stored (initSettings locals) givens st)
    (noError : st.generalInputError = false) (accepted : Accepted locals givens)
    (seen : ¬ Overlooked givens) : Proper givens st := by
  constructor
  · intro p optarg member
    obtain ⟨v, number, -, -, pos, -⟩ := accepted.numbers p optarg member
    refine ⟨v, number, ?_⟩
    by_contra notPos
    have nonzero : v ≠ 0 := by
      rintro rfl
      cases pos
    exact seen (.negative member number (by omega))
  · intro p
    rcases stored.get_cases noError p with ⟨absent, -⟩ | ⟨optarg, last, positive⟩
    · exact absurd (.missing absent) seen
    · obtain ⟨v, number, -, -, -, -, value⟩ := positiveArg_eq_some_iff.1 positive
      have notNegative : ¬ v < 0 := fun less =>
        seen (.negative (List.mem_of_getLast? last) number less)
      have notLarge : ¬ 2 ^ 31 ≤ v := fun large => seen (.tooLarge last number large)
      refine ⟨optarg, last, ?_⟩
      rw [number, value, Int.emod_eq_of_lt (by omega) (by omega)]
  · have file := stored.file
    cases last : (files givens).getLast? with
    | none => exact absurd (.noFile (List.getLast?_eq_none_iff.1 last)) seen
    | some file' =>
        have member := List.mem_of_getLast? last
        cases file' with
        | none => exact absurd member accepted.opened
        | some chars =>
            rw [last] at file
            exact ⟨chars, member, file⟩

theorem Stored.not_proper (stored : Stored (initSettings locals) givens st)
    (noError : st.generalInputError = false) (overlooked : Overlooked givens) :
    ¬ Proper givens st := by
  intro proper
  cases overlooked with
  | @missing p none_ =>
      obtain ⟨optarg, last, -⟩ := proper.exact p
      rw [none_] at last
      cases last
  | noFile none_ =>
      obtain ⟨file, member, -⟩ := proper.file
      rw [none_] at member
      cases member
  | @negative p optarg v given number less =>
      obtain ⟨v', number', pos⟩ := proper.positive p optarg given
      rw [number] at number'
      cases number'
      omega
  | @tooLarge p optarg v last number large =>
      obtain ⟨optarg', last', exact_⟩ := proper.exact p
      cases Option.mem_unique last last'
      rcases stored.get_cases noError p with ⟨absent, -⟩ | ⟨optarg', last', positive⟩
      · rw [absent] at last
        cases last
      · cases Option.mem_unique last last'
        obtain ⟨v', number', -, -, -, small, value⟩ := positiveArg_eq_some_iff.1 positive
        rw [number] at number' exact_
        cases number'
        have same := Option.some.inj exact_
        omega

/-- **What `main` checks.** The options are checked if and only if it is not the case that
they are accepted although a number or the trace is missing, a number is negative, or the
last number of an option does not fit in an `int`. -/
theorem checked_iff (locals : Param → BitVec 32) (givens : List Given) :
    Checked locals givens ↔ ¬ (Accepted locals givens ∧ Overlooked givens) := by
  rcases readOptions_cases locals givens with
    ⟨help, notAccepted⟩ | ⟨st, goesOn, accepted, noError, stored⟩
  · constructor
    · exact fun _ both => notAccepted both.1
    · refine fun _ => ⟨?_, ?_⟩
      · intro st goesOn
        rw [help] at goesOn
        cases goesOn
      · intro _ allocated calloc optarg
        simp [main, help]
  · constructor
    · rintro checked ⟨-, overlooked⟩
      exact stored.not_proper noError overlooked (checked.onlyIf st goesOn)
    · intro seen
      have proper := stored.proper noError accepted fun overlooked => seen ⟨accepted, overlooked⟩
      refine ⟨?_, fun never => absurd proper (never st)⟩
      intro st' goesOn'
      rw [goesOn] at goesOn'
      cases goesOn'
      exact proper

end

/-- No trace; a number of sets that is 1 modulo 2^32; no `-s`, and 7 in the local. -/
theorem not_checked :
    ¬ Checked (fun _ => 0) [.num .s ['1'], .num .E ['1'], .num .b ['1']] ∧
    ¬ Checked (fun _ => 0) [.num .s ['4', '2', '9', '4', '9', '6', '7', '2', '9', '7'],
      .num .E ['1'], .num .b ['1'], .t ['f'] (some [])] ∧
    ¬ Checked (fun _ => 7) [.num .E ['1'], .num .b ['1'], .t ['f'] (some [])] := by
  refine ⟨fun checked => ?_, fun checked => ?_, fun checked => ?_⟩
  · obtain ⟨file, member, -⟩ :=
      (checked.onlyIf ⟨false, 1, 1, 1, none, false⟩ (by decide +kernel)).file
    cases member
  · obtain ⟨optarg, last, exact_⟩ :=
      (checked.onlyIf ⟨false, 1, 1, 1, some [], false⟩ (by decide +kernel)).exact .s
    cases last
    revert exact_
    decide +kernel
  · obtain ⟨optarg, last, -⟩ :=
      (checked.onlyIf ⟨false, 7, 1, 1, some [], false⟩ (by decide +kernel)).exact .s
    cases last

end CsappLab.Csim
