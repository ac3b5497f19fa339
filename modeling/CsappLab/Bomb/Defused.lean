/-
# Bomb.Defused — the bomb from its first line to its last

`main` of `bomb.c` with `read_line` and `phase_defused` of `bomb.s`. A file is the list of
the buffers that `fgets` fills from it. The bomb reads a line for each phase and skips blank
ones; it goes on to the standard input where the file it was given ends, unless `GRADE_BOMB`
is set: then it exits there, and nothing is read from the standard input. After the sixth line
it looks at the fourth one again: with a third word that reads `DrEvil` there is a seventh
phase.

`Defuses` says which buffers defuse the bomb. `runMain_ends`: on these `main` returns, on all
others the bomb explodes or exits, and it never reads memory that holds nothing.
-/
import CsappLab.Bomb.Phases

namespace CsappLab.Bomb

set_option autoImplicit false

open CsappLab.Lib

/-! ## `read_line` -/

/-- How the bomb ends if `main` does not return. -/
inductive Stop where
  | exit (status : Nat)
  | halt (halt : Halt)
  deriving DecidableEq, Repr

/-- What there is to read: the file that is open, `stdin` unless it is that file, and the
lines read. -/
structure Source where
  infile : List (List Char)
  stdin : Option (List (List Char))
  gradeBomb : Bool
  inputStrings : List (List Char)

def blankLine (buf : List Char) : Bool := (cString buf).all isspace

/-- The next buffer that is not blank. -/
def skip : List (List Char) → Option (List Char × List (List Char))
  | [] => none
  | buf :: bufs => if blankLine buf then skip bufs else some (buf, bufs)

/-- The end of `read_line`. The last character goes, which is a newline unless the file ends
without one. -/
def keepLine (buf : List Char) (s : Source) : Except Stop (List Char × Source) :=
  if 0x4e < (cString buf).length then .error (.halt .exploded)
  else
    let line := (cString buf).dropLast
    .ok (line, { s with inputStrings := s.inputStrings ++ [line] })

def readLine (s : Source) : Except Stop (List Char × Source) :=
  match skip s.infile with
  | some (buf, bufs) => keepLine buf { s with infile := bufs }
  | none =>
      match s.stdin with
      | none => .error (.exit 8)
      | some stdin =>
          if s.gradeBomb then .error (.exit 0)
          else
            match skip stdin with
            | none => .error (.exit 0)
            | some (buf, bufs) => keepLine buf { s with infile := bufs, stdin := none }

/-! ## `main` -/

/-- `%s` after so many `%d`, in `sscanf`. -/
def wordAfter : Nat → List Char → Option (List Char)
  | 0, s =>
      let word := (s.dropWhile isspace).takeWhile fun c => !isspace c
      if word = [] then none else some word
  | n + 1, s =>
      match scanNumber 10 s with
      | none => none
      | some (_, _, stored) => wordAfter n (s.drop stored)

def orHalt {α : Type} : Except Halt α → Except Stop α
  | .ok a => .ok a
  | .error halt => .error (.halt halt)

/-- The test of `phase_defused` on the fourth line. -/
def asksSecret (inputStrings : List (List Char)) : Bool :=
  match (inputStrings[3]?).bind (wordAfter 2) with
  | none => false
  | some word => stringsNotEqual word "DrEvil".toList = 0

/-- `phase_defused`. The call at the end of `secret_phase` finds seven lines and returns. -/
def phaseDefused (s : Source) : Except Stop Source :=
  if s.inputStrings.length = 6 ∧ asksSecret s.inputStrings then do
    let (input, s) ← readLine s
    orHalt (secretPhase input)
    return s
  else .ok s

/-- `input = read_line(); phase_n(input); phase_defused();` -/
def runPhase {α : Type} (phase : List Char → Except Halt α) (s : Source) :
    Except Stop Source := do
  let (input, s) ← readLine s
  let _ ← orHalt (phase input)
  phaseDefused s

def runMain (s : Source) : Except Stop Source := do
  let s ← runPhase phase1 s
  let s ← runPhase phase2 s
  let s ← runPhase phase3 s
  let s ← runPhase phase4 s
  let s ← runPhase phase5 s
  runPhase phase6 s

/-- What `main` starts from, with the file that is named on the command line or without. -/
def start (file : Option (List Char)) (stdin : List Char) (gradeBomb : Bool) : Source :=
  match file with
  | none => ⟨fgetsAll 80 stdin, none, gradeBomb, []⟩
  | some text => ⟨fgetsAll 80 text, some (fgetsAll 80 stdin), gradeBomb, []⟩

/-! ## The lines that are read -/

/-- The buffers that are still to be read, without the blank ones. -/
def pending (s : Source) : List (List Char) :=
  (s.infile ++ if s.gradeBomb then [] else s.stdin.getD []).filter fun buf => !blankLine buf

/-- The buffer is not too long for a line. -/
def Fits (buf : List Char) : Prop := (cString buf).length ≤ 0x4e

def lineOf (buf : List Char) : List Char := (cString buf).dropLast

theorem skip_none {bufs : List (List Char)} (nothing : skip bufs = none) :
    bufs.filter (fun buf => !blankLine buf) = [] := by
  induction bufs with
  | nil => rfl
  | cons buf bufs ih =>
      rw [skip] at nothing
      split at nothing
      · rename_i blank
        rw [List.filter_cons_of_neg (by rw [blank]; decide), ih nothing]
      · cases nothing

theorem skip_some {bufs rest : List (List Char)} {buf : List Char}
    (found : skip bufs = some (buf, rest)) :
    bufs.filter (fun buf => !blankLine buf) = buf :: rest.filter fun buf => !blankLine buf := by
  induction bufs with
  | nil => cases found
  | cons first bufs ih =>
      rw [skip] at found
      split at found
      · rename_i blank
        rw [List.filter_cons_of_neg (by rw [blank]; decide), ih found]
      · rename_i notBlank
        cases found
        rw [List.filter_cons_of_pos (by simpa using notBlank)]

theorem keepLine_fits {buf : List Char} (fits : Fits buf) (s : Source) :
    keepLine buf s =
      .ok (lineOf buf, { s with inputStrings := s.inputStrings ++ [lineOf buf] }) :=
  if_neg (Nat.not_lt.2 fits)

theorem keepLine_long {buf : List Char} (long : ¬ Fits buf) (s : Source) :
    keepLine buf s = .error (.halt .exploded) :=
  if_pos (Nat.not_le.1 long)

/-- A line is kept of a buffer that fits, and the buffers after it stay. -/
def Keeps (s : Source) (buf : List Char) (s' : Source) : Prop :=
  readLine s = keepLine buf s' ∧ s'.inputStrings = s.inputStrings ∧
    pending s = buf :: pending s'

/-- `read_line` takes the first of the buffers that are not blank, or exits. -/
theorem readLine_cases (s : Source) :
    (∃ buf s', Keeps s buf s') ∨
      pending s = [] ∧ ∃ status, readLine s = .error (.exit status) := by
  cases here : skip s.infile with
  | some found =>
      obtain ⟨buf, bufs⟩ := found
      refine .inl ⟨buf, { s with infile := bufs }, ?_, rfl, ?_⟩
      · simp only [readLine, here]
      · simp only [pending, List.filter_append, skip_some here, List.cons_append]
  | none =>
      have nothing := skip_none here
      cases isStdin : s.stdin with
      | none =>
          refine .inr ⟨?_, 8, by simp only [readLine, here, isStdin]⟩
          simp only [pending, nothing, isStdin, Option.getD_none, ite_self, List.append_nil]
      | some stdin =>
          by_cases graded : s.gradeBomb = true
          · refine .inr ⟨?_, 0, by simp only [readLine, here, isStdin, if_pos graded]⟩
            simp only [pending, nothing, if_pos graded, List.append_nil]
          · have following : pending s = stdin.filter fun buf => !blankLine buf := by
              simp only [pending, List.filter_append, nothing, if_neg graded, isStdin,
                Option.getD_some, List.nil_append]
            cases there : skip stdin with
            | none =>
                refine .inr ⟨following.trans (skip_none there), 0, ?_⟩
                simp only [readLine, here, isStdin, if_neg graded, there]
            | some found =>
                obtain ⟨buf, bufs⟩ := found
                refine .inl ⟨buf, { s with infile := bufs, stdin := none }, ?_, rfl, ?_⟩
                · simp only [readLine, here, isStdin, if_neg graded, there]
                · rw [following, skip_some there]
                  simp only [pending, Option.getD_none, ite_self, List.append_nil]

/-! ## Runs -/

/-- The run returns if `P` holds; if not, the bomb explodes or exits. -/
def Ends {α : Type} (run : Except Stop α) (P : Prop) : Prop :=
  (P → ∃ a, run = .ok a) ∧
    (¬ P → run = .error (.halt .exploded) ∨ ∃ status, run = .error (.exit status))

/-- The next buffer fits and `P` holds of its line, and then `Q` of the lines read and the
buffers to come. -/
def Reads (P : List Char → Prop) (Q : List (List Char) → List (List Char) → Prop)
    (inputStrings bufs : List (List Char)) : Prop :=
  ∃ buf rest, bufs = buf :: rest ∧ Fits buf ∧ P (lineOf buf) ∧
    Q (inputStrings ++ [lineOf buf]) rest

theorem line_ends {α β : Type} {phase : List Char → Except Halt α} {P : List Char → Prop}
    (decides : ∀ input, Decides (phase input) (P input)) {s : Source}
    (next : Source → Except Stop β) {Q : List (List Char) → List (List Char) → Prop}
    (rest : ∀ s', s'.inputStrings.length = s.inputStrings.length + 1 →
      Ends (next s') (Q s'.inputStrings (pending s'))) :
    Ends (readLine s >>= fun r => orHalt (phase r.1) >>= fun _ => next r.2)
      (Reads P Q s.inputStrings (pending s)) := by
  rcases readLine_cases s with ⟨buf, s', reads, same, isFirst⟩ | ⟨nothing, status, exits⟩
  · have reading : Reads P Q s.inputStrings (pending s) ↔
        Fits buf ∧ P (lineOf buf) ∧ Q (s'.inputStrings ++ [lineOf buf]) (pending s') := by
      rw [isFirst, same]
      constructor
      · rintro ⟨_, _, isList, accepted⟩
        cases isList
        exact accepted
      · exact fun accepted => ⟨buf, pending s', rfl, accepted⟩
    rw [reads]
    by_cases fits : Fits buf
    · rw [keepLine_fits fits]
      by_cases accepted : P (lineOf buf)
      · obtain ⟨a, ran⟩ := (decides (lineOf buf)).1 accepted
        have further := rest { s' with inputStrings := s'.inputStrings ++ [lineOf buf] }
          (by rw [List.length_append, same]; rfl)
        change Ends (orHalt (phase (lineOf buf)) >>= _) _
        rw [ran]
        exact ⟨fun all => further.1 (reading.1 all).2.2,
          fun no => further.2 fun last => no (reading.2 ⟨fits, accepted, last⟩)⟩
      · change Ends (orHalt (phase (lineOf buf)) >>= _) _
        rw [(decides (lineOf buf)).2 accepted]
        exact ⟨fun all => absurd (reading.1 all).2.1 accepted, fun _ => .inl rfl⟩
    · rw [keepLine_long fits]
      exact ⟨fun all => absurd (reading.1 all).1 fits, fun _ => .inl rfl⟩
  · rw [exits]
    refine ⟨fun ⟨_, _, isList, _⟩ => ?_, fun _ => .inr ⟨status, rfl⟩⟩
    rw [nothing] at isList
    cases isList

/-- After a phase but the sixth, `phase_defused` does nothing. -/
theorem phase_ends {α β : Type} {phase : List Char → Except Halt α} {P : List Char → Prop}
    (decides : ∀ input, Decides (phase input) (P input)) {n : Nat} (early : n + 1 ≠ 6)
    {next : Source → Except Stop β} {Q : List (List Char) → List (List Char) → Prop}
    (rest : ∀ s', s'.inputStrings.length = n + 1 →
      Ends (next s') (Q s'.inputStrings (pending s')))
    {s : Source} (count : s.inputStrings.length = n) :
    Ends (runPhase phase s >>= next) (Reads P Q s.inputStrings (pending s)) := by
  have runs : runPhase phase s >>= next =
      readLine s >>= fun r => orHalt (phase r.1) >>= fun _ => phaseDefused r.2 >>= next := by
    simp only [runPhase, bind_assoc]
  rw [runs]
  refine line_ends decides (fun s' => phaseDefused s' >>= next) fun s' longer => ?_
  have counted : s'.inputStrings.length = n + 1 := by rw [longer, count]
  have skipped : phaseDefused s' = .ok s' := if_neg fun six => early (counted ▸ six.1)
  rw [skipped]
  exact rest s' counted

/-! ## The seventh phase -/

theorem asksSecret_iff (inputStrings : List (List Char)) :
    asksSecret inputStrings = true ↔
      (inputStrings[3]?).bind (wordAfter 2) = some "DrEvil".toList := by
  unfold asksSecret
  cases (inputStrings[3]?).bind (wordAfter 2) with
  | none => exact ⟨fun no => (nomatch no), fun no => (nomatch no)⟩
  | some word =>
      rw [decide_eq_true_iff, stringsNotEqual_eq_zero word (by decide), Option.some_inj]

/-- With the third word on the fourth line there is one line more. -/
def LastLine (inputStrings bufs : List (List Char)) : Prop :=
  (inputStrings[3]?).bind (wordAfter 2) = some "DrEvil".toList →
    Reads (fun input => BitVec.ofInt 32 (strtol 10 input).1 = (0x14 : BitVec 32) ∨
      BitVec.ofInt 32 (strtol 10 input).1 = (0x16 : BitVec 32)) (fun _ _ => True) inputStrings bufs

theorem phaseDefused_ends {s : Source} (count : s.inputStrings.length = 6) :
    Ends (phaseDefused s) (LastLine s.inputStrings (pending s)) := by
  unfold phaseDefused LastLine
  rw [← asksSecret_iff]
  by_cases asks : asksSecret s.inputStrings = true
  · rw [if_pos ⟨count, asks⟩]
    have all : ∀ s' : Source, Ends (Except.ok s' : Except Stop Source) True :=
      fun s' => ⟨fun _ => ⟨s', rfl⟩, fun no => absurd trivial no⟩
    have reads := line_ends secretPhase_decides (s := s) .ok (Q := fun _ _ => True)
      fun s' _ => all s'
    exact ⟨fun last => reads.1 (last asks), fun no => reads.2 fun last => no fun _ => last⟩
  · rw [if_neg fun both => asks both.2]
    exact ⟨fun _ => ⟨s, rfl⟩, fun no => absurd (fun yes => absurd yes asks) no⟩

/-! ## All the lines -/

/-- The buffers that defuse the bomb, with the lines read before them. -/
def Defuses : List (List Char) → List (List Char) → Prop :=
  Reads (fun input => input = "Border relations with Canada have never been better.".toList) <|
  Reads (fun input => sscanf 6 input = [1, 2, 4, 8, 16, 32]) <|
  Reads (fun input => ∃ x y, sscanf 2 input = [x, y] ∧
    x.toNat < 8 ∧ (jumpTable[x.toNat]?).bind caseAt = some y) <|
  Reads (fun input => ∃ x y, sscanf 2 input = [x, y] ∧
    x ∈ [(0 : BitVec 32), 1, 3, 7] ∧ y = 0) <|
  Reads (fun input => input.length % 2 ^ 32 = 6 ∧
    (input.take 6).map (fun c => c.toNat % 16) = [9, 15, 14, 5, 6, 7]) <|
  Reads (fun input => sscanf 6 input = [4, 3, 2, 1, 6, 5]) LastLine

/-- **When the bomb is defused.** -/
theorem runMain_ends (file : Option (List Char)) (stdin : List Char) (gradeBomb : Bool) :
    Ends (runMain (start file stdin gradeBomb))
      (Defuses [] (pending (start file stdin gradeBomb))) := by
  have nothing : (start file stdin gradeBomb).inputStrings = [] := by cases file <;> rfl
  rw [← nothing]
  refine phase_ends phase1_decides (by decide) (fun _ count => ?_) (congrArg List.length nothing)
  refine phase_ends phase2_decides (by decide) (fun _ count => ?_) count
  refine phase_ends phase3_decides (by decide) (fun _ count => ?_) count
  refine phase_ends phase4_decides (by decide) (fun _ count => ?_) count
  refine phase_ends phase5_decides (by decide) (fun _ count => ?_) count
  refine line_ends phase6_decides phaseDefused fun _ longer => phaseDefused_ends ?_
  rw [longer, count]
  rfl

end CsappLab.Bomb
