/-
# Tsh.Argv — the lines whose words fit into `argv`

`argv` has `MAXARGS` entries and the scanner never counts them, so whether it
stays inside depends on the line. A word of the scanner is written in one of two
ways (`Written`): spaces and a text between single quotes, or spaces and a bare
word with the space behind it. `le_wordsOf_iff` says that the scanner finds at
least `n` words exactly on the texts that start with `n` written ones, and
`parselineIn_isSome_iff` which of the buffers that `fgets` delivers are taken
apart without a store outside the two arrays: those that start neither with a
NUL nor with `MAXARGS` written words. A written word takes two characters or
more, so every shorter line is among them (`parselineIn_isSome_of_short`).
-/
import CsappLab.Tsh.Words

namespace CsappLab.Tsh

set_option autoImplicit false

open CsappLab.Lib

/-! ## Words as they are written -/

/-- One word of a text with the spaces before it and the delimiter that ends it. -/
inductive Written : List Char → Prop where
  | quoted (n : Nat) {w : List Char} (clean : '\'' ∉ w) :
      Written (spaces n ++ '\'' :: (w ++ ['\'']))
  | bare (n : Nat) {c : Char} {w : List Char} (notSpace : c ≠ ' ') (notQuote : c ≠ '\'')
      (clean : ' ' ∉ w) : Written (spaces n ++ c :: (w ++ [' ']))

/-- The text starts with `n` written words. -/
def StartsWithWords (n : Nat) (text : List Char) : Prop :=
  ∃ (pieces : List (List Char)) (tail : List Char),
    pieces.length = n ∧ (∀ piece ∈ pieces, Written piece) ∧ text = pieces.flatten ++ tail

theorem nextWord_written {piece : List Char} (written : Written piece) (tail : List Char) :
    ∃ w, nextWord (piece ++ tail) = some (w, tail) := by
  cases written with
  | @quoted n w clean =>
      refine ⟨w, ?_⟩
      simp only [List.append_assoc, List.cons_append, List.nil_append, nextWord_spaces,
        nextWord_quoted]
      exact cut_split tail clean
  | @bare n c w notSpace notQuote clean =>
      have clean' : ' ' ∉ c :: w := by simpa [Ne.symm notSpace] using clean
      refine ⟨c :: w, ?_⟩
      simp only [List.append_assoc, List.cons_append, List.nil_append, nextWord_spaces,
        nextWord_bare _ notSpace notQuote]
      exact cut_split tail clean'

theorem written_of_nextWord {text w rest : List Char} (found : nextWord text = some (w, rest)) :
    ∃ piece, Written piece ∧ text = piece ++ rest := by
  obtain ⟨blank, s, rfl, blanks, stop, kind⟩ := nextWord_cases text
  have spaced : blank = spaces blank.length := List.eq_replicate_iff.2 ⟨rfl, blanks⟩
  rcases kind with ⟨quoted, rfl, word⟩ | ⟨unquoted, word⟩
  · rw [word] at found
    obtain ⟨rfl, clean⟩ := cut_some found
    refine ⟨_, .quoted blank.length clean, ?_⟩
    rw [← spaced]
    simp
  · rw [word] at found
    obtain ⟨rfl, clean⟩ := cut_some found
    cases w with
    | nil => exact absurd rfl stop
    | cons c w =>
        have notSpace : c ≠ ' ' := fun same => stop (by simp [same])
        have notQuote : c ≠ '\'' := fun same => unquoted (by simp [same])
        have clean' : ' ' ∉ w := fun member => clean (List.mem_cons_of_mem _ member)
        refine ⟨_, .bare blank.length notSpace notQuote clean', ?_⟩
        rw [← spaced]
        simp

/-- **The words of a text are the ones written at its start.** -/
theorem le_wordsOf_iff (n : Nat) (text : List Char) :
    n ≤ (wordsOf text).length ↔ StartsWithWords n text := by
  induction n generalizing text with
  | zero => exact ⟨fun _ => ⟨[], text, rfl, by simp, rfl⟩, fun _ => Nat.zero_le _⟩
  | succ n ih =>
      constructor
      · intro many
        cases word : nextWord text with
        | none =>
            rw [wordsOf_none word] at many
            cases many
        | some split =>
            obtain ⟨w, rest⟩ := split
            rw [wordsOf_some word, List.length_cons] at many
            obtain ⟨piece, written, rfl⟩ := written_of_nextWord word
            obtain ⟨pieces, tail, count, all, rfl⟩ := (ih rest).1 (Nat.le_of_succ_le_succ many)
            refine ⟨piece :: pieces, tail, congrArg (· + 1) count, ?_, by simp⟩
            intro q member
            rcases List.mem_cons.1 member with rfl | later
            · exact written
            · exact all q later
      · intro start
        obtain ⟨pieces, tail, count, all, rfl⟩ := start
        obtain ⟨piece, pieces, rfl⟩ := List.exists_cons_of_length_eq_add_one count
        obtain ⟨w, word⟩ := nextWord_written (all piece List.mem_cons_self)
          (pieces.flatten ++ tail)
        have rest := (ih (pieces.flatten ++ tail)).2 ⟨pieces, tail, Nat.succ.inj count,
          fun q member => all q (List.mem_cons_of_mem _ member), rfl⟩
        rw [List.flatten_cons, List.append_assoc, wordsOf_some word]
        exact Nat.succ_le_succ rest

theorem Written.two_le {piece : List Char} (written : Written piece) : 2 ≤ piece.length := by
  cases written <;> simp <;> omega

/-- Written words take two characters each. -/
theorem StartsWithWords.length_le {n : Nat} {text : List Char} (start : StartsWithWords n text) :
    2 * n ≤ text.length := by
  obtain ⟨pieces, tail, rfl, all, rfl⟩ := start
  have each : 2 * pieces.length ≤ pieces.flatten.length := by
    induction pieces with
    | nil => simp
    | cons piece pieces ih =>
        have two := (all piece List.mem_cons_self).two_le
        have rest := ih fun q member => all q (List.mem_cons_of_mem _ member)
        simp only [List.length_cons, List.flatten_cons, List.length_append]
        omega
  rw [List.length_append]
  omega

/-! ## The buffers of `fgets` -/

/-- The text the scanner works on: the string with its last character taken for a
space, as `buf[strlen(buf)-1] = ' '` makes it. -/
def scanned (buf : List Char) : List Char := (cString buf).dropLast ++ [' ']

theorem cString_eq_nil_iff {buf : List Char} (nonempty : buf ≠ []) :
    cString buf = [] ↔ buf.head? = some NUL := by
  obtain ⟨c, buf, rfl⟩ := List.exists_cons_of_ne_nil nonempty
  by_cases nul : c = NUL
  · simp [cString, nul]
  · simp [cString, nul]

theorem length_cString_le (buf : List Char) : (cString buf).length ≤ buf.length :=
  (List.takeWhile_prefix _).length_le

/-- A buffer of at most `MAXLINE - 1` characters is scanned without a store outside
the arrays unless it starts with a NUL or with `MAXARGS` written words. -/
theorem parselineIn_isSome {array buf : List Char} (size : array.length = MAXLINE)
    (nonempty : buf ≠ []) (short : buf.length < MAXLINE) :
    (parselineIn array buf).isSome ↔
      buf.head? ≠ some NUL ∧ ¬ StartsWithWords MAXARGS (scanned buf) := by
  have fits := length_cString_le buf
  rw [← le_wordsOf_iff, Ne, ← cString_eq_nil_iff nonempty, scanned]
  rcases List.eq_nil_or_concat (cString buf) with empty | ⟨text, c, line⟩
  · simp [parselineIn_empty empty, empty]
  · rw [List.concat_eq_append] at line
    rw [line, List.length_append, List.length_singleton] at fits
    rw [parselineIn_eq size line (by omega), line, List.dropLast_concat]
    split
    next many => simp [many]
    next few => simp [few]

/-- A line of fewer than 256 characters never has too many words. -/
theorem parselineIn_isSome_of_short {array buf : List Char} (size : array.length = MAXLINE)
    (nonempty : buf ≠ []) (noNul : buf.head? ≠ some NUL) (short : buf.length < 2 * MAXARGS) :
    (parselineIn array buf).isSome := by
  apply (parselineIn_isSome size nonempty (Nat.lt_trans short (by decide))).2
  refine ⟨noNul, fun start => ?_⟩
  have long := start.length_le
  have fits := length_cString_le buf
  rw [scanned, List.length_append, List.length_dropLast, List.length_singleton] at long
  have pos : cString buf ≠ [] := fun empty => noNul ((cString_eq_nil_iff nonempty).1 empty)
  have pos' := List.length_pos_iff.2 pos
  omega

/-- **The lines `parseline` takes apart inside its arrays**, among those that `fgets`
delivers: all but those that start with a NUL or with `MAXARGS` written words. -/
theorem parselineIn_isSome_iff {array file buf rest : List Char} (size : array.length = MAXLINE)
    (read : fgets MAXLINE file = some (buf, rest)) :
    (parselineIn array buf).isSome ↔
      buf.head? ≠ some NUL ∧ ¬ StartsWithWords MAXARGS (scanned buf) := by
  obtain ⟨nonempty, short⟩ := fgets_bounds (by decide) read
  exact parselineIn_isSome size nonempty short

/-- 128 one-letter words on a line. -/
def crowdedLine : List Char := (List.replicate MAXARGS ['a', ' ']).flatten ++ ['\n']

theorem startsWithWords_crowdedLine : StartsWithWords MAXARGS (scanned crowdedLine) := by
  refine ⟨List.replicate MAXARGS ['a', ' '], [' '], List.length_replicate, ?_, ?_⟩
  · intro piece member
    rw [List.eq_of_mem_replicate member]
    exact @Written.bare 0 'a' [] (by decide) (by decide) (by simp)
  · decide +kernel

/-- On such a line the NULL that ends `argv` is stored behind it. -/
theorem argv_overflow : ¬ ∀ array file buf rest : List Char, array.length = MAXLINE →
    fgets MAXLINE file = some (buf, rest) → (parselineIn array buf).isSome := by
  intro always
  have size : (List.replicate MAXLINE NUL).length = MAXLINE := List.length_replicate
  have inside := always _ crowdedLine crowdedLine [] size (by decide +kernel)
  have few := ((parselineIn_isSome size (by decide +kernel) (by decide +kernel)).1 inside).2
  exact few startsWithWords_crowdedLine

theorem parselineIn_isSome_iff_crowded :
    (parselineIn (List.replicate MAXLINE NUL) crowdedLine).isSome ↔
      crowdedLine.head? ≠ some NUL ∧ ¬ StartsWithWords MAXARGS (scanned crowdedLine) := by
  have read : fgets MAXLINE crowdedLine = some (crowdedLine, []) := by decide +kernel
  exact parselineIn_isSome_iff List.length_replicate read

end CsappLab.Tsh
