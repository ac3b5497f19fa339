/-
# Lib.CString — the C string functions the programs call

A C string is the list of its characters before the terminating NUL. The
functions here follow the C standard: `strtol` and `strtoul` skip white space,
take a sign and (base 16) a `0x`, convert as many digits as there are, saturate
at the ends of the 64-bit `long`, and report how many characters they read; no
digit at all reads none and gives 0. `strtok` skips delimiters, cuts the token
at the next one and remembers what follows it. `fgets` takes at most `size - 1`
characters, up to and including the first newline.

The lemmas say what these do on text that is laid out as intended: a word of
digits (`strtoul_digits`), with a sign before it and other text behind it
(`scanNumber_word`), a token that ends at a delimiter (`strtok_token`), a
line that ends at its newline (`fgets_line`). On any text `tokens` lists what the
calls of `strtok` cut off (`strtok_cases`), and `fgetsAll` what the calls of
`fgets` store: a line is read into buffers of its own, however many it takes
(`fgetsAll_line`).
-/
import Mathlib.Algebra.Group.Int.Defs
import Mathlib.Algebra.Group.Nat.Defs
import Mathlib.Data.List.Basic
import Mathlib.Data.List.TakeWhile

namespace CsappLab.Lib

set_option autoImplicit false

/-- The terminating character of a C string. -/
def NUL : Char := Char.ofNat 0

/-- The C string a buffer holds: everything before its first NUL. -/
def cString (buf : List Char) : List Char := buf.takeWhile (· ≠ NUL)

/-- `isspace` in the C locale. -/
def isspace (c : Char) : Bool := c = ' ' ∨ (9 ≤ c.toNat ∧ c.toNat ≤ 13)

/-- The value of a digit or letter in bases up to 36, if it is one of the base. -/
def digitVal (base : Nat) (c : Char) : Option Nat :=
  let v :=
    if '0' ≤ c ∧ c ≤ '9' then c.toNat - 48
    else if 'a' ≤ c ∧ c ≤ 'z' then c.toNat - 87
    else if 'A' ≤ c ∧ c ≤ 'Z' then c.toNat - 55
    else base
  if v < base then some v else none

/-- Convert digits into `acc`; the second component counts them. -/
def scanDigits (base acc : Nat) : List Char → Nat × Nat
  | [] => (acc, 0)
  | c :: cs =>
      match digitVal base c with
      | none => (acc, 0)
      | some v =>
          let r := scanDigits base (base * acc + v) cs
          (r.1, r.2 + 1)

/-- What `strtol` and `strtoul` read: the sign, the value of the digits, and the
number of characters consumed. `none` when there is nothing to convert. -/
def scanNumber (base : Nat) (s : List Char) : Option (Bool × Nat × Nat) :=
  let blank := (s.takeWhile isspace).length
  let s := s.dropWhile isspace
  let (neg, signed, s) :=
    match s with
    | '-' :: rest => (true, 1, rest)
    | '+' :: rest => (false, 1, rest)
    | _ => (false, 0, s)
  let (hex, s) :=
    match s with
    | '0' :: x :: d :: rest =>
        if base = 16 ∧ (x = 'x' ∨ x = 'X') ∧ (digitVal 16 d).isSome then (2, d :: rest) else (0, s)
    | _ => (0, s)
  let (v, digits) := scanDigits base 0 s
  if digits = 0 then none else some (neg, v, blank + signed + hex + digits)

/-- `strtol` with a 64-bit `long`: the value and the offset of the end pointer. -/
def strtol (base : Nat) (s : List Char) : Int × Nat :=
  match scanNumber base s with
  | none => (0, 0)
  | some (neg, v, used) =>
      (if neg then max (-(v : Int)) (-2 ^ 63) else min (v : Int) (2 ^ 63 - 1), used)

/-- `strtoul` with a 64-bit `unsigned long`. A value that does not fit saturates;
otherwise a minus sign negates modulo 2^64. -/
def strtoul (base : Nat) (s : List Char) : BitVec 64 × Nat :=
  match scanNumber base s with
  | none => (0, 0)
  | some (neg, v, used) =>
      (if 2 ^ 64 ≤ v then BitVec.allOnes 64
       else if neg then -BitVec.ofNat 64 v else BitVec.ofNat 64 v, used)

/-- Conversion of a `long` to a 32-bit `int`. -/
def narrowInt (v : Int) : Int := Int.bmod v (2 ^ 32)

/-- A token that `strtok` has cut off, where it starts in the buffer, and where and
on what text the next call goes on. -/
structure Token where
  start : Nat
  text : List Char
  next : Nat
  rest : List Char
  deriving DecidableEq, Repr

/-- `strtok` on the text `s`, which starts at offset `off` of its buffer. -/
def strtok (delims : List Char) (off : Nat) (s : List Char) : Option Token :=
  let start := off + (s.takeWhile (· ∈ delims)).length
  let s := s.dropWhile (· ∈ delims)
  if s = [] then none
  else
    let text := s.takeWhile (· ∉ delims)
    let tail := s.dropWhile (· ∉ delims)
    some
      { start, text
        next := start + text.length + (tail.take 1).length
        rest := tail.drop 1 }

/-- The texts of all the tokens: what stands between the delimiters, if anything. -/
def tokens (delims s : List Char) : List (List Char) :=
  (s.splitOnP (· ∈ delims)).filter (· ≠ [])

/-- At most `n` characters, up to and including the first newline, and the rest. -/
def takeLine : Nat → List Char → List Char × List Char
  | 0, s => ([], s)
  | _ + 1, [] => ([], [])
  | n + 1, c :: cs =>
      if c = '\n' then ([c], cs)
      else
        let r := takeLine n cs
        (c :: r.1, r.2)

/-- `fgets` into a buffer of `size` characters: what it stores before the NUL, and
what is left of the file; null at the end of the file. -/
def fgets (size : Nat) (file : List Char) : Option (List Char × List Char) :=
  if file = [] then none else some (takeLine (size - 1) file)

/-- What up to `n` calls of `fgets` store. -/
def fgetsUpTo (size : Nat) : Nat → List Char → List (List Char)
  | 0, _ => []
  | n + 1, file =>
      match fgets size file with
      | none => []
      | some (buf, rest) => buf :: fgetsUpTo size n rest

/-- What the calls of `fgets` store up to the end of the file. -/
def fgetsAll (size : Nat) (file : List Char) : List (List Char) :=
  fgetsUpTo size file.length file

/-! ## Text as intended -/

section Until

variable {α : Type} [DecidableEq α] {d : α} {w : List α} (tail : List α) (clean : d ∉ w)

include clean

theorem ne_of_clean : ∀ c ∈ w, decide (c ≠ d) = true := by
  intro c member
  have other : c ≠ d := fun same => clean (same ▸ member)
  simpa using other

/-- Up to the first `d`. -/
theorem takeWhile_until : (w ++ d :: tail).takeWhile (· ≠ d) = w := by
  rw [List.takeWhile_append_of_pos (ne_of_clean clean), List.takeWhile_cons_of_neg (by simp),
    List.append_nil]

/-- From the first `d` on. -/
theorem dropWhile_until : (w ++ d :: tail).dropWhile (· ≠ d) = d :: tail := by
  rw [List.dropWhile_append_of_pos (ne_of_clean clean), List.dropWhile_cons_of_neg (by simp)]

end Until

theorem cString_eq {buf : List Char} (noNul : NUL ∉ buf) : cString buf = buf := by
  unfold cString
  exact List.takeWhile_eq_self_iff.2 (ne_of_clean noNul)

/-- The value of a word of digits. -/
def digitsVal (base : Nat) (ds : List Char) : Nat :=
  ds.foldl (fun acc c => base * acc + (digitVal base c).getD 0) 0

def IsDigits (base : Nat) (ds : List Char) : Prop :=
  ∀ c ∈ ds, (digitVal base c).isSome

instance (base : Nat) (ds : List Char) : Decidable (IsDigits base ds) :=
  List.decidableBAll _ _

theorem scanDigits_digits {base : Nat} {ds : List Char} (digits : IsDigits base ds) (acc : Nat) :
    scanDigits base acc ds =
      (ds.foldl (fun acc c => base * acc + (digitVal base c).getD 0) acc, ds.length) := by
  induction ds generalizing acc with
  | nil => rfl
  | cons c ds ih =>
      obtain ⟨v, value⟩ := Option.isSome_iff_exists.1 (digits c List.mem_cons_self)
      have rest : IsDigits base ds := fun d member => digits d (List.mem_cons_of_mem _ member)
      simp [scanDigits, value, ih rest]

theorem digitVal_lt {base v : Nat} {c : Char} (value : digitVal base c = some v) : v < base := by
  simp only [digitVal, Option.ite_none_right_eq_some, Option.some.injEq] at value
  obtain ⟨less, rfl⟩ := value
  exact less

theorem foldl_digits_lt {base : Nat} {ds : List Char} (digits : IsDigits base ds) (acc : Nat) :
    ds.foldl (fun acc c => base * acc + (digitVal base c).getD 0) acc <
      (acc + 1) * base ^ ds.length := by
  induction ds generalizing acc with
  | nil => simp
  | cons c ds ih =>
      obtain ⟨v, value⟩ := Option.isSome_iff_exists.1 (digits c List.mem_cons_self)
      have rest : IsDigits base ds := fun d member => digits d (List.mem_cons_of_mem _ member)
      have less := digitVal_lt value
      rw [List.foldl_cons, value, Option.getD_some, List.length_cons]
      calc _ < (base * acc + v + 1) * base ^ ds.length := ih rest _
        _ ≤ (base * (acc + 1)) * base ^ ds.length := by
            apply Nat.mul_le_mul_right
            rw [Nat.mul_add]
            omega
        _ = (acc + 1) * base ^ (ds.length + 1) := by
            rw [Nat.pow_succ, Nat.mul_comm base, Nat.mul_assoc, Nat.mul_comm base]

theorem digitsVal_lt {base : Nat} {ds : List Char} (digits : IsDigits base ds) :
    digitsVal base ds < base ^ ds.length := by
  have less := foldl_digits_lt digits 0
  rwa [Nat.zero_add, Nat.one_mul] at less

/-- A digit of a base is one of every larger base. -/
theorem IsDigits.mono {base base' : Nat} {ds : List Char} (digits : IsDigits base ds)
    (le : base ≤ base') : IsDigits base' ds := by
  intro c member
  obtain ⟨v, value⟩ := Option.isSome_iff_exists.1 (digits c member)
  simp only [digitVal, Option.ite_none_right_eq_some, Option.some.injEq] at value
  obtain ⟨less, -⟩ := value
  simp only [digitVal]
  split_ifs at less ⊢ <;> first | rfl | omega

theorem digit_range {c : Char} (digit : (digitVal 16 c).isSome) :
    (48 ≤ c.toNat ∧ c.toNat ≤ 57) ∨ (97 ≤ c.toNat ∧ c.toNat ≤ 102) ∨
      (65 ≤ c.toNat ∧ c.toNat ≤ 70) := by
  have le : ∀ a b : Char, a ≤ b ↔ a.toNat ≤ b.toNat := fun a b => Iff.rfl
  obtain ⟨v, value⟩ := Option.isSome_iff_exists.1 digit
  simp only [digitVal, Option.ite_none_right_eq_some, le] at value
  obtain ⟨less, -⟩ := value
  simp only [Char.reduceToNat] at less
  split_ifs at less <;> omega

/-- A digit is no character whose code is outside the digits' ranges. -/
theorem digit_ne {c d : Char} (digit : (digitVal 16 c).isSome)
    (other : (digitVal 16 d).isSome = false) : c ≠ d := by
  rintro rfl
  rw [digit] at other
  cases other

theorem not_isspace_of_digit {c : Char} (digit : (digitVal 16 c).isSome) : isspace c = false := by
  have range := digit_range digit
  have blank : c ≠ ' ' := digit_ne digit rfl
  simp only [isspace, blank, false_or, decide_eq_false_iff_not]
  omega

/-- A word of digits is read as a whole. -/
theorem scanNumber_digits {base : Nat} {ds : List Char} (upTo16 : base ≤ 16)
    (digits : IsDigits base ds) (nonempty : ds ≠ []) :
    scanNumber base ds = some (false, digitsVal base ds, ds.length) := by
  obtain ⟨c, cs, rfl⟩ := List.exists_cons_of_ne_nil nonempty
  have hexDigits := digits.mono upTo16
  have first := hexDigits c List.mem_cons_self
  have space := not_isspace_of_digit first
  have noMinus : c ≠ '-' := digit_ne first rfl
  have noPlus : c ≠ '+' := digit_ne first rfl
  -- the second character is a digit and no `x`
  have noHex : ∀ x d rest, c :: cs = '0' :: x :: d :: rest → ¬ (x = 'x' ∨ x = 'X') := by
    rintro x d rest same isX
    have second : (digitVal 16 x).isSome := hexDigits x (by rw [same]; simp)
    rcases isX with rfl | rfl
    · exact digit_ne second rfl rfl
    · exact digit_ne second rfl rfl
  have all := scanDigits_digits digits 0
  have noBlank : (c :: cs).takeWhile isspace = [] :=
    List.takeWhile_cons_of_neg (by simp [space])
  have same : (c :: cs).dropWhile isspace = c :: cs :=
    List.dropWhile_cons_of_neg (by simp [space])
  have sign : (match c :: cs with
      | '-' :: rest => (true, 1, rest)
      | '+' :: rest => (false, 1, rest)
      | _ => (false, 0, c :: cs) : Bool × Nat × List Char) = (false, 0, c :: cs) := by
    split
    next eq => exact absurd (List.cons.inj eq).1 noMinus
    next eq => exact absurd (List.cons.inj eq).1 noPlus
    next => rfl
  have hex : (match c :: cs with
      | '0' :: x :: d :: rest =>
        if base = 16 ∧ (x = 'x' ∨ x = 'X') ∧ (digitVal 16 d).isSome then (2, d :: rest)
        else (0, c :: cs)
      | _ => (0, c :: cs) : Nat × List Char) = (0, c :: cs) := by
    split
    next x d rest eq => rw [if_neg fun isX => noHex x d rest eq isX.2.1]
    next => rfl
  unfold scanNumber
  simp only [noBlank, same, sign, hex, all]
  rw [if_neg (by simp)]
  simp [digitsVal]

/-- `strtoul` in base 16 on a word of digits. -/
theorem strtoul_digits {ds : List Char} (digits : IsDigits 16 ds) (nonempty : ds ≠ [])
    (short : ds.length ≤ 16) :
    strtoul 16 ds = (BitVec.ofNat 64 (digitsVal 16 ds), ds.length) := by
  have fits : digitsVal 16 ds < 2 ^ 64 := by
    calc _ < 16 ^ ds.length := digitsVal_lt digits
      _ ≤ 16 ^ 16 := Nat.pow_le_pow_right (by decide) short
      _ = 2 ^ 64 := by decide
  unfold strtoul
  rw [scanNumber_digits (Nat.le_refl 16) digits nonempty]
  simp only [if_neg (Nat.not_le.2 fits), Bool.false_eq_true, if_false]

/-! ## A number in a text -/

/-- The text goes on with the digits `ds` of a number before it: with a digit of the base,
or by making the 0 before it the start of a `0x`. -/
def GoesOn (base : Nat) (ds tail : List Char) : Prop :=
  (∃ c ∈ tail.head?, (digitVal base c).isSome) ∨
    (base = 16 ∧ ds = ['0'] ∧ ∃ x d rest, tail = x :: d :: rest ∧ (x = 'x' ∨ x = 'X') ∧
      (digitVal 16 d).isSome)

/-- The text goes on with no number at all, in any base up to 16. -/
def EndsNumber (tail : List Char) : Prop :=
  ∀ c ∈ tail.head?, digitVal 16 c = none ∧ c ≠ 'x' ∧ c ≠ 'X'

instance (tail : List Char) : Decidable (EndsNumber tail) :=
  inferInstanceAs (Decidable (∀ c ∈ tail.head?, digitVal 16 c = none ∧ c ≠ 'x' ∧ c ≠ 'X'))

/-- `-`, or nothing. -/
def signOf (neg : Bool) : List Char :=
  if neg then ['-'] else []

section Read

variable {base : Nat} {ds tail : List Char}

theorem not_digit_of_ends {c : Char} (upTo16 : base ≤ 16) (other : digitVal 16 c = none) :
    digitVal base c = none := by
  cases value : digitVal base c with
  | none => rfl
  | some v =>
      have digit : IsDigits base [c] := by
        intro d member
        rw [List.mem_singleton.1 member, value]
        rfl
      have hexDigit := digit.mono upTo16 c (List.mem_singleton_self c)
      rw [other] at hexDigit
      cases hexDigit

theorem EndsNumber.not_goesOn (ends : EndsNumber tail) (upTo16 : base ≤ 16) :
    ¬ GoesOn base ds tail := by
  rintro (⟨c, here, digit⟩ | ⟨-, -, x, d, rest, rfl, isX, -⟩)
  · rw [not_digit_of_ends upTo16 (ends c here).1] at digit
    cases digit
  · exact isX.elim (ends x rfl).2.1 (ends x rfl).2.2

theorem scanDigits_word (digits : IsDigits base ds)
    (ends : ∀ c ∈ tail.head?, digitVal base c = none) (acc : Nat) :
    scanDigits base acc (ds ++ tail) =
      (ds.foldl (fun acc c => base * acc + (digitVal base c).getD 0) acc, ds.length) := by
  induction ds generalizing acc with
  | nil =>
      cases tail with
      | nil => rfl
      | cons c tail =>
          simp [scanDigits, ends c rfl]
  | cons c ds ih =>
      obtain ⟨v, value⟩ := Option.isSome_iff_exists.1 (digits c List.mem_cons_self)
      have rest : IsDigits base ds := fun d member => digits d (List.mem_cons_of_mem _ member)
      simp [scanDigits, value, ih rest]

/-- **A word of digits is read back**, with the sign before it. -/
theorem scanNumber_word (upTo16 : base ≤ 16) (digits : IsDigits base ds) (nonempty : ds ≠ [])
    (ends : ¬ GoesOn base ds tail) (neg : Bool) :
    scanNumber base (signOf neg ++ (ds ++ tail)) =
      some (neg, digitsVal base ds, (signOf neg).length + ds.length) := by
  obtain ⟨c, cs, rfl⟩ := List.exists_cons_of_ne_nil nonempty
  have hexDigits := digits.mono upTo16
  have first := hexDigits c List.mem_cons_self
  have space := not_isspace_of_digit first
  have noMinus : c ≠ '-' := digit_ne first rfl
  have noPlus : c ≠ '+' := digit_ne first rfl
  -- the second character is a digit or ends the number
  have noHex : ∀ x d rest, c :: cs ++ tail = '0' :: x :: d :: rest →
      ¬ (base = 16 ∧ (x = 'x' ∨ x = 'X') ∧ (digitVal 16 d).isSome) := by
    rintro x d rest same ⟨hex, isX, digit⟩
    cases cs with
    | nil =>
        obtain ⟨rfl, rfl⟩ := List.cons.inj same
        exact ends (.inr ⟨hex, rfl, x, d, rest, rfl, isX, digit⟩)
    | cons c' cs =>
        obtain rfl : c' = x := (List.cons.inj (List.cons.inj same).2).1
        have second : (digitVal 16 c').isSome := hexDigits c' (by simp)
        rcases isX with rfl | rfl
        · exact digit_ne second rfl rfl
        · exact digit_ne second rfl rfl
  have noDigit : ∀ d ∈ tail.head?, digitVal base d = none := by
    intro d here
    by_contra digit
    exact ends (.inl ⟨d, here, Option.isSome_iff_ne_none.2 digit⟩)
  have all := scanDigits_word digits noDigit 0
  rw [List.cons_append] at all ⊢
  simp only [List.cons_append] at noHex
  generalize cs ++ tail = rest at all noHex ⊢
  have hex : (match c :: rest with
      | '0' :: x :: d :: rest' =>
        if base = 16 ∧ (x = 'x' ∨ x = 'X') ∧ (digitVal 16 d).isSome then (2, d :: rest')
        else (0, c :: rest)
      | _ => (0, c :: rest) : Nat × List Char) = (0, c :: rest) := by
    split
    next x d rest' eq => rw [if_neg (noHex x d rest' eq)]
    next => rfl
  cases neg with
  | true =>
      have noBlank : ('-' :: c :: rest).takeWhile isspace = [] :=
        List.takeWhile_cons_of_neg (by decide)
      have same : ('-' :: c :: rest).dropWhile isspace = '-' :: c :: rest :=
        List.dropWhile_cons_of_neg (by decide)
      show scanNumber base ('-' :: c :: rest) = _
      unfold scanNumber
      simp only [noBlank, same, hex, all]
      rw [if_neg (by simp)]
      simp [digitsVal, signOf]
  | false =>
      have noBlank : (c :: rest).takeWhile isspace = [] :=
        List.takeWhile_cons_of_neg (by simp [space])
      have same : (c :: rest).dropWhile isspace = c :: rest :=
        List.dropWhile_cons_of_neg (by simp [space])
      have sign : (match c :: rest with
          | '-' :: rest' => (true, 1, rest')
          | '+' :: rest' => (false, 1, rest')
          | _ => (false, 0, c :: rest) : Bool × Nat × List Char) = (false, 0, c :: rest) := by
        split
        next eq => exact absurd (List.cons.inj eq).1 noMinus
        next eq => exact absurd (List.cons.inj eq).1 noPlus
        next => rfl
      show scanNumber base (c :: rest) = _
      unfold scanNumber
      simp only [noBlank, same, sign, hex, all]
      rw [if_neg (by simp)]
      simp [digitsVal, signOf]

/-- `strtoul` in base 16 on a word of digits with other text behind it. -/
theorem strtoul_word (digits : IsDigits 16 ds) (nonempty : ds ≠ []) (short : ds.length ≤ 16)
    (ends : EndsNumber tail) :
    strtoul 16 (ds ++ tail) = (BitVec.ofNat 64 (digitsVal 16 ds), ds.length) := by
  have fits : digitsVal 16 ds < 2 ^ 64 := by
    calc _ < 16 ^ ds.length := digitsVal_lt digits
      _ ≤ 16 ^ 16 := Nat.pow_le_pow_right (by decide) short
      _ = 2 ^ 64 := by decide
  have word := scanNumber_word (Nat.le_refl 16) digits nonempty
    (ends.not_goesOn (Nat.le_refl 16)) false
  simp only [signOf, Bool.false_eq_true, if_false, List.nil_append, List.length_nil,
    Nat.zero_add] at word
  unfold strtoul
  rw [word]
  simp only [if_neg (Nat.not_le.2 fits), Bool.false_eq_true, if_false]

/-- Blanks before a number are read with it. -/
theorem scanNumber_blank {blank s : List Char} (blanks : ∀ c ∈ blank, isspace c = true) :
    scanNumber base (blank ++ s) =
      (scanNumber base s).map fun read => (read.1, read.2.1, blank.length + read.2.2) := by
  have taken : (blank ++ s).takeWhile isspace = blank ++ s.takeWhile isspace :=
    List.takeWhile_append_of_pos blanks
  have dropped : (blank ++ s).dropWhile isspace = s.dropWhile isspace :=
    List.dropWhile_append_of_pos blanks
  unfold scanNumber
  simp only [taken, dropped, List.length_append]
  rw [apply_ite (Option.map _)]
  simp only [Option.map_none, Option.map_some, Nat.add_assoc]

end Read

/-! ## What is lost in an `int` -/

/-- The number at the front of `s`, whatever its size. -/
def leadingNumber (base : Nat) (s : List Char) : Option Int :=
  (scanNumber base s).map fun read => if read.1 then -(read.2.1 : Int) else read.2.1

/-- `strtol` saturates at the ends of `long`. -/
theorem strtol_leadingNumber (base : Nat) (s : List Char) :
    (leadingNumber base s = none ∧ (strtol base s).1 = 0) ∨
      ∃ v, leadingNumber base s = some v ∧
        (strtol base s).1 = max (min v (2 ^ 63 - 1)) (-2 ^ 63) := by
  unfold leadingNumber strtol
  cases scanNumber base s with
  | none => exact .inl ⟨rfl, rfl⟩
  | some read =>
      obtain ⟨neg, v, used⟩ := read
      refine .inr ⟨_, rfl, ?_⟩
      cases neg with
      | false =>
          show min (v : Int) (2 ^ 63 - 1) = max (min (v : Int) (2 ^ 63 - 1)) (-2 ^ 63)
          omega
      | true =>
          show max (-(v : Int)) (-2 ^ 63) = max (min (-(v : Int)) (2 ^ 63 - 1)) (-2 ^ 63)
          omega

/-- An `int` is left as it is. -/
theorem narrowInt_of_fits {v : Int} (low : -2 ^ 31 ≤ v) (high : v < 2 ^ 31) : narrowInt v = v :=
  Int.bmod_eq_of_le (by omega) (by omega)

theorem narrowInt_cases (v : Int) :
    (v % 2 ^ 32 < 2 ^ 31 ∧ narrowInt v = v % 2 ^ 32) ∨
      (2 ^ 31 ≤ v % 2 ^ 32 ∧ narrowInt v = v % 2 ^ 32 - 2 ^ 32) := by
  have full : ((2 ^ 32 : Nat) : Int) = 2 ^ 32 := by decide
  simp only [narrowInt, Int.bmod_def, full]
  by_cases below : v % 2 ^ 32 < 2 ^ 31
  · exact .inl ⟨below, if_pos below⟩
  · exact .inr ⟨Int.not_lt.1 below, if_neg below⟩

/-- What a text must start with for `int x = strtol(s)` to be the positive `n`: a
number that fits in a `long` and is `n` modulo 2^32. -/
theorem narrowInt_strtol_eq_iff {base : Nat} {s : List Char} {n : Int} (pos : 1 ≤ n)
    (small : n < 2 ^ 31) :
    narrowInt (strtol base s).1 = n ↔
      ∃ v, leadingNumber base s = some v ∧ -2 ^ 63 ≤ v ∧ v < 2 ^ 63 ∧ v % 2 ^ 32 = n := by
  rcases strtol_leadingNumber base s with ⟨nothing, value⟩ | ⟨v, number, value⟩
  · have zero : narrowInt 0 = 0 := by decide
    rw [value, zero, nothing]
    simp
    omega
  · rw [value, number]
    simp only [Option.some.injEq, exists_eq_left']
    rcases narrowInt_cases (max (min v (2 ^ 63 - 1)) (-2 ^ 63)) with ⟨below, eq⟩ | ⟨above, eq⟩ <;>
      rw [eq] <;> constructor <;> intro same <;> omega

/-- A token up to the first delimiter after it, or to the end of the text. -/
theorem strtok_token (delims blank : List Char) {token : List Char} (tail : List Char) (off : Nat)
    (blanks : ∀ c ∈ blank, c ∈ delims) (nonempty : token ≠ []) (clean : ∀ c ∈ token, c ∉ delims)
    (ends : ∀ c ∈ tail.head?, c ∈ delims) :
    ∃ t, strtok delims off (blank ++ token ++ tail) = some t ∧ t.text = token ∧
      t.rest = tail.drop 1 := by
  obtain ⟨c, cs, rfl⟩ := List.exists_cons_of_ne_nil nonempty
  have stop : (tail.takeWhile (· ∉ delims)) = [] ∧ tail.dropWhile (· ∉ delims) = tail := by
    cases tail with
    | nil => exact ⟨rfl, rfl⟩
    | cons d rest =>
        have delim : d ∈ delims := ends d rfl
        constructor
        · rw [List.takeWhile_cons_of_neg (by simpa using delim)]
        · rw [List.dropWhile_cons_of_neg (by simpa using delim)]
  have skip : (blank ++ (c :: cs) ++ tail).dropWhile (· ∈ delims) = (c :: cs) ++ tail := by
    rw [List.append_assoc, List.dropWhile_append_of_pos (by simpa using blanks),
      List.cons_append, List.dropWhile_cons_of_neg (by simpa using clean c List.mem_cons_self)]
  have cut : ((c :: cs) ++ tail).takeWhile (· ∉ delims) = c :: cs := by
    rw [List.takeWhile_append_of_pos (by simpa using clean), stop.1, List.append_nil]
  have left : ((c :: cs) ++ tail).dropWhile (· ∉ delims) = tail := by
    rw [List.dropWhile_append_of_pos (by simpa using clean), stop.2]
  have found : (c :: cs) ++ tail ≠ [] := by simp
  unfold strtok
  simp only [skip, cut, left, if_neg found]
  exact ⟨_, rfl, rfl, rfl⟩

theorem strtok_nothing {delims blank : List Char} (off : Nat) (blanks : ∀ c ∈ blank, c ∈ delims) :
    strtok delims off blank = none := by
  have all : blank.dropWhile (· ∈ delims) = [] := by
    rw [List.dropWhile_eq_nil_iff]
    simpa using blanks
  unfold strtok
  rw [all]
  rfl

/-! ## All the tokens of a text -/

section Tokens

variable {delims : List Char}

@[simp] theorem tokens_nil (delims : List Char) : tokens delims [] = [] := by
  simp [tokens]

theorem tokens_delim {d : Char} (s : List Char) (delim : d ∈ delims) :
    tokens delims (d :: s) = tokens delims s := by
  simp [tokens, List.splitOnP_cons_eq_if_modifyHead, delim]

theorem tokens_blank {blank : List Char} (s : List Char) (blanks : ∀ c ∈ blank, c ∈ delims) :
    tokens delims (blank ++ s) = tokens delims s := by
  induction blank with
  | nil => rfl
  | cons d blank ih =>
      rw [List.cons_append, tokens_delim _ (blanks d List.mem_cons_self),
        ih fun c member => blanks c (List.mem_cons_of_mem _ member)]

/-- The first token starts at the first character that is no delimiter. -/
theorem tokens_cons {c : Char} (s : List Char) (other : c ∉ delims) :
    ∃ w more, tokens delims (c :: s) = (c :: w) :: more := by
  obtain ⟨w, more, split⟩ :=
    List.exists_cons_of_ne_nil (List.splitOnP_ne_nil (fun c => decide (c ∈ delims)) s)
  exact ⟨w, more.filter (· ≠ []), by
    simp [tokens, List.splitOnP_cons_eq_if_modifyHead, other, split]⟩

/-- A token up to the first delimiter after it, or to the end of the text. -/
theorem tokens_token {token : List Char} (tail : List Char) (nonempty : token ≠ [])
    (clean : ∀ c ∈ token, c ∉ delims) (ends : ∀ c ∈ tail.head?, c ∈ delims) :
    tokens delims (token ++ tail) = token :: tokens delims (tail.drop 1) := by
  have inside : ∀ c ∈ token, decide (c ∈ delims) = false := by simpa using clean
  cases tail with
  | nil => simp [tokens, List.splitOnP_eq_singleton inside, nonempty]
  | cons d tail =>
      have delim : decide (d ∈ delims) = true := by simpa using ends d rfl
      have split := List.splitOnP_append_cons_of_forall_mem inside d delim tail
      simp [tokens, split, nonempty]

theorem length_tokens_le (delims s : List Char) : (tokens delims s).length ≤ s.length + 1 := by
  have pieces : (s.splitOnP (· ∈ delims)).length ≤ s.length + 1 := by
    induction s with
    | nil => simp
    | cons c s ih =>
        rw [List.splitOnP_cons_eq_if_modifyHead]
        split
        · simpa using ih
        · simpa using Nat.le_succ_of_le ih
  exact Nat.le_trans (List.length_filter_le _ _) pieces

/-- `strtok` cuts off the first token and leaves the others. -/
theorem strtok_cases (delims : List Char) (off : Nat) (s : List Char) :
    (strtok delims off s = none ∧ tokens delims s = []) ∨
      ∃ t, strtok delims off s = some t ∧ tokens delims s = t.text :: tokens delims t.rest := by
  let blank := s.takeWhile (· ∈ delims)
  have blanks : ∀ c ∈ blank, c ∈ delims := fun c member => by
    simpa using List.mem_takeWhile_imp member
  have same : blank ++ s.dropWhile (· ∈ delims) = s := List.takeWhile_append_dropWhile
  by_cases empty : s.dropWhile (· ∈ delims) = []
  · have all : blank = s := by rw [← same, empty, List.append_nil]
    have nothing : tokens delims (blank ++ []) = tokens delims [] := tokens_blank [] blanks
    rw [List.append_nil, all, tokens_nil] at nothing
    exact .inl ⟨strtok_nothing off (all ▸ blanks), nothing⟩
  · -- the word, and what follows it
    let w := (s.dropWhile (· ∈ delims)).takeWhile (· ∉ delims)
    let tail := (s.dropWhile (· ∈ delims)).dropWhile (· ∉ delims)
    have split : w ++ tail = s.dropWhile (· ∈ delims) := List.takeWhile_append_dropWhile
    have clean : ∀ c ∈ w, c ∉ delims := fun c member => by
      simpa using List.mem_takeWhile_imp member
    have nonempty : w ≠ [] := by
      obtain ⟨c, cs, eq⟩ := List.exists_cons_of_ne_nil empty
      have first : c ∉ delims := by
        have stop := List.head?_dropWhile_not (fun c => decide (c ∈ delims)) s
        rw [eq] at stop
        simpa using stop
      show (s.dropWhile (· ∈ delims)).takeWhile (· ∉ delims) ≠ []
      rw [eq, List.takeWhile_cons_of_pos (by simpa using first)]
      simp
    have whole : s = blank ++ w ++ tail := by rw [List.append_assoc, split, same]
    have ends : ∀ c ∈ tail.head?, c ∈ delims := by
      intro c head
      have stop := List.head?_dropWhile_not (fun c => decide (c ∉ delims))
        (s.dropWhile (· ∈ delims))
      rw [show List.head? _ = some c from head] at stop
      simpa using stop
    obtain ⟨t, cut, text, rest⟩ := strtok_token delims blank tail off blanks nonempty clean ends
    refine .inr ⟨t, whole ▸ cut, ?_⟩
    rw [text, rest, whole, List.append_assoc, tokens_blank _ blanks,
      tokens_token tail nonempty clean ends]

end Tokens

/-! ## Lines -/

theorem takeLine_clean {line : List Char} (clean : '\n' ∉ line) (n : Nat) (tail : List Char) :
    takeLine (line.length + n) (line ++ tail) =
      (line ++ (takeLine n tail).1, (takeLine n tail).2) := by
  induction line with
  | nil => simp
  | cons c line ih =>
      have noNewline : c ≠ '\n' := fun same => clean (by simp [same])
      have ih' := ih fun member => clean (List.mem_cons_of_mem _ member)
      rw [List.length_cons, Nat.add_right_comm, List.cons_append]
      simp only [takeLine, if_neg noNewline, ih', List.cons_append]

/-- A line that fits is read up to its newline. -/
theorem fgets_line {size : Nat} {line : List Char} (rest : List Char) (clean : '\n' ∉ line)
    (fits : line.length + 2 ≤ size) :
    fgets size (line ++ '\n' :: rest) = some (line ++ ['\n'], rest) := by
  obtain ⟨n, rfl⟩ := Nat.exists_eq_add_of_le fits
  have count : line.length + 2 + n - 1 = line.length + (n + 1) := by omega
  unfold fgets
  rw [if_neg (by simp), count, takeLine_clean clean]
  simp [takeLine]

/-- A last line without a newline. -/
theorem fgets_last {size : Nat} {line : List Char} (nonempty : line ≠ []) (clean : '\n' ∉ line)
    (fits : line.length + 1 ≤ size) : fgets size line = some (line, []) := by
  obtain ⟨n, rfl⟩ := Nat.exists_eq_add_of_le fits
  have count : line.length + 1 + n - 1 = line.length + n := by omega
  have all := takeLine_clean clean n []
  rw [List.append_nil] at all
  unfold fgets
  rw [if_neg nonempty, count, all]
  cases n <;> simp [takeLine]

theorem takeLine_append (n : Nat) (s : List Char) : (takeLine n s).1 ++ (takeLine n s).2 = s := by
  induction s generalizing n with
  | nil => cases n <;> rfl
  | cons c s ih =>
      cases n with
      | zero => rfl
      | succ n =>
          simp only [takeLine]
          split
          · rfl
          · rw [List.cons_append, ih]

theorem length_takeLine_le (n : Nat) (s : List Char) : (takeLine n s).1.length ≤ n := by
  induction s generalizing n with
  | nil => cases n <;> simp [takeLine]
  | cons c s ih =>
      cases n with
      | zero => simp [takeLine]
      | succ n =>
          simp only [takeLine]
          split
          · simp
          · exact Nat.succ_le_succ (ih n)

section AllLines

variable {size : Nat}

theorem fgets_isSome {file : List Char} (size : Nat) (more : file ≠ []) :
    fgets size file = some (takeLine (size - 1) file) := if_neg more

theorem fgets_eq_none {file : List Char} (read : fgets size file = none) : file = [] := by
  by_contra more
  rw [fgets_isSome size more] at read
  cases read

/-- A buffer full of characters without a newline. -/
theorem fgets_full {a : List Char} (tail : List Char) (nonempty : a ≠ []) (clean : '\n' ∉ a)
    (full : a.length + 1 = size) : fgets size (a ++ tail) = some (a, tail) := by
  have taken := takeLine_clean clean 0 tail
  rw [fgets_isSome size (by simp [nonempty]), ← full, Nat.add_sub_cancel]
  simpa [takeLine] using taken

/-- What is stored is taken off the file. -/
theorem fgets_append {file buf rest : List Char} (read : fgets size file = some (buf, rest)) :
    buf ++ rest = file := by
  simp only [fgets, Option.ite_none_left_eq_some, Option.some.injEq] at read
  have whole := takeLine_append (size - 1) file
  rwa [read.2] at whole

/-- Every call takes something off the file. -/
theorem fgets_shorter {file buf rest : List Char} (wide : 2 ≤ size)
    (read : fgets size file = some (buf, rest)) : rest.length < file.length := by
  obtain ⟨n, rfl⟩ : ∃ n, size = n + 2 := ⟨size - 2, by omega⟩
  have whole := fgets_append read
  cases file with
  | nil => cases read
  | cons c cs =>
      rw [fgets_isSome _ (List.cons_ne_nil c cs), Option.some.injEq] at read
      have taken : takeLine (n + 1) (c :: cs) = (buf, rest) := read
      have first : (takeLine (n + 1) (c :: cs)).1 ≠ [] := by
        simp only [takeLine]
        split <;> simp
      rw [taken] at first
      have pos : 0 < buf.length := List.length_pos_iff.2 first
      have count : buf.length + rest.length = (c :: cs).length := by
        rw [← whole, List.length_append]
      omega

/-- What is stored is not empty, and leaves room for the NUL. -/
theorem fgets_bounds {file buf rest : List Char} (wide : 2 ≤ size)
    (read : fgets size file = some (buf, rest)) : buf ≠ [] ∧ buf.length < size := by
  constructor
  · intro empty
    have whole := fgets_append read
    have shorter := fgets_shorter wide read
    rw [empty, List.nil_append] at whole
    rw [whole] at shorter
    exact Nat.lt_irrefl _ shorter
  · simp only [fgets, Option.ite_none_left_eq_some, Option.some.injEq] at read
    have stored := length_takeLine_le (size - 1) file
    rw [read.2] at stored
    exact Nat.lt_of_le_of_lt stored (by omega)

theorem fgetsUpTo_eq {n m : Nat} {file : List Char} (wide : 2 ≤ size) (enough : file.length ≤ n)
    (enough' : file.length ≤ m) : fgetsUpTo size n file = fgetsUpTo size m file := by
  induction n generalizing m file with
  | zero =>
      obtain rfl := List.length_eq_zero_iff.1 (Nat.le_zero.1 enough)
      cases m <;> rfl
  | succ n ih =>
      cases m with
      | zero =>
          obtain rfl := List.length_eq_zero_iff.1 (Nat.le_zero.1 enough')
          rfl
      | succ m =>
          simp only [fgetsUpTo]
          split
          next => rfl
          next buf rest read =>
            have shorter := fgets_shorter wide read
            rw [ih (m := m) (by omega) (by omega)]

@[simp] theorem fgetsAll_nil (size : Nat) : fgetsAll size [] = [] := rfl

theorem fgetsAll_cons {file buf rest : List Char} (wide : 2 ≤ size)
    (read : fgets size file = some (buf, rest)) :
    fgetsAll size file = buf :: fgetsAll size rest := by
  have shorter := fgets_shorter wide read
  have rounds : file.length = (file.length - 1) + 1 := by omega
  unfold fgetsAll
  rw [rounds]
  simp only [fgetsUpTo, read]
  rw [fgetsUpTo_eq wide (by omega) (Nat.le_refl _)]

/-- The buffers are the file, cut up. -/
theorem flatten_fgetsAll (wide : 2 ≤ size) (file : List Char) :
    (fgetsAll size file).flatten = file := by
  induction long : file.length using Nat.strongRecOn generalizing file with
  | ind n ih =>
      cases read : fgets size file with
      | none =>
          obtain rfl := fgets_eq_none read
          rfl
      | some taken =>
          obtain ⟨buf, rest⟩ := taken
          have shorter := fgets_shorter wide read
          rw [fgetsAll_cons wide read, List.flatten_cons, ih rest.length (by omega) rest rfl]
          exact fgets_append read

/-- A text without a newline fits into a buffer with one, or fills its first buffer. -/
theorem fits_or_full (wide : 2 ≤ size) {text : List Char} (clean : '\n' ∉ text) :
    text.length + 2 ≤ size ∨
      ∃ a b, text = a ++ b ∧ a.length = size - 1 ∧ '\n' ∉ b ∧
        ∀ tail, fgetsAll size (a ++ tail) = a :: fgetsAll size tail := by
  by_cases fits : text.length + 2 ≤ size
  · exact .inl fits
  · have full : (text.take (size - 1)).length = size - 1 := by
      rw [List.length_take]
      omega
    have nonempty : text.take (size - 1) ≠ [] := List.ne_nil_of_length_pos (by omega)
    refine .inr ⟨text.take (size - 1), text.drop (size - 1), (List.take_append_drop _ _).symm, full,
      fun member => clean (List.mem_of_mem_drop member), fun tail => ?_⟩
    apply fgetsAll_cons wide
    exact fgets_full tail nonempty (fun member => clean (List.mem_of_mem_take member)) (by omega)

/-- A line is read on its own, in however many pieces. -/
theorem fgetsAll_line (wide : 2 ≤ size) {text : List Char} (clean : '\n' ∉ text)
    (rest : List Char) :
    fgetsAll size (text ++ '\n' :: rest) =
      fgetsAll size (text ++ ['\n']) ++ fgetsAll size rest := by
  induction long : text.length using Nat.strongRecOn generalizing text with
  | ind n ih =>
      rcases fits_or_full wide clean with fits | ⟨a, b, rfl, full, cleanB, first⟩
      · rw [fgetsAll_cons wide (fgets_line rest clean fits),
          fgetsAll_cons wide (fgets_line [] clean fits), fgetsAll_nil]
        rfl
      · rw [List.length_append] at long
        rw [List.append_assoc, List.append_assoc, first, first,
          ih b.length (by omega) cleanB rfl]
        rfl

/-- The newline of a line gets a buffer of its own if the line fills its buffers, and
comes at the end of the last one otherwise. -/
theorem fgetsAll_newline (wide : 2 ≤ size) {text : List Char} (clean : '\n' ∉ text) :
    (text.length % (size - 1) = 0 ∧
        fgetsAll size (text ++ ['\n']) = fgetsAll size text ++ [['\n']]) ∨
      (text.length % (size - 1) ≠ 0 ∧ ∃ bufs buf, fgetsAll size text = bufs ++ [buf] ∧
        fgetsAll size (text ++ ['\n']) = bufs ++ [buf ++ ['\n']]) := by
  induction long : text.length using Nat.strongRecOn generalizing text with
  | ind n ih =>
      rcases fits_or_full wide clean with fits | ⟨a, b, rfl, full, cleanB, first⟩
      · have line := fgetsAll_cons wide (fgets_line [] clean fits)
        cases text with
        | nil => exact .inl ⟨long ▸ Nat.zero_mod _, line⟩
        | cons c cs =>
            have last := fgetsAll_cons wide
              (fgets_last (List.cons_ne_nil c cs) clean (Nat.le_of_succ_le fits))
            refine .inr ⟨?_, [], c :: cs, last, line⟩
            rw [← long, Nat.mod_eq_of_lt (by omega)]
            exact Nat.succ_ne_zero _
      · rw [List.length_append, full, Nat.add_comm] at long
        rw [← long, Nat.add_mod_right, List.append_assoc, first, first]
        rcases ih b.length (by omega) cleanB rfl with ⟨even, own⟩ | ⟨odd, bufs, buf, last, line⟩
        · exact .inl ⟨even, by rw [own]; rfl⟩
        · exact .inr ⟨odd, a :: bufs, buf, by rw [last]; rfl, by rw [line]; rfl⟩

end AllLines

end CsappLab.Lib
