/-
# Tsh.Words — what the scanner reads off a command line

`wordsOf` is the scanner without its buffer: skip the spaces, take a word up to
its delimiter (the closing quote if it starts with one, a space otherwise), go
on behind the delimiter, and stop where none is left. `parselineIn_eq` says that
`parseline` computes exactly that on every line that fits: the buffer it cuts up
in place always consists of the part it is done with and the text still to be
scanned, and a word cut off stays readable since its NUL lies in the first part.
What earlier lines left behind the text is never looked at.

A `CommandLine` is a line written as intended: words, bare or between single
quotes, with spaces around them. `parselineIn_text` is the round trip: `parseline`
gives back the words that were written.
-/
import CsappLab.Tsh.Parseline

namespace CsappLab.Tsh

set_option autoImplicit false

open CsappLab.Lib Parseline

/-! ## The words of a text -/

/-- The text before the first `delim`, and what follows it. -/
def cut (delim : Char) (text : List Char) : Option (List Char × List Char) :=
  if delim ∈ text then
    some (text.takeWhile (· ≠ delim), (text.dropWhile (· ≠ delim)).drop 1)
  else none

/-- The next word of a text, and the text behind its delimiter. -/
def nextWord (text : List Char) : Option (List Char × List Char) :=
  match text.dropWhile (· = ' ') with
  | '\'' :: quoted => cut '\'' quoted
  | bare => cut ' ' bare

theorem cut_split {delim : Char} {w : List Char} (tail : List Char) (clean : delim ∉ w) :
    cut delim (w ++ delim :: tail) = some (w, tail) := by
  unfold cut
  rw [if_pos (by simp), takeWhile_until tail clean, dropWhile_until tail clean]
  rfl

theorem cut_some {delim : Char} {text w rest : List Char}
    (found : cut delim text = some (w, rest)) :
    text = w ++ delim :: rest ∧ delim ∉ w := by
  simp only [cut, Option.ite_none_right_eq_some, Option.some.injEq, Prod.mk.injEq] at found
  obtain ⟨member, rfl, rfl⟩ := found
  obtain ⟨before, after, rfl, clean⟩ := List.eq_append_cons_of_mem member
  have split := cut_split after clean
  simp only [cut, if_pos member, Option.some.injEq, Prod.mk.injEq] at split
  rw [split.1, split.2]
  exact ⟨rfl, clean⟩

theorem cut_none {delim : Char} {text : List Char} (missing : cut delim text = none) :
    delim ∉ text := by
  simpa [cut] using missing

/-- What `nextWord` can do: with the spaces skipped, cut at the closing quote or at
the next space. -/
theorem nextWord_cases (text : List Char) :
    ∃ blank s, text = blank ++ s ∧ (∀ c ∈ blank, c = ' ') ∧ s.head? ≠ some ' ' ∧
      ((∃ quoted, s = '\'' :: quoted ∧ nextWord text = cut '\'' quoted) ∨
        (s.head? ≠ some '\'' ∧ nextWord text = cut ' ' s)) := by
  refine ⟨text.takeWhile (· = ' '), text.dropWhile (· = ' '),
    List.takeWhile_append_dropWhile.symm, ?_, ?_, ?_⟩
  · intro c member
    simpa using List.mem_takeWhile_imp member
  · intro first
    have stop := List.head?_dropWhile_not (fun c : Char => decide (c = ' ')) text
    rw [first] at stop
    simp at stop
  · unfold nextWord
    split
    next quoted eq => exact .inl ⟨quoted, eq, rfl⟩
    next bare none =>
      refine .inr ⟨?_, rfl⟩
      intro first
      obtain ⟨quoted, eq⟩ := List.head?_eq_some_iff.1 first
      exact none quoted eq

theorem nextWord_shorter {text w rest : List Char} (found : nextWord text = some (w, rest)) :
    rest.length < text.length := by
  obtain ⟨blank, s, rfl, -, -, ⟨quoted, rfl, eq⟩ | ⟨-, eq⟩⟩ := nextWord_cases text
  · rw [eq] at found
    simp [(cut_some found).1]
    omega
  · rw [eq] at found
    simp [(cut_some found).1]
    omega

/-- The words of a text. -/
def wordsOf (text : List Char) : List (List Char) :=
  match found : nextWord text with
  | none => []
  | some (w, rest) =>
      have := nextWord_shorter found
      w :: wordsOf rest
termination_by text.length

theorem wordsOf_none {text : List Char} (missing : nextWord text = none) : wordsOf text = [] := by
  rw [wordsOf]
  split
  next => rfl
  next found => rw [missing] at found; cases found

theorem wordsOf_some {text w rest : List Char} (found : nextWord text = some (w, rest)) :
    wordsOf text = w :: wordsOf rest := by
  rw [wordsOf]
  split
  next missing => rw [found] at missing; cases missing
  next found' => rw [found] at found'; cases found'; rfl

/-! ## The scan of the buffer -/

theorem getElem?_at (pre s : List Char) : (pre ++ s)[pre.length]? = s.head? := by
  rw [List.getElem?_append_right (Nat.le_refl _), Nat.sub_self, List.head?_eq_getElem?]

theorem findIdx?_first {p : Char → Bool} {w : List Char} {c : Char} (tail : List Char)
    (before : ∀ x ∈ w, p x = false) (hit : p c = true) :
    (w ++ c :: tail).findIdx? p = some w.length := by
  have nowhere : w.findIdx? p = none := List.findIdx?_eq_none_iff.2 before
  rw [List.findIdx?_append, nowhere, Option.none_or, List.findIdx?_cons, if_pos hit]
  simp

/-- `strchr` stops at the character or at the NUL, whichever comes first. -/
theorem strchr_stops (pre : List Char) {c d : Char} {w : List Char} (tail : List Char)
    (clean : c ∉ w) (noNul : NUL ∉ w) (stop : d = c ∨ d = NUL) :
    strchr (pre ++ (w ++ d :: tail)) pre.length c =
      some (if d = c then some (pre.length + w.length) else none) := by
  have index : (w ++ d :: tail).findIdx? (fun x => decide (x = c ∨ x = NUL)) = some w.length := by
    apply findIdx?_first tail _ (by simpa using stop)
    intro x member
    simp only [decide_eq_false_iff_not, not_or]
    exact ⟨fun same => clean (same ▸ member), fun same => noNul (same ▸ member)⟩
  unfold strchr
  rw [List.drop_left, index]
  by_cases same : d = c
  · simp [same]
  · simp [same]

/-- `strchr` finds what `cut` cuts at. -/
theorem strchr_eq (pre : List Char) {c : Char} {text : List Char} (left : List Char)
    (noNul : NUL ∉ text) (other : NUL ≠ c) :
    strchr (pre ++ (text ++ NUL :: left)) pre.length c =
      some ((cut c text).map fun split => pre.length + split.1.length) := by
  cases found : cut c text with
  | none => rw [strchr_stops pre left (cut_none found) noNul (.inr rfl), if_neg other]; rfl
  | some split =>
      obtain ⟨rfl, clean⟩ := cut_some found
      have noNul' : NUL ∉ split.1 := fun member => noNul (List.mem_append_left _ member)
      rw [List.append_assoc, List.cons_append, strchr_stops pre _ clean noNul' (.inl rfl),
        if_pos rfl]
      rfl

theorem skipSpaces_eq (pre : List Char) {blank s : List Char} (blanks : ∀ c ∈ blank, c = ' ')
    (stop : s.head? ≠ some ' ') :
    skipSpaces (pre ++ (blank ++ s)) pre.length = (pre ++ blank).length := by
  have skipped : (blank ++ s).takeWhile (· = ' ') = blank := by
    rw [List.takeWhile_append_of_pos (by simpa using blanks)]
    cases s with
    | nil => simp
    | cons c s =>
        have other : c ≠ ' ' := fun same => stop (by simp [same])
        simp [other]
  simp [skipSpaces, skipped]

/-- What is found at a place of the buffer where `text` is still to be scanned: the
next word of `text`, between the place where it starts and its delimiter. -/
theorem findDelim_eq (pre : List Char) {text : List Char} (left : List Char) (noNul : NUL ∉ text) :
    ∃ blank s, text = blank ++ s ∧
      findDelim (pre ++ (text ++ NUL :: left))
          (skipSpaces (pre ++ (text ++ NUL :: left)) pre.length) =
        some ((pre ++ blank).length,
            (nextWord text).map fun split => (pre ++ blank).length + split.1.length) ∧
      ∀ w rest, nextWord text = some (w, rest) → ∃ delim, s = w ++ delim :: rest := by
  obtain ⟨blank, s, rfl, blanks, stop, kind⟩ := nextWord_cases text
  have noNul' : NUL ∉ s := fun member => noNul (List.mem_append_right _ member)
  have ended : (s ++ NUL :: left).head? ≠ some ' ' := by
    cases s with
    | nil => simp [NUL]
    | cons c s => simpa using stop
  have place := skipSpaces_eq pre blanks ended
  have array : pre ++ (blank ++ s ++ NUL :: left) = (pre ++ blank) ++ (s ++ NUL :: left) := by
    simp
  rw [List.append_assoc, place, ← List.append_assoc pre]
  rcases kind with ⟨quoted, rfl, word⟩ | ⟨bare, word⟩
  · -- behind the opening quote, up to the closing one
    refine ⟨blank ++ ['\''], quoted, by simp, ?_, ?_⟩
    · have inside : NUL ∉ quoted := fun member => noNul' (List.mem_cons_of_mem _ member)
      have closing := strchr_eq (pre ++ (blank ++ ['\''])) left inside (c := '\'') (by decide)
      have start : (pre ++ blank).length + 1 = (pre ++ (blank ++ ['\''])).length := by
        simp
        omega
      have same : pre ++ blank ++ ('\'' :: quoted ++ NUL :: left) =
          pre ++ (blank ++ ['\'']) ++ (quoted ++ NUL :: left) := by simp
      unfold findDelim
      rw [getElem?_at, if_pos (by rfl), start, same, closing, word]
      rfl
    · intro w rest found
      rw [word] at found
      exact ⟨_, (cut_some found).1⟩
  · refine ⟨blank, s, rfl, ?_, ?_⟩
    · have other : (s ++ NUL :: left).head? ≠ some '\'' := by
        cases s with
        | nil => simp [NUL]
        | cons c s => simpa using bare
      unfold findDelim
      rw [getElem?_at, if_neg other, strchr_eq _ left noNul' (by decide), word]
      rfl
    · intro w rest found
      rw [word] at found
      exact ⟨_, (cut_some found).1⟩

/-! ## The words cut off -/

theorem cString_append {s : List Char} (ended : NUL ∈ s) (tail : List Char) :
    cString (s ++ tail) = cString s := by
  obtain ⟨w, rest, rfl, clean⟩ := List.eq_append_cons_of_mem ended
  unfold cString
  rw [List.append_assoc, List.cons_append, takeWhile_until _ clean, takeWhile_until _ clean]

/-- Words that end within `pre` are read back from it, whatever follows. -/
theorem words_append {pre : List Char} {argv : List Nat} (ended : ∀ i ∈ argv, NUL ∈ pre.drop i)
    (tail : List Char) : words (pre ++ tail) argv = words pre argv := by
  apply List.map_congr_left
  intro i member
  have inside : i ≤ pre.length := by
    apply Nat.le_of_not_lt
    intro beyond
    have mem := ended i member
    rw [List.drop_eq_nil_of_le (Nat.le_of_lt beyond)] at mem
    cases mem
  rw [List.drop_append_of_le_length inside, cString_append (ended i member)]

/-- Words cut off stay so when the scanner goes on. -/
theorem ended_append {pre : List Char} {argv : List Nat} (ended : ∀ i ∈ argv, NUL ∈ pre.drop i)
    (tail : List Char) : ∀ i ∈ argv, NUL ∈ (pre ++ tail).drop i := by
  intro i member
  rw [List.drop_append]
  exact List.mem_append_left _ (ended i member)

/-- One more word, cut off where `pre` ends. -/
theorem words_snoc (pre : List Char) {w : List Char} {argv : List Nat}
    (ended : ∀ i ∈ argv, NUL ∈ pre.drop i) (noNul : NUL ∉ w) :
    words (pre ++ (w ++ [NUL])) (argv ++ [pre.length]) = words pre argv ++ [w] := by
  have last : cString ((pre ++ (w ++ [NUL])).drop pre.length) = w := by
    rw [List.drop_left]
    exact takeWhile_until [] noNul
  rw [← words_append ended (w ++ [NUL])]
  simp only [words, List.map_append, List.map_cons, List.map_nil, last]

theorem ended_snoc (pre w : List Char) {argv : List Nat}
    (ended : ∀ i ∈ argv, NUL ∈ pre.drop i) :
    ∀ i ∈ argv ++ [pre.length], NUL ∈ (pre ++ (w ++ [NUL])).drop i := by
  intro i member
  rcases List.mem_append.1 member with old | new
  · exact ended_append ended _ i old
  · obtain rfl := List.mem_singleton.1 new
    simp

/-! ## The scan -/

/-- The scan from offset `i` on: the words read back at its end. -/
def scan (fuel : Nat) (array : List Char) (argv : List Nat) (i : Nat) :
    Option (List (List Char)) :=
  (findDelim array (skipSpaces array i)).bind fun next =>
    (loop fuel array argv next.1 next.2).map fun r => words r.1 r.2

/-- One turn of the loop, for a word found. -/
theorem loop_turn {fuel : Nat} {array array' : List Char} {argv : List Nat} {buf delim : Nat}
    (room : argv.length < MAXARGS) (stored : put array delim NUL = some array') :
    (loop (fuel + 1) array argv buf (some delim)).map (fun r => words r.1 r.2) =
      scan fuel array' (argv ++ [buf]) (delim + 1) := by
  simp only [loop, if_pos room, stored, Option.bind_some, Option.map_bind]
  rfl

theorem put_at (pre : List Char) (c d : Char) (tail : List Char) :
    put (pre ++ c :: tail) pre.length d = some (pre ++ d :: tail) := by
  have inside : pre.length < (pre ++ c :: tail).length := by simp
  unfold put
  rw [if_pos inside, List.set_append_right _ _ (Nat.le_refl _), Nat.sub_self, List.set_cons_zero]

/-- The NUL stored over a delimiter. -/
theorem put_delim (pre w : List Char) (d : Char) (tail : List Char) :
    put (pre ++ (w ++ d :: tail)) (pre.length + w.length) NUL =
      some (pre ++ (w ++ [NUL]) ++ tail) := by
  have stored := put_at (pre ++ w) d NUL tail
  rw [List.length_append, List.append_assoc] at stored
  rw [stored]
  simp

/-- **The scan of `text`**, behind a part `pre` of the buffer in which the words of
`argv` have been cut off. -/
theorem scan_eq (left text : List Char) {fuel : Nat} (pre : List Char) {argv : List Nat}
    (noNul : NUL ∉ text) (enough : text.length ≤ fuel) (room : argv.length ≤ MAXARGS)
    (ended : ∀ i ∈ argv, NUL ∈ pre.drop i) :
    scan fuel (pre ++ (text ++ NUL :: left)) argv pre.length =
      if argv.length + (wordsOf text).length ≤ MAXARGS then some (words pre argv ++ wordsOf text)
      else none := by
  induction text using wordsOf.induct generalizing fuel pre argv with
  | case1 text missing =>
      obtain ⟨blank, s, rfl, found, -⟩ := findDelim_eq pre left noNul
      unfold scan
      rw [found, missing, wordsOf_none missing]
      simp [loop, words_append ended, room]
  | case2 text w rest word shorter ih =>
      obtain ⟨blank, s, rfl, found, delim⟩ := findDelim_eq pre left noNul
      obtain ⟨d, rfl⟩ := delim w rest word
      obtain ⟨fuel, rfl⟩ : ∃ n, fuel = n + 1 := Nat.exists_eq_add_one.2 (by omega)
      have noNul' : NUL ∉ w ∧ NUL ∉ rest := by simp_all
      rw [wordsOf_some word, List.length_cons]
      unfold scan
      rw [found, word]
      by_cases full : argv.length < MAXARGS
      · -- one turn: the word is cut off, and the done part grows up to its NUL
        let done := pre ++ blank ++ (w ++ [NUL])
        have array : pre ++ (blank ++ (w ++ d :: rest) ++ NUL :: left) =
            pre ++ blank ++ (w ++ d :: (rest ++ NUL :: left)) := by simp
        have next : (pre ++ blank).length + w.length + 1 = done.length := by
          simp [done]
          omega
        have more := ended_append ended blank
        have turn := @ih fuel done (argv ++ [(pre ++ blank).length]) noNul'.2 (by omega)
          (by rw [List.length_append]; exact full) (ended_snoc (pre ++ blank) w more)
        rw [words_snoc _ more noNul'.1, words_append ended] at turn
        have count : (argv ++ [(pre ++ blank).length]).length + (wordsOf rest).length =
            argv.length + ((wordsOf rest).length + 1) := by
          rw [List.length_append, List.length_singleton]
          omega
        rw [array, Option.map_some, Option.bind_some, loop_turn full (put_delim _ w d _), next,
          turn, count, List.append_assoc]
        rfl
      · rw [if_neg (by omega)]
        simp [loop, full]

/-! ## The whole of `parseline` -/

/-- What `parseline` makes of the words it has stored. -/
def answer (ws : List (List Char)) : List (List Char) × Bool :=
  match ws.getLast? with
  | none => ([], true)
  | some w => if w.head? = some '&' then (ws.dropLast, true) else (ws, false)

/-- `parseline` once the line is in the buffer and its newline is a space. -/
theorem parselineIn_scan {array cmdline copy text : List Char} {last : Nat}
    (copied : strcpy array cmdline = some copy) (len : strlen copy 0 = some (last + 1))
    (spaced : put copy last ' ' = some text) :
    parselineIn array cmdline =
      (scan MAXLINE text [] 0).bind fun ws =>
        if MAXARGS ≤ ws.length then none else some (answer ws) := by
  simp only [parselineIn, scan, Option.bind_eq_bind, copied, len, Option.bind_some,
    Nat.add_one_ne_zero, if_false, Nat.add_sub_cancel, spaced]
  cases findDelim text (skipSpaces text 0) with
  | none => rfl
  | some first =>
      show (loop MAXLINE text [] first.1 first.2).bind _ =
        ((loop MAXLINE text [] first.1 first.2).map _).bind _
      cases loop MAXLINE text [] first.1 first.2 with
      | none => rfl
      | some r =>
          have count : r.2.length = (words r.1 r.2).length := (List.length_map _).symm
          simp only [Option.bind_some, Option.map_some, count, answer]
          cases (words r.1 r.2).getLast? with
          | none => rfl
          | some w => simp only [apply_ite some]

theorem strlen_eq {line : List Char} (left : List Char) (noNul : NUL ∉ line) :
    strlen (line ++ NUL :: left) 0 = some line.length := by
  apply findIdx?_first left
  · intro x member
    simp only [decide_eq_false_iff_not]
    exact fun same => noNul (same ▸ member)
  · simp

theorem noNul_cString (buf : List Char) : NUL ∉ cString buf := by
  intro member
  simpa using List.mem_takeWhile_imp member

/-- **`parseline` on every line that fits**: whatever its buffer held before, it
gives the words of the line with its last character taken for a space. -/
theorem parselineIn_eq {array cmdline text : List Char} {c : Char} (size : array.length = MAXLINE)
    (line : cString cmdline = text ++ [c]) (fits : text.length + 2 ≤ MAXLINE) :
    parselineIn array cmdline =
      if MAXARGS ≤ (wordsOf (text ++ [' '])).length then none
      else some (answer (wordsOf (text ++ [' ']))) := by
  let left := array.drop (text ++ [c] ++ [NUL]).length
  have noNul : NUL ∉ text ++ [c] := line ▸ noNul_cString cmdline
  have noNul' : NUL ∉ text ++ [' '] := by
    intro member
    rcases List.mem_append.1 member with inText | isSpace
    · exact noNul (List.mem_append_left _ inText)
    · exact absurd isSpace (by decide)
  have copied : strcpy array cmdline = some (text ++ [c] ++ NUL :: left) := by
    have room : (text ++ [c] ++ [NUL]).length ≤ array.length := by simpa [size] using fits
    unfold strcpy
    rw [line, if_pos room]
    simp [left]
  have len : strlen (text ++ [c] ++ NUL :: left) 0 = some (text.length + 1) := by
    rw [strlen_eq left noNul]
    simp
  have spaced : put (text ++ [c] ++ NUL :: left) text.length ' ' =
      some (text ++ [' '] ++ NUL :: left) := by
    rw [List.append_assoc, List.append_assoc]
    exact put_at text c ' ' (NUL :: left)
  have scanned := @scan_eq left (text ++ [' ']) MAXLINE [] [] noNul' (by simp; omega) (by simp)
    (by simp)
  have start : words [] [] ++ wordsOf (text ++ [' ']) = wordsOf (text ++ [' ']) := rfl
  rw [List.nil_append, List.length_nil, List.length_nil, Nat.zero_add, start] at scanned
  rw [parselineIn_scan copied len spaced, scanned]
  by_cases few : (wordsOf (text ++ [' '])).length ≤ MAXARGS
  · rw [if_pos few, Option.bind_some]
  · rw [if_neg few, if_pos (by omega)]
    rfl

/-- The empty line has no last character to store a space over. -/
theorem parselineIn_empty {array cmdline : List Char} (line : cString cmdline = []) :
    parselineIn array cmdline = none := by
  unfold parselineIn
  cases array with
  | nil => simp [strcpy, line]
  | cons c array =>
      have copied : strcpy (c :: array) cmdline = some (NUL :: array) := by simp [strcpy, line]
      have len : strlen (NUL :: array) 0 = some 0 := @strlen_eq [] array (by simp)
      simp [copied, len]

theorem parselineIn_long {array cmdline : List Char} (size : array.length = MAXLINE)
    (long : MAXLINE ≤ (cString cmdline).length) : parselineIn array cmdline = none := by
  have beyond : ¬ (cString cmdline ++ [NUL]).length ≤ array.length := by
    rw [List.length_append, List.length_singleton, size]
    omega
  unfold parselineIn strcpy
  rw [if_neg beyond]
  rfl

/-- What earlier lines left in the buffer makes no difference. -/
theorem parselineIn_eq_parseline {array : List Char} (size : array.length = MAXLINE)
    (cmdline : List Char) : parselineIn array cmdline = parseline cmdline := by
  have fresh : (List.replicate MAXLINE NUL).length = MAXLINE := List.length_replicate
  unfold parseline
  by_cases long : MAXLINE ≤ (cString cmdline).length
  · rw [parselineIn_long size long, parselineIn_long fresh long]
  · rcases List.eq_nil_or_concat (cString cmdline) with empty | ⟨text, c, line⟩
    · rw [parselineIn_empty empty, parselineIn_empty empty]
    · rw [List.concat_eq_append] at line
      have fits : text.length + 2 ≤ MAXLINE := by
        rw [line, List.length_append, List.length_singleton] at long
        omega
      rw [parselineIn_eq size line fits, parselineIn_eq fresh line fits]

/-! ## Lines as intended -/

/-- A word as it is written: bare, or between single quotes. -/
inductive Arg where
  | bare (word : List Char) (nonempty : word ≠ []) (unquoted : word.head? ≠ some '\'')
      (clean : ∀ c ∈ word, c ≠ ' ' ∧ c ≠ '\n' ∧ c ≠ NUL)
  | quoted (word : List Char) (clean : ∀ c ∈ word, c ≠ '\'' ∧ c ≠ '\n' ∧ c ≠ NUL)

namespace Arg

def word : Arg → List Char
  | bare word _ _ _ => word
  | quoted word _ => word

def text : Arg → List Char
  | bare word _ _ _ => word
  | quoted word _ => '\'' :: word ++ ['\'']

end Arg

/-- A run of spaces. -/
def spaces (n : Nat) : List Char := List.replicate n ' '

/-- A command line: its words, each after the first with the number of spaces beyond
one before it, and the spaces at both ends. -/
structure CommandLine where
  leading : Nat
  first : Arg
  others : List (Nat × Arg)
  trailing : Nat

namespace CommandLine

def words (line : CommandLine) : List (List Char) :=
  line.first.word :: line.others.map fun other => other.2.word

/-- The words after the first, each behind its spaces. -/
def othersText (others : List (Nat × Arg)) : List Char :=
  others.flatMap fun other => spaces (other.1 + 1) ++ other.2.text

def text (line : CommandLine) : List Char :=
  spaces line.leading ++ line.first.text ++ othersText line.others ++ spaces line.trailing ++ ['\n']

end CommandLine

theorem wordsOf_spaces (n : Nat) : wordsOf (spaces n) = [] := by
  apply wordsOf_none
  have skipped : (spaces n).dropWhile (· = ' ') = [] := by simp [spaces]
  simp [nextWord, skipped, cut]

theorem nextWord_spaces (n : Nat) (text : List Char) :
    nextWord (spaces n ++ text) = nextWord text := by
  have skipped : (spaces n ++ text).dropWhile (· = ' ') = text.dropWhile (· = ' ') := by
    apply List.dropWhile_append_of_pos
    intro c member
    simpa using List.eq_of_mem_replicate member
  unfold nextWord
  rw [skipped]

theorem wordsOf_skip (n : Nat) (text : List Char) : wordsOf (spaces n ++ text) = wordsOf text := by
  cases word : nextWord text with
  | none => rw [wordsOf_none word, wordsOf_none ((nextWord_spaces n text).trans word)]
  | some split =>
      obtain ⟨w, rest⟩ := split
      rw [wordsOf_some word, wordsOf_some ((nextWord_spaces n text).trans word)]

theorem nextWord_bare {c : Char} (text : List Char) (notSpace : c ≠ ' ') (notQuote : c ≠ '\'') :
    nextWord (c :: text) = cut ' ' (c :: text) := by
  have same : (c :: text).dropWhile (· = ' ') = c :: text := by simp [notSpace]
  unfold nextWord
  rw [same]
  split
  next eq => exact absurd (List.cons.inj eq).1 notQuote
  next => rfl

theorem nextWord_quoted (text : List Char) : nextWord ('\'' :: text) = cut '\'' text := rfl

/-- A written word is read back, and the scan goes on behind the space after it. -/
theorem wordsOf_arg (arg : Arg) (tail : List Char) :
    wordsOf (arg.text ++ ' ' :: tail) = arg.word :: wordsOf tail := by
  cases arg with
  | bare word nonempty unquoted clean =>
      have noSpace : ' ' ∉ word := fun member => (clean ' ' member).1 rfl
      obtain ⟨c, cs, rfl⟩ := List.exists_cons_of_ne_nil nonempty
      have notQuote : c ≠ '\'' := fun same => unquoted (by simp [same])
      have notSpace : c ≠ ' ' := fun same => noSpace (by simp [same])
      apply wordsOf_some
      exact (nextWord_bare _ notSpace notQuote).trans (cut_split tail noSpace)
  | quoted word clean =>
      have noQuote : '\'' ∉ word := fun member => (clean '\'' member).1 rfl
      have text : (Arg.quoted word clean).text ++ ' ' :: tail =
          '\'' :: (word ++ '\'' :: ' ' :: tail) := by simp [Arg.text]
      -- the space stays behind the closing quote, and is skipped
      rw [text, wordsOf_some ((nextWord_quoted _).trans (cut_split (' ' :: tail) noQuote))]
      exact congrArg (word :: ·) (wordsOf_skip 1 tail)

open CommandLine in
/-- The text behind a word starts with a space, and the other words are read off
what follows it. -/
theorem wordsOf_othersText (others : List (Nat × Arg)) (n : Nat) :
    ∃ tail, othersText others ++ spaces n ++ [' '] = ' ' :: tail ∧
      wordsOf tail = others.map fun other => other.2.word := by
  induction others with
  | nil =>
      refine ⟨spaces n, ?_, wordsOf_spaces n⟩
      show spaces n ++ [' '] = ' ' :: spaces n
      simp only [spaces, ← List.replicate_succ, List.replicate_succ']
  | cons other others ih =>
      obtain ⟨gap, arg⟩ := other
      obtain ⟨tail, text, read⟩ := ih
      refine ⟨spaces gap ++ (arg.text ++ ' ' :: tail), ?_, ?_⟩
      · rw [← text]
        simp [othersText, spaces, List.replicate_succ]
      · rw [wordsOf_skip, wordsOf_arg, read]
        rfl

namespace CommandLine

/-- The line without its newline, which the scanner has taken for a space. -/
def spaced (line : CommandLine) : List Char :=
  spaces line.leading ++ line.first.text ++ othersText line.others ++ spaces line.trailing

theorem wordsOf_spaced (line : CommandLine) : wordsOf (line.spaced ++ [' ']) = line.words := by
  obtain ⟨tail, text, read⟩ := wordsOf_othersText line.others line.trailing
  have same : line.spaced ++ [' '] =
      spaces line.leading ++ (line.first.text ++ ' ' :: tail) := by
    rw [← text]
    simp [spaced]
  rw [same, wordsOf_skip, wordsOf_arg, read]
  rfl

theorem words_ne_nil (line : CommandLine) : line.words ≠ [] := List.cons_ne_nil _ _

end CommandLine

theorem noNul_spaces (n : Nat) : NUL ∉ spaces n := by
  intro member
  exact absurd (List.eq_of_mem_replicate member) (by decide)

theorem Arg.noNul_text (arg : Arg) : NUL ∉ arg.text := by
  cases arg with
  | bare word _ _ clean => exact fun member => (clean NUL member).2.2 rfl
  | quoted word clean =>
      intro member
      simp only [Arg.text, List.mem_append, List.mem_cons, List.not_mem_nil, or_false] at member
      rcases member with (opening | inside) | closing
      · exact absurd opening (by decide)
      · exact (clean NUL inside).2.2 rfl
      · exact absurd closing (by decide)

theorem CommandLine.noNul_spaced (line : CommandLine) : NUL ∉ line.spaced := by
  intro member
  simp only [spaced, othersText, List.mem_append, List.mem_flatMap] at member
  rcases member with ((leading | first) | ⟨other, -, gap | word⟩) | trailing
  · exact noNul_spaces _ leading
  · exact line.first.noNul_text first
  · exact noNul_spaces _ gap
  · exact other.2.noNul_text word
  · exact noNul_spaces _ trailing

/-- A line without NULs, its newline apart. -/
theorem parselineIn_line {array line : List Char} (size : array.length = MAXLINE)
    (noNul : NUL ∉ line) (short : (line ++ ['\n']).length < MAXLINE) :
    parselineIn array (line ++ ['\n']) =
      if MAXARGS ≤ (wordsOf (line ++ [' '])).length then none
      else some (answer (wordsOf (line ++ [' ']))) := by
  have whole : cString (line ++ ['\n']) = line ++ ['\n'] := by
    apply cString_eq
    intro member
    rcases List.mem_append.1 member with inLine | newline
    · exact noNul inLine
    · exact absurd newline (by decide)
  apply parselineIn_eq size whole
  rw [List.length_append, List.length_singleton] at short
  omega

/-- **The round trip.** Whatever its buffer holds, `parseline` gives back the words of
a line that was written as intended, all but the last when that one starts with `&`
and asks for a background job; a line of spaces has no words. -/
theorem parselineIn_text {array : List Char} (size : array.length = MAXLINE) :
    (∀ line : CommandLine, line.words.length ≤ 127 → line.text.length < MAXLINE →
      parselineIn array line.text =
        some (if (line.words.getLast line.words_ne_nil).head? = some '&'
          then (line.words.dropLast, true) else (line.words, false))) ∧
      ∀ n, (spaces n ++ ['\n']).length < MAXLINE →
        parselineIn array (spaces n ++ ['\n']) = some ([], true) := by
  constructor
  · intro line few short
    have room : ¬ MAXARGS ≤ line.words.length := Nat.not_le.2 (Nat.lt_succ_of_le few)
    rw [show line.text = line.spaced ++ ['\n'] from rfl] at short ⊢
    rw [parselineIn_line size line.noNul_spaced short, line.wordsOf_spaced, if_neg room, answer,
      List.getLast?_eq_some_getLast line.words_ne_nil]
  · intro n short
    have blank : wordsOf (spaces n ++ [' ']) = [] := by
      have more := wordsOf_spaces (n + 1)
      rwa [spaces, List.replicate_succ'] at more
    rw [parselineIn_line size (noNul_spaces n) short, blank]
    rfl

/-- A line with a quoted word with a space in it, an empty one, and a request for
the background. -/
def sampleLine : CommandLine where
  leading := 1
  first := .bare ['a'] (by decide) (by decide) (by simp [NUL])
  others :=
    [(0, .quoted ['b', ' '] (by simp [NUL])), (2, .quoted [] (by simp)),
      (0, .bare ['&'] (by decide) (by decide) (by simp [NUL]))]
  trailing := 0

theorem parselineIn_text_sample :
    (List.replicate MAXLINE 'x').length = MAXLINE ∧ sampleLine.words.length ≤ 127 ∧
      sampleLine.text.length < MAXLINE ∧
      parselineIn (List.replicate MAXLINE 'x') " a 'b '   '' &\n".toList =
        some ([['a'], ['b', ' '], []], true) :=
  ⟨List.length_replicate, by decide, by decide,
    (parselineIn_text List.length_replicate).1 sampleLine (by decide) (by decide)⟩

end CsappLab.Tsh
