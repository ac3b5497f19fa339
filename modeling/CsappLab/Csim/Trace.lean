/-
# Csim.Trace — well-formed traces and what the read loop makes of them

A `TraceLine` is a line of a trace as it is meant: an operation, an address of 1 to
16 hexadecimal digits and a size of 1 to 3 decimal ones. `render` writes lines out,
as `I  addr,size` or ` op addr,size`, each with a newline, the last one with or
without. The tokens of a rendered line are its parts (`tokens_text`), so that it names
its operation and its address, whatever the line before has named.
-/
import CsappLab.Csim.Named

namespace CsappLab.Csim

set_option autoImplicit false

open CsappLab.Lib CsappLab.Cache

inductive Op where
  | I
  | L
  | S
  | M
  deriving DecidableEq, Repr

def Op.char : Op → Char
  | .I => 'I'
  | .L => 'L'
  | .S => 'S'
  | .M => 'M'

structure TraceLine where
  op : Op
  addr : List Char
  size : List Char
  addr_digits : IsDigits 16 addr
  addr_pos : 1 ≤ addr.length
  addr_le : addr.length ≤ 16
  size_digits : IsDigits 10 size
  size_pos : 1 ≤ size.length
  size_le : size.length ≤ 3

namespace TraceLine

/-- What stands before the operation, and between the operation and its space. -/
def indent (l : TraceLine) : List Char × List Char :=
  if l.op = .I then ([], [' ']) else ([' '], [])

/-- The line, without a newline. -/
def text (l : TraceLine) : List Char :=
  l.indent.1 ++ [l.op.char] ++ ' ' :: (l.indent.2 ++ l.addr ++ ',' :: l.size)

/-- The address the line names. -/
def address (l : TraceLine) : BitVec 64 :=
  BitVec.ofNat 64 (digitsVal 16 l.addr)

/-- The addresses of its data accesses: a modify is a load and a store. -/
def accesses (l : TraceLine) : List (BitVec 64) :=
  match l.op with
  | .I => []
  | .L => [l.address]
  | .S => [l.address]
  | .M => [l.address, l.address]

end TraceLine

/-- The lines of a trace file. -/
def render : List TraceLine → Bool → List Char
  | [], _ => []
  | [l], lastNewline => l.text ++ if lastNewline then ['\n'] else []
  | l :: l' :: ls, lastNewline => l.text ++ '\n' :: render (l' :: ls) lastNewline

/-! ## The characters of a line -/

section Characters

variable {l : TraceLine} {c : Char}

theorem digit_not_delim (digit : (digitVal 16 c).isSome) : c ∉ delims := by
  intro member
  simp only [delims, List.mem_cons, List.not_mem_nil, or_false] at member
  rcases member with rfl | rfl
  · cases digit
  · cases digit

theorem TraceLine.size_digits16 (l : TraceLine) : IsDigits 16 l.size :=
  l.size_digits.mono (by decide)

theorem opChar_not_delim (op : Op) : op.char ∉ delims := by
  cases op <;> decide

theorem indent_delims (l : TraceLine) :
    (∀ c ∈ l.indent.1, c ∈ delims) ∧ ∀ c ∈ l.indent.2, c ∈ delims := by
  unfold TraceLine.indent
  split <;> simp [delims]

/-- A character of a line ends neither the line nor the string. -/
theorem mem_text_ne {d : Char} (other : d = '\n' ∨ d = NUL) : d ∉ l.text := by
  have noDigit : (digitVal 16 d).isSome = false := by
    rcases other with rfl | rfl <;> rfl
  have noDelim : d ∉ delims := by
    rcases other with rfl | rfl <;> decide
  have noOp : d ≠ l.op.char := by
    rcases other with rfl | rfl <;> cases l.op <;> decide
  have noAddr : d ∉ l.addr := fun member => digit_ne (l.addr_digits d member) noDigit rfl
  have noSize : d ∉ l.size := fun member => digit_ne (l.size_digits16 d member) noDigit rfl
  have noIndent₁ : d ∉ l.indent.1 := fun member => noDelim ((indent_delims l).1 d member)
  have noIndent₂ : d ∉ l.indent.2 := fun member => noDelim ((indent_delims l).2 d member)
  have noSpace : d ≠ ' ' := fun same => noDelim (by simp [same, delims])
  have noComma : d ≠ ',' := fun same => noDelim (by simp [same, delims])
  unfold TraceLine.text
  simp [noOp, noAddr, noSize, noIndent₁, noIndent₂, noSpace, noComma]

theorem length_text_le (l : TraceLine) : l.text.length ≤ 23 := by
  have addr := l.addr_le
  have size := l.size_le
  have indent : l.indent.1.length + l.indent.2.length = 1 := by
    unfold TraceLine.indent
    split <;> rfl
  simp only [TraceLine.text, List.length_append, List.length_cons, List.length_nil]
  omega

theorem length_text_ge (l : TraceLine) : 4 ≤ l.text.length := by
  have addr := l.addr_pos
  have size := l.size_pos
  simp only [TraceLine.text, List.length_append, List.length_cons, List.length_nil]
  omega

end Characters

/-! ## The tokens of a line -/

/-- **The tokens of a rendered line are its parts.** -/
theorem tokens_text (l : TraceLine) {tail : List Char} (clean : ∀ c ∈ tail, c ∉ delims) :
    tokens delims (l.text ++ tail) = [[l.op.char], l.addr, l.size ++ tail] := by
  obtain ⟨blank₁, blank₂⟩ := indent_delims l
  have addrNe : l.addr ≠ [] := List.ne_nil_of_length_pos l.addr_pos
  have sizeNe : l.size ++ tail ≠ [] := by
    have pos := l.size_pos
    intro empty
    rw [(List.append_eq_nil_iff.1 empty).1] at pos
    cases pos
  have sizeClean : ∀ c ∈ l.size ++ tail, c ∉ delims := by
    intro c member
    rcases List.mem_append.1 member with inSize | inTail
    · exact digit_not_delim (l.size_digits16 c inSize)
    · exact clean c inTail
  have whole : l.text ++ tail =
      l.indent.1 ++ ([l.op.char] ++ ' ' ::
        (l.indent.2 ++ (l.addr ++ ',' :: (l.size ++ tail)))) := by
    simp [TraceLine.text]
  -- the operation, the address, the size with what follows it
  rw [whole, tokens_blank _ blank₁, tokens_token _ (List.cons_ne_nil l.op.char [])
      (by simpa using opChar_not_delim l.op) (by simp [delims]), List.drop_one, List.tail_cons,
    tokens_blank _ blank₂, tokens_token _ addrNe
      (fun c member => digit_not_delim (l.addr_digits c member)) (by simp [delims]),
    List.drop_one, List.tail_cons]
  have last := tokens_token [] sizeNe sizeClean (by simp)
  rw [List.append_nil] at last
  rw [last]
  simp

/-- What a rendered line names. -/
theorem next_text (n : Named) (l : TraceLine) {tail : List Char} (clean : ∀ c ∈ tail, c ∉ delims) :
    n.next (l.text ++ tail) = ⟨some l.op.char, some l.address⟩ := by
  have address : (strtoul 16 l.addr).1 = l.address := by
    rw [strtoul_digits l.addr_digits (List.ne_nil_of_length_pos l.addr_pos) l.addr_le]
    rfl
  simp [Named.next, opOf, addrOf, tokens_text l clean, address]

end CsappLab.Csim
