/-
# Driver.Filter — the part of a trace between the markers

`eval_perf` of `test-trans.c` copies a part of the trace that valgrind has written into a file
of its own: the data accesses in the low part of memory from the first access to the one marker
to the first access to the other. `filterTrace` does so buffer by buffer; on a trace that is
laid out as valgrind lays it out the part is `between`, line by line (`filterTrace_render`).
-/
import CsappLab.Csim.Summary
import CsappLab.Lib.Numeral

namespace CsappLab.Driver

set_option autoImplicit false

open CsappLab.Lib CsappLab.Csim

/-! ## The loop -/

/-- `char buf[1000]`. -/
def BUF_LEN : Nat := 1000

/-- `buf[0]==' ' && buf[2]==' ' && (buf[1]=='S' || buf[1]=='M' || buf[1]=='L')`. Behind the NUL
of a shorter buffer an older line may stand; `buf[1]` is the NUL then. -/
def isDataAccess (buf : List Char) : Bool :=
  buf.getD 0 NUL = ' ' ∧ buf.getD 2 NUL = ' ' ∧
    (buf.getD 1 NUL = 'S' ∨ buf.getD 1 NUL = 'M' ∨ buf.getD 1 NUL = 'L')

/-- What `sscanf(s, "%llx,%u", &addr, &len)` leaves in `addr`; `none` is a variable without a
value. -/
def sscanfAddr (s : List Char) (addr : Option (BitVec 64)) : Option (BitVec 64) :=
  match scanNumber 16 s with
  | none => addr
  | some _ => some (strtoul 16 s).1

/-- `addr < 0xffffffff`. -/
def isLow (addr : BitVec 64) : Bool := addr < 0xffffffff

/-- The loop's variables, and the file that is written. -/
structure Filter where
  flag : Bool
  addr : Option (BitVec 64)
  part : List Char
  closed : Bool
  deriving DecidableEq, Repr

section

variable (marker_start marker_end : BitVec 64)

/-- The loop body. -/
def filterBuf (buf : List Char) (f : Filter) : Option Filter :=
  if isDataAccess buf then do
    let addr ← sscanfAddr (cString (buf.drop 3)) f.addr
    let flag := f.flag || addr = marker_start
    let part := if flag && isLow addr then f.part ++ cString buf else f.part
    if addr = marker_end then some { flag := false, addr := some addr, part, closed := true }
    else some { f with flag, addr := some addr, part }
  else some f

/-- `while (fgets(buf, 1000, full_trace_fp) != NULL)`, up to the `break`. -/
def filterBufs : List (List Char) → Filter → Option Filter
  | [], f => some f
  | buf :: bufs, f => do
      let f ← filterBuf marker_start marker_end buf f
      if f.closed then some f else filterBufs bufs f

/-- The loop on a file, from what an earlier function's loop has left in `addr`. -/
def filterTrace (file : List Char) (addr : Option (BitVec 64)) : Option Filter :=
  filterBufs marker_start marker_end (fgetsAll BUF_LEN file)
    { flag := false, addr, part := [], closed := false }

end

/-! ## The lines of a trace -/

/-- A line that valgrind writes: an access, or a remark of another form. -/
inductive FullLine where
  | access (l : TraceLine)
  | remark (chars : List Char) (clean : '\n' ∉ chars) (short : chars.length + 2 ≤ BUF_LEN)
      (other : isDataAccess (chars ++ ['\n']) = false)

namespace FullLine

def text : FullLine → List Char
  | .access l => l.text
  | .remark chars _ _ _ => chars

/-- The line as a data access. -/
def data : FullLine → Option TraceLine
  | .access l => if l.op = .I then none else some l
  | .remark _ _ _ _ => none

end FullLine

/-- The file's text, a newline behind every line. -/
def fullText (lines : List FullLine) : List Char :=
  lines.flatMap fun l => l.text ++ ['\n']

section

variable (marker_start marker_end : BitVec 64)

/-- The lines up to the first access to the end marker, which is the last of them. -/
def upToEnd (lines : List TraceLine) : List TraceLine :=
  lines.takeWhile (·.address ≠ marker_end) ++ (lines.dropWhile (·.address ≠ marker_end)).take 1

/-- The lines from the first access to the start marker up to the first one to the end marker,
those of the low part of memory. -/
def between (lines : List TraceLine) : List TraceLine :=
  ((upToEnd marker_end lines).dropWhile (·.address ≠ marker_start)).filter (isLow ·.address)

end

/-! ## A line for an access -/

theorem size_digits : IsDigits 10 ['4'] := by decide
theorem size_pos : 1 ≤ ['4'].length := by decide
theorem size_le : ['4'].length ≤ 3 := by decide

theorem addr_digits (addr : BitVec 64) : IsDigits 16 (Nat.toDigits 16 addr.toNat) :=
  isDigits_toDigits (by decide) (by decide) _

theorem addr_le (addr : BitVec 64) : (Nat.toDigits 16 addr.toNat).length ≤ 16 :=
  (Nat.length_toDigits_le_iff (by decide) (by decide)).2 addr.isLt

theorem addr_pos (addr : BitVec 64) : 1 ≤ (Nat.toDigits 16 addr.toNat).length :=
  Nat.length_toDigits_pos

/-- A line for an access of four bytes to an address. -/
def accessLine (op : Op) (addr : BitVec 64) : TraceLine where
  op := op
  addr := Nat.toDigits 16 addr.toNat
  size := ['4']
  addr_digits := addr_digits addr
  addr_pos := addr_pos addr
  addr_le := addr_le addr
  size_digits := size_digits
  size_pos := size_pos
  size_le := size_le

@[simp] theorem accessLine_address (op : Op) (addr : BitVec 64) :
    (accessLine op addr).address = addr := by
  unfold TraceLine.address accessLine
  rw [digitsVal_toDigits (by decide) (by decide), BitVec.ofNat_toNat, BitVec.setWidth_eq]

/-! ## One line -/

section

variable {marker_start marker_end : BitVec 64}

theorem fullLine_clean (l : FullLine) : '\n' ∉ l.text ∧ l.text.length + 2 ≤ BUF_LEN := by
  cases l with
  | access l =>
      have short := length_text_le l
      exact ⟨mem_text_ne (.inl rfl), Nat.le_trans (Nat.add_le_add_right short 2) (by decide)⟩
  | remark chars clean short other => exact ⟨clean, short⟩

theorem fgetsAll_fullText (l : FullLine) (rest : List Char) :
    fgetsAll BUF_LEN (l.text ++ '\n' :: rest) = (l.text ++ ['\n']) :: fgetsAll BUF_LEN rest := by
  obtain ⟨clean, short⟩ := fullLine_clean l
  apply fgetsAll_cons (by decide)
  exact fgets_line rest clean short

theorem data_eq_some {l : FullLine} {access : TraceLine} (kind : l.data = some access) :
    l.text = access.text ∧ access.op ≠ .I := by
  cases l with
  | remark chars clean short other => cases kind
  | access l =>
      by_cases instr : l.op = .I
      · simp only [FullLine.data, if_pos instr, reduceCtorEq] at kind
      · simp only [FullLine.data, if_neg instr, Option.some.injEq] at kind
        exact ⟨kind ▸ rfl, kind ▸ instr⟩

/-- A data access begins with its operation between blanks. -/
theorem text_data {l : TraceLine} (isData : l.op ≠ .I) :
    l.text = ' ' :: l.op.char :: ' ' :: (l.addr ++ ',' :: l.size) := by
  simp [TraceLine.text, TraceLine.indent, isData]

theorem isDataAccess_text {l : TraceLine} (isData : l.op ≠ .I) :
    isDataAccess (l.text ++ ['\n']) = true := by
  rw [text_data isData]
  cases kind : l.op with
  | I => exact absurd kind isData
  | L => simp [isDataAccess, Op.char]
  | S => simp [isDataAccess, Op.char]
  | M => simp [isDataAccess, Op.char]

theorem filterBuf_other {l : FullLine} (other : l.data = none) (f : Filter) :
    filterBuf marker_start marker_end (l.text ++ ['\n']) f = some f := by
  have skipped : isDataAccess (l.text ++ ['\n']) = false := by
    cases l with
    | remark chars clean short foreign => exact foreign
    | access l =>
        have instr : l.op = .I := by
          by_contra isData
          simp only [FullLine.data, if_neg isData, reduceCtorEq] at other
        simp [FullLine.text, TraceLine.text, TraceLine.indent, instr, isDataAccess, Op.char]
  unfold filterBuf
  rw [skipped]
  rfl

/-- `sscanf` reads a line's address. -/
theorem sscanfAddr_text {l : TraceLine} (isData : l.op ≠ .I) (addr : Option (BitVec 64)) :
    sscanfAddr (cString ((l.text ++ ['\n']).drop 3)) addr = some l.address := by
  have nonempty := List.ne_nil_of_length_pos l.addr_pos
  have ends : EndsNumber (',' :: (l.size ++ ['\n'])) := by
    intro c member
    obtain rfl : ',' = c := Option.some.inj member
    decide
  have noNul : NUL ∉ l.addr ++ ',' :: (l.size ++ ['\n']) := by
    have whole := noNul_line l (.inr rfl : ['\n'] = [] ∨ ['\n'] = ['\n'])
    rw [text_data isData] at whole
    simp only [List.cons_append, List.append_assoc, List.mem_cons, not_or] at whole
    exact whole.2.2.2
  have dropped : (l.text ++ ['\n']).drop 3 = l.addr ++ ',' :: (l.size ++ ['\n']) := by
    rw [text_data isData]
    simp
  have number := scanNumber_word (Nat.le_refl 16) l.addr_digits nonempty
    (ends.not_goesOn (Nat.le_refl 16)) false
  have value := strtoul_word l.addr_digits nonempty l.addr_le ends
  rw [dropped, cString_eq noNul]
  unfold sscanfAddr
  rw [show scanNumber 16 (l.addr ++ ',' :: (l.size ++ ['\n'])) = _ from number, value]
  rfl

/-- The lines as they stand in a file. -/
theorem render_true (lines : List TraceLine) :
    render lines true = lines.flatMap fun l => l.text ++ ['\n'] := by
  induction lines with
  | nil => rfl
  | cons l lines ih =>
      cases lines with
      | nil => simp [render]
      | cons l' lines =>
          rw [List.flatMap_cons, ← ih]
          simp [render]

theorem render_true_append (lines lines' : List TraceLine) :
    render (lines ++ lines') true = render lines true ++ render lines' true := by
  simp only [render_true, List.flatMap_append]

/-- What a data access does to the variables, the end marker aside. -/
def Filter.copyLine (marker_start : BitVec 64) (l : TraceLine) (f : Filter) : Filter :=
  { f with
    flag := f.flag || l.address = marker_start
    addr := some l.address
    part := f.part ++
      render (if (f.flag || l.address = marker_start) && isLow l.address then [l] else []) true }

theorem filterBuf_data {l : TraceLine} (isData : l.op ≠ .I) (f : Filter) :
    filterBuf marker_start marker_end (l.text ++ ['\n']) f =
      if l.address = marker_end then
        some { f.copyLine marker_start l with flag := false, closed := true }
      else some (f.copyLine marker_start l) := by
  have part : f.part ++ render
      (if (f.flag || l.address = marker_start) && isLow l.address then [l] else []) true =
      if (f.flag || l.address = marker_start) && isLow l.address then f.part ++ (l.text ++ ['\n'])
      else f.part := by
    rw [render_true]
    split <;> simp
  unfold filterBuf Filter.copyLine
  rw [isDataAccess_text isData, sscanfAddr_text isData, cString_eq (noNul_line l (.inr rfl)), part]
  rfl

/-! ## The whole trace -/

theorem upToEnd_cons (l : TraceLine) (lines : List TraceLine) :
    upToEnd marker_end (l :: lines) =
      l :: if l.address = marker_end then [] else upToEnd marker_end lines := by
  unfold upToEnd
  by_cases last : l.address = marker_end
  · simp [last]
  · simp [last]

/-- What the loop copies from a state with the flag. -/
def copied (marker_start marker_end : BitVec 64) (flag : Bool) (lines : List TraceLine) :
    List TraceLine :=
  ((upToEnd marker_end lines).dropWhile fun l => !flag && l.address ≠ marker_start).filter
    (isLow ·.address)

theorem copied_false (lines : List TraceLine) :
    copied marker_start marker_end false lines = between marker_start marker_end lines := by
  simp only [copied, between, Bool.not_false, Bool.true_and]

/-- Once the flag is set every low line is copied. -/
theorem copied_true_cons (l : TraceLine) (lines : List TraceLine) :
    copied marker_start marker_end true (l :: lines) =
      (if isLow l.address then [l] else []) ++
        if l.address = marker_end then [] else copied marker_start marker_end true lines := by
  have all : ∀ lines : List TraceLine, lines.dropWhile (fun _ => false) = lines := by
    intro lines
    cases lines <;> rfl
  simp only [copied, Bool.not_true, Bool.false_and, all, upToEnd_cons, List.filter_cons,
    apply_ite (List.filter _), List.filter_nil]
  cases isLow l.address <;> rfl

theorem copied_cons (flag : Bool) (l : TraceLine) (lines : List TraceLine) :
    copied marker_start marker_end flag (l :: lines) =
      (if (flag || l.address = marker_start) && isLow l.address then [l] else []) ++
        if l.address = marker_end then []
        else copied marker_start marker_end (flag || l.address = marker_start) lines := by
  cases flag with
  | true => exact copied_true_cons l lines
  | false =>
      by_cases first : l.address = marker_start
      · have set : copied marker_start marker_end false (l :: lines) =
            copied marker_start marker_end true (l :: lines) := by
          simp [copied, upToEnd_cons, first]
        rw [set, copied_true_cons]
        simp [first]
      · have skipped : copied marker_start marker_end false (l :: lines) =
            if l.address = marker_end then [] else copied marker_start marker_end false lines := by
          simp only [copied, upToEnd_cons]
          rw [List.dropWhile_cons_of_pos (by simp [first])]
          split <;> rfl
        rw [skipped]
        simp [first]

/-- The part of a trace with one line for each marker. -/
theorem between_region {start stop : TraceLine} {lines : List TraceLine}
    (apart : marker_start ≠ marker_end) (first : start.address = marker_start)
    (inside : ∀ l ∈ lines, l.address ≠ marker_end) (last : stop.address = marker_end)
    (rest : List TraceLine) :
    between marker_start marker_end (start :: (lines ++ stop :: rest)) =
      (start :: (lines ++ [stop])).filter (isLow ·.address) := by
  have region : copied marker_start marker_end true (lines ++ stop :: rest) =
      (lines ++ [stop]).filter (isLow ·.address) := by
    induction lines with
    | nil =>
        rw [List.nil_append, copied_true_cons, if_pos last]
        cases low : isLow stop.address <;> simp [low]
    | cons l lines ih =>
        rw [List.cons_append, copied_true_cons, if_neg (inside l List.mem_cons_self),
          ih fun l' member => inside l' (List.mem_cons_of_mem _ member)]
        cases low : isLow l.address <;> simp [low]
  have goesOn : start.address ≠ marker_end := fun same => apart (first.symm.trans same)
  rw [← copied_false, copied_cons, if_neg goesOn]
  simp only [first, decide_true, Bool.false_or, Bool.true_and, region]
  cases low : isLow marker_start <;> simp [first, low]

/-- The loop on the lines of a trace, from any state of its variables; what is behind the end
marker is not read. -/
theorem filterBufs_render (marker_start : BitVec 64) (lines : List FullLine) (rest : List Char)
    (ends : rest = [] ∨ ∃ l ∈ lines.filterMap FullLine.data, l.address = marker_end) (f : Filter)
    (isOpen : f.closed = false) :
    ∃ f', filterBufs marker_start marker_end (fgetsAll BUF_LEN (fullText lines ++ rest)) f =
        some f' ∧
      f'.part = f.part ++
        render (copied marker_start marker_end f.flag (lines.filterMap FullLine.data)) true ∧
      (f'.closed = true ↔ ∃ l ∈ lines.filterMap FullLine.data, l.address = marker_end) := by
  induction lines generalizing f with
  | nil =>
      rcases ends with rfl | ⟨l, member, -⟩
      · refine ⟨f, rfl, ?_, ?_⟩
        · simp [copied, upToEnd, render]
        · simp [isOpen]
      · cases member
  | cons l lines ih =>
      have bufs : fgetsAll BUF_LEN (fullText (l :: lines) ++ rest) =
          (l.text ++ ['\n']) :: fgetsAll BUF_LEN (fullText lines ++ rest) := by
        rw [← fgetsAll_fullText]
        simp [fullText]
      rw [bufs]
      cases kind : l.data with
      | none =>
          -- no data access
          rw [List.filterMap_cons_none kind] at ends ⊢
          obtain ⟨f', ran, post⟩ := ih ends f isOpen
          refine ⟨f', ?_, post⟩
          show (filterBuf _ _ _ f).bind _ = _
          rw [filterBuf_other kind]
          show (if f.closed then some f else filterBufs _ _ _ f) = _
          rw [isOpen]
          exact ran
      | some access =>
          obtain ⟨sameText, isData⟩ := data_eq_some kind
          rw [List.filterMap_cons_some kind] at ends ⊢
          rw [copied_cons, sameText]
          show ∃ f', (filterBuf _ _ _ f).bind _ = some f' ∧ _
          rw [filterBuf_data isData]
          by_cases last : access.address = marker_end
          · rw [if_pos last, if_pos last]
            refine ⟨_, rfl, ?_, ?_⟩
            · rw [List.append_nil]
              rfl
            · exact ⟨fun _ => ⟨access, List.mem_cons_self, last⟩, fun _ => rfl⟩
          · rw [if_neg last, if_neg last]
            have ends' : rest = [] ∨
                ∃ l ∈ lines.filterMap FullLine.data, l.address = marker_end := by
              refine ends.imp id ?_
              rintro ⟨l', member, at_⟩
              rcases List.mem_cons.1 member with rfl | later
              · exact absurd at_ last
              · exact ⟨l', later, at_⟩
            obtain ⟨f', ran, part', closed⟩ := ih ends' (f.copyLine marker_start access) isOpen
            refine ⟨f', ?_, ?_, ?_⟩
            · show (if f.closed then some _ else filterBufs _ _ _ _) = _
              rw [isOpen]
              exact ran
            · rw [part', render_true_append, ← List.append_assoc]
              rfl
            · rw [closed]
              simp [last]

/-- **The part file of a trace** as valgrind writes one: the low data accesses from the first
access to the start marker to the first one to the end marker, line by line and nothing else;
it is closed if the end marker is found. -/
theorem filterTrace_render (marker_start marker_end : BitVec 64) (lines : List FullLine)
    (rest : List Char)
    (ends : rest = [] ∨ ∃ l ∈ lines.filterMap FullLine.data, l.address = marker_end)
    (addr : Option (BitVec 64)) :
    ∃ f, filterTrace marker_start marker_end (fullText lines ++ rest) addr = some f ∧
      f.part = render (between marker_start marker_end (lines.filterMap FullLine.data)) true ∧
      (f.closed = true ↔ ∃ l ∈ lines.filterMap FullLine.data, l.address = marker_end) := by
  obtain ⟨f, ran, part, closed⟩ := filterBufs_render marker_start lines rest ends
    ⟨false, addr, [], false⟩ rfl
  refine ⟨f, ran, ?_, closed⟩
  rw [part, copied_false, List.nil_append]

/-- A remark and an instruction, a load of the stack between the markers, and text that is not
read. -/
def stackTrace : List FullLine :=
  [.remark ['=', '=', '9', '=', '='] (by decide) (by decide) (by decide),
    .access (accessLine .I 0x4f), .access (accessLine .S 0x3000),
    .access (accessLine .L 0x1ffeffe7e0), .access (accessLine .M 0x80c0),
    .access (accessLine .S 0x3001)]

theorem filterTrace_render_stack :
    ∃ f, filterTrace 0x3000 0x3001 (fullText stackTrace ++ [' ', 'L', ' ', '8']) none = some f ∧
      f.part = " S 3000,4\n M 80c0,4\n S 3001,4\n".toList ∧ f.closed = true := by
  have found : ∃ l ∈ stackTrace.filterMap FullLine.data, l.address = 0x3001 :=
    ⟨_, List.mem_of_getLast? rfl, accessLine_address .S 0x3001⟩
  obtain ⟨f, ran, part, closed⟩ := filterTrace_render 0x3000 0x3001 stackTrace
    [' ', 'L', ' ', '8'] (.inr found) none
  refine ⟨f, ran, ?_, closed.2 found⟩
  rw [part]
  decide +kernel

end

end CsappLab.Driver
