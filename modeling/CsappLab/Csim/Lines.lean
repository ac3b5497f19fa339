/-
# Csim.Lines — what the accesses of a line depend on

A trace file is a sequence of lines, each with its newline but for possibly the last.
The buffers of a line are its own (`fgetsAll_file`), but what they leave unnamed is
taken from `memOpInfo`, where an earlier line put it: a line that has an operation and
no address repeats the address before it, and one without any token the whole
operation.

`Line.SelfContained` is the condition on the text of a line under which this does not
happen: after each of its buffers the line itself has named an operation, and where
that is a data operation the line itself has named an address. `simulated_lines` says
that these are exactly the lines whose accesses do not depend on the lines before them,
and that the accesses of a file made of such lines are those of its lines put together.
-/
import CsappLab.Csim.Reading

namespace CsappLab.Csim

set_option autoImplicit false

open CsappLab.Lib CsappLab.Cache

/-! ## Named by a line alone -/

namespace Named

/-- What has been named is enough: an operation, and an address if it is a data
operation. -/
def Enough (n : Named) : Prop :=
  n.op.isSome ∧ (n.IsData → n.addr.isSome)

instance (n : Named) : Decidable n.Enough :=
  inferInstanceAs (Decidable (_ ∧ _))

/-- Whatever `m` has named, `n` has too. -/
structure Extends (n m : Named) : Prop where
  op : ∀ c, m.op = some c → n.op = some c
  addr : ∀ a, m.addr = some a → n.addr = some a

theorem extends_nothing (n : Named) : n.Extends nothing := by
  constructor
  · rintro c ⟨⟩
  · rintro a ⟨⟩

theorem Extends.next {n m : Named} (extends' : n.Extends m) (buf : List Char) :
    (n.next buf).Extends (m.next buf) := by
  constructor
  · intro c named
    simp only [Named.next, Option.or_eq_some_iff] at named ⊢
    rcases named with here | ⟨absent, earlier⟩
    · exact .inl here
    · exact .inr ⟨absent, extends'.op c earlier⟩
  · intro a named
    simp only [Named.next, Option.or_eq_some_iff] at named ⊢
    rcases named with here | ⟨absent, earlier⟩
    · exact .inl here
    · exact .inr ⟨absent, extends'.addr a earlier⟩

/-- Where enough has been named, nothing else matters. -/
theorem Extends.accesses_eq {n m : Named} (extends' : n.Extends m) (enough : m.Enough) :
    n.accesses = m.accesses := by
  obtain ⟨c, op⟩ := Option.isSome_iff_exists.1 enough.1
  have same : n.op = m.op := by rw [op, extends'.op c op]
  by_cases data : m.IsData
  · obtain ⟨a, addr⟩ := Option.isSome_iff_exists.1 (enough.2 data)
    simp only [accesses, same, addr, extends'.addr a addr]
  · have data' : ¬ n.IsData := by
      unfold IsData at data ⊢
      rwa [same]
    rw [(accesses_eq_nil_iff m).2 data, (accesses_eq_nil_iff n).2 data']

end Named

/-- **Enough is named**: the accesses are those named by the buffers alone. -/
theorem accessesFrom_extends {n m : Named} {bufs : List (List Char)} (extends' : n.Extends m)
    (enough : ∀ x ∈ namings m bufs, x.Enough) : accessesFrom n bufs = accessesFrom m bufs := by
  induction bufs generalizing n m with
  | nil => rfl
  | cons buf bufs ih =>
      have first := enough (m.next buf) List.mem_cons_self
      have others := fun x member => enough x (List.mem_cons_of_mem (m.next buf) member)
      rw [accessesFrom_cons, accessesFrom_cons, (extends'.next buf).accesses_eq first,
        ih (extends'.next buf) others]

/-! ## Too little is named -/

theorem next_both (c : Char) (a : BitVec 64) (buf : List Char) :
    Named.next ⟨some c, some a⟩ buf =
      ⟨some ((opOf buf).getD c), some ((addrOf buf).getD a)⟩ := by
  simp [Named.next, Option.or_some]

/-- Once both are named, enough is. -/
theorem enough_of_both {c : Char} {a : BitVec 64} {bufs : List (List Char)} :
    ∀ x ∈ namings ⟨some c, some a⟩ bufs, x.Enough := by
  induction bufs generalizing c a with
  | nil => simp [namings]
  | cons buf bufs ih =>
      intro x member
      rw [namings, next_both] at member
      rcases List.mem_cons.1 member with rfl | later
      · exact ⟨rfl, fun _ => rfl⟩
      · exact ih x later

theorem accesses_cons {c : Char} {a : BitVec 64} (data : (⟨some c, some a⟩ : Named).IsData) :
    ∃ more, (⟨some c, some a⟩ : Named).accesses = a :: more := by
  rcases data with load | store | modify
  · exact ⟨[], by simp_all [Named.accesses]⟩
  · exact ⟨[], by simp_all [Named.accesses]⟩
  · exact ⟨[a], by simp_all [Named.accesses]⟩

/-- With an operation named, two addresses from before lead to the same accesses only if
neither is used. -/
theorem enough_of_addr {c : Char} {a a' : BitVec 64} {bufs : List (List Char)} (differ : a ≠ a')
    (same : accessesFrom ⟨some c, some a⟩ bufs = accessesFrom ⟨some c, some a'⟩ bufs) :
    ∀ x ∈ namings ⟨some c, none⟩ bufs, x.Enough := by
  induction bufs generalizing c with
  | nil => simp [namings]
  | cons buf bufs ih =>
      intro x member
      cases addr : addrOf buf with
      | some b =>
          have both : Named.next ⟨some c, none⟩ buf = ⟨some ((opOf buf).getD c), some b⟩ := by
            simp [Named.next, Option.or_some, addr]
          rw [namings, both] at member
          rcases List.mem_cons.1 member with rfl | later
          · exact ⟨rfl, fun _ => rfl⟩
          · exact enough_of_both x later
      | none =>
          have kept : ∀ before, Named.next ⟨some c, before⟩ buf =
              ⟨some ((opOf buf).getD c), before⟩ := by
            intro before
            simp [Named.next, Option.or_some, addr]
          rw [accessesFrom_cons, accessesFrom_cons, kept, kept] at same
          rw [namings, kept] at member
          generalize (opOf buf).getD c = c' at *
          by_cases data : (⟨some c', some a⟩ : Named).IsData
          · obtain ⟨more, first⟩ := accesses_cons data
            obtain ⟨more', first'⟩ := accesses_cons (c := c') (a := a') data
            rw [first, first'] at same
            exact absurd (List.cons.inj same).1 differ
          · rw [(Named.accesses_eq_nil_iff _).2 data,
              (Named.accesses_eq_nil_iff ⟨some c', some a'⟩).2 data] at same
            rcases List.mem_cons.1 member with rfl | later
            · exact ⟨rfl, fun data' => absurd data' data⟩
            · exact ih same x later

/-- An instruction from before leads to no more accesses than a load. -/
theorem length_accessesFrom_le (a : BitVec 64) (bufs : List (List Char)) :
    (accessesFrom ⟨some 'I', some a⟩ bufs).length ≤
      (accessesFrom ⟨some 'L', some a⟩ bufs).length := by
  induction bufs generalizing a with
  | nil => exact Nat.le_refl _
  | cons buf bufs ih =>
      rw [accessesFrom_cons, accessesFrom_cons, next_both, next_both]
      cases opOf buf with
      | some c => exact Nat.le_refl _
      | none =>
          rw [List.length_append, List.length_append]
          exact Nat.add_le_add (Nat.zero_le _) (ih _)

/-- **Too little is named**: if the buffers do the same accesses after two loads with
different addresses and after an instruction, then enough is named in them. -/
theorem enough_of_same {bufs : List (List Char)}
    (addr : accessesFrom ⟨some 'L', some 1⟩ bufs = accessesFrom ⟨some 'L', some 2⟩ bufs)
    (op : accessesFrom ⟨some 'I', some 1⟩ bufs = accessesFrom ⟨some 'L', some 1⟩ bufs) :
    ∀ x ∈ namings .nothing bufs, x.Enough := by
  cases bufs with
  | nil => simp [namings]
  | cons buf bufs =>
      cases first : opOf buf with
      | none =>
          -- the load is repeated, and nothing later makes up for it
          have fewer := length_accessesFrom_le ((addrOf buf).getD 1) bufs
          rw [accessesFrom_cons, accessesFrom_cons, next_both, next_both, first] at op
          have counts := congrArg List.length op
          rw [List.length_append, List.length_append] at counts
          have load : (⟨some 'L', some ((addrOf buf).getD 1)⟩ : Named).accesses.length = 1 := rfl
          have instr : (⟨some 'I', some ((addrOf buf).getD 1)⟩ : Named).accesses.length = 0 := rfl
          simp only [Option.getD_none, load, instr] at counts
          omega
      | some c =>
          have same : namings .nothing (buf :: bufs) = namings ⟨some 'L', none⟩ (buf :: bufs) := by
            simp [namings, Named.next, Named.nothing, first]
          rw [same]
          exact enough_of_addr (by decide) addr

/-! ## The newline -/

/-- The operation is the first character that is no delimiter. -/
theorem opOf_eq (buf : List Char) : opOf buf = (buf.dropWhile (· ∈ delims)).head? := by
  induction buf with
  | nil => rfl
  | cons c buf ih =>
      by_cases delim : c ∈ delims
      · rw [List.dropWhile_cons_of_pos (by simpa using delim), ← ih]
        unfold opOf
        rw [tokens_delim buf delim]
      · obtain ⟨w, more, split⟩ := tokens_cons buf delim
        rw [List.dropWhile_cons_of_neg (by simpa using delim)]
        simp [opOf, split]

theorem opOf_newline (buf : List Char) : opOf (buf ++ ['\n']) = (opOf buf).or (some '\n') := by
  have newline : ['\n'].dropWhile (· ∈ delims) = ['\n'] := rfl
  rw [opOf_eq, opOf_eq, List.dropWhile_append, newline]
  cases buf.dropWhile (· ∈ delims) with
  | nil => rfl
  | cons c rest => rfl

theorem mem_namings_last (n : Named) (bufs : List (List Char)) (buf : List Char) :
    (bufs.foldl Named.next n).next buf ∈ namings n (bufs ++ [buf]) := by
  induction bufs generalizing n with
  | nil => exact List.mem_cons_self
  | cons first bufs ih => exact List.mem_cons_of_mem _ (ih (n.next first))

/-- What two data operations ask for is the same only if their addresses are. -/
theorem accesses_inj {c : Char} {a a' : BitVec 64} (data : (⟨some c, some a⟩ : Named).IsData)
    (same : (⟨some c, some a⟩ : Named).accesses = (⟨some c, some a'⟩ : Named).accesses) :
    a = a' := by
  obtain ⟨more, first⟩ := accesses_cons data
  obtain ⟨more', first'⟩ := accesses_cons (c := c) (a := a') data
  rw [first, first'] at same
  exact (List.cons.inj same).1

/-- A data operation named with the newline is named without it: else the newline would be
the operation. -/
theorem next_newline_op {n : Named} {buf : List Char}
    (data : (n.next (buf ++ ['\n'])).IsData) :
    (n.next (buf ++ ['\n'])).op = (n.next buf).op := by
  simp only [Named.next, opOf_newline] at data ⊢
  cases first : opOf buf with
  | none =>
      rw [first] at data
      rcases data with load | store | modify
      · cases load
      · cases store
      · cases modify
  | some c => rfl

/-- A last buffer with a newline asks for the same as without iff it leaves the same
named, as far as a data operation is. -/
theorem accesses_newline_iff (n : Named) (buf : List Char) (enough : (n.next buf).Enough)
    (enough' : (n.next (buf ++ ['\n'])).Enough) :
    (n.next (buf ++ ['\n'])).accesses = (n.next buf).accesses ↔
      ((n.next buf).IsData ∨ (n.next (buf ++ ['\n'])).IsData →
        n.next (buf ++ ['\n']) = n.next buf) := by
  constructor
  · intro same someData
    -- one asks for something, so both do
    have data : (n.next buf).IsData := by
      rcases someData with data | data
      · exact data
      · by_contra idle
        rw [(Named.accesses_eq_nil_iff _).2 idle, Named.accesses_eq_nil_iff] at same
        exact same data
    have data' : (n.next (buf ++ ['\n'])).IsData := by
      by_contra idle
      rw [(Named.accesses_eq_nil_iff _).2 idle] at same
      exact (Named.accesses_eq_nil_iff _).1 same.symm data
    have op := next_newline_op data'
    obtain ⟨a, addr⟩ := Option.isSome_iff_exists.1 (enough.2 data)
    obtain ⟨a', addr'⟩ := Option.isSome_iff_exists.1 (enough'.2 data')
    obtain ⟨c, named⟩ := Option.isSome_iff_exists.1 enough.1
    have left : n.next (buf ++ ['\n']) = ⟨some c, some a'⟩ := by
      rw [← addr', ← named, ← op]
    have right : n.next buf = ⟨some c, some a⟩ := by
      rw [← addr, ← named]
    rw [left, right] at same ⊢
    rw [accesses_inj (left ▸ data') same]
  · intro kept
    by_cases data : (n.next buf).IsData ∨ (n.next (buf ++ ['\n'])).IsData
    · rw [kept data]
    · rw [not_or] at data
      rw [(Named.accesses_eq_nil_iff _).2 data.1, (Named.accesses_eq_nil_iff _).2 data.2]

/-! ## Lines -/

/-- A line of a file, without its newline. -/
structure Line where
  text : List Char
  noNewline : '\n' ∉ text
  noNul : NUL ∉ text

namespace Line

/-- The line as it stands in a file. -/
def chars (l : Line) (newline : Bool) : List Char :=
  l.text ++ if newline then ['\n'] else []

/-- The buffers it is read into. -/
def bufs (l : Line) (newline : Bool) : List (List Char) :=
  fgetsAll MAX_LINE_LEN (l.chars newline)

/-- An address token: a second token on the line. -/
def HasAddress (l : Line) : Prop :=
  2 ≤ (tokens delims l.text).length

instance (l : Line) : Decidable l.HasAddress :=
  inferInstanceAs (Decidable (_ ≤ _))

/-- After each of its buffers the line has named enough by itself, and it has an address
token if it names a data operation. -/
def NamesEnough (l : Line) (newline : Bool) : Prop :=
  ∀ x ∈ namings .nothing (l.bufs newline), x.Enough ∧ (x.IsData → l.HasAddress)

instance (l : Line) (newline : Bool) : Decidable (l.NamesEnough newline) :=
  List.decidableBAll _ _

/-- What the line has named at its end. -/
def closing (l : Line) (newline : Bool) : Named :=
  (l.bufs newline).foldl Named.next .nothing

/-- The newline makes no difference: it gets a buffer of its own, or the line names the
same at its end with it and without it, as far as a data operation is named. -/
def NewlineKept (l : Line) : Prop :=
  l.text.length % (MAX_LINE_LEN - 1) = 0 ∨
    ((l.closing false).IsData ∨ (l.closing true).IsData → l.closing true = l.closing false)

instance (l : Line) : Decidable l.NewlineKept :=
  inferInstanceAs (Decidable (_ ∨ _))

/-- The line names its accesses itself; a last line without a newline does so in the same
way as with one. -/
def SelfContained (l : Line) (newline : Bool) : Prop :=
  l.NamesEnough true ∧ (newline = false → l.NamesEnough false ∧ l.NewlineKept)

instance (l : Line) (newline : Bool) : Decidable (l.SelfContained newline) :=
  inferInstanceAs (Decidable (_ ∧ (_ → _)))

theorem newlineKept_iff {l : Line} (names : l.NamesEnough true) (names' : l.NamesEnough false) :
    accessesFrom .nothing (l.bufs true) = accessesFrom .nothing (l.bufs false) ↔
      l.NewlineKept := by
  have without : l.bufs false = fgetsAll MAX_LINE_LEN l.text := by
    unfold bufs chars
    simp
  have with' : l.bufs true = fgetsAll MAX_LINE_LEN (l.text ++ ['\n']) := rfl
  unfold NamesEnough at names names'
  unfold NewlineKept closing
  rw [without] at names' ⊢
  rw [with'] at names ⊢
  rcases fgetsAll_newline (by decide : 2 ≤ MAX_LINE_LEN) l.noNewline with
    ⟨even, own⟩ | ⟨odd, bufs, buf, last, line⟩
  · -- a newline alone names no data operation
    have idle : ∀ n, accessesFrom n [['\n']] = [] := by
      intro n
      rw [accessesFrom_cons, accessesFrom_nil, List.append_nil, Named.accesses_eq_nil_iff]
      rintro (load | store | modify)
      · cases load
      · cases store
      · cases modify
    rw [own, accessesFrom_append, idle, List.append_nil]
    exact ⟨fun _ => .inl even, fun _ => rfl⟩
  · rw [last] at names' ⊢
    rw [line] at names ⊢
    have key := accesses_newline_iff (bufs.foldl Named.next .nothing) buf
      (names' _ (mem_namings_last _ _ _)).1 (names _ (mem_namings_last _ _ _)).1
    rw [accessesFrom_append, accessesFrom_append, List.append_cancel_left_eq, accessesFrom_cons,
      accessesFrom_cons, accessesFrom_nil, accessesFrom_nil, List.append_nil, List.append_nil, key,
      List.foldl_append, List.foldl_append, List.foldl_cons, List.foldl_cons, List.foldl_nil,
      List.foldl_nil]
    exact ⟨.inr, fun kept => kept.resolve_left odd⟩

/-- From whatever was named before, the accesses are those the line names itself. -/
theorem NamesEnough.accessesFrom_eq {l : Line} {newline : Bool} (names : l.NamesEnough newline)
    (n : Named) : accessesFrom n (l.bufs newline) = accessesFrom .nothing (l.bufs newline) :=
  accessesFrom_extends n.extends_nothing fun x member => (names x member).1

theorem NamesEnough.eq_nil {l : Line} {newline : Bool} (names : l.NamesEnough newline)
    (noAddress : ¬ l.HasAddress) : accessesFrom .nothing (l.bufs newline) = [] := by
  apply List.flatMap_eq_nil_iff.2
  intro x member
  rw [Named.accesses_eq_nil_iff]
  exact fun data => noAddress ((names x member).2 data)

/-- Two loads and an instruction before the line tell whether it names enough. -/
theorem namesEnough_of_same {l : Line} {newline : Bool} {addrs : List (BitVec 64)}
    (noAddress : ¬ l.HasAddress → addrs = [])
    (load₁ : accessesFrom ⟨some 'L', some 1⟩ (l.bufs newline) = addrs)
    (load₂ : accessesFrom ⟨some 'L', some 2⟩ (l.bufs newline) = addrs)
    (instr : accessesFrom ⟨some 'I', some 1⟩ (l.bufs newline) = addrs) :
    l.NamesEnough newline := by
  have enough := enough_of_same (load₁.trans load₂.symm) (instr.trans load₁.symm)
  intro x member
  refine ⟨enough x member, fun data => ?_⟩
  by_contra noToken
  rw [accessesFrom_extends (Named.extends_nothing _) enough, noAddress noToken] at load₁
  have idle := List.flatMap_eq_nil_iff.1 load₁ x member
  exact (Named.accesses_eq_nil_iff x).1 idle data

end Line

/-- A file: its lines with a newline, and possibly a last one without. -/
def fileOf (ended : List Line) (last : Option Line) : List Char :=
  ended.flatMap (·.chars true) ++ last.elim [] (·.chars false)

/-- Every line is read into buffers of its own. -/
theorem fgetsAll_file (ended : List Line) (last : Option Line) :
    fgetsAll MAX_LINE_LEN (fileOf ended last) =
      ended.flatMap (·.bufs true) ++ last.elim [] (·.bufs false) := by
  induction ended with
  | nil => cases last <;> rfl
  | cons l ls ih =>
      have whole : fileOf (l :: ls) last = l.text ++ '\n' :: fileOf ls last := by
        simp [fileOf, Line.chars]
      rw [whole, fgetsAll_line (by decide) l.noNewline, ih, List.flatMap_cons, List.append_assoc]
      rfl

theorem Line.noNul_chars (l : Line) (newline : Bool) : NUL ∉ l.chars newline := by
  intro member
  rcases List.mem_append.1 member with inText | inNewline
  · exact l.noNul inText
  · cases newline with
    | false => cases inNewline
    | true => exact absurd inNewline (by decide)

theorem noNul_file (ended : List Line) (last : Option Line) : NUL ∉ fileOf ended last := by
  intro member
  rcases List.mem_append.1 member with inEnded | inLast
  · obtain ⟨l, -, inside⟩ := List.mem_flatMap.1 inEnded
    exact l.noNul_chars true inside
  · cases last with
    | none => cases inLast
    | some l => exact l.noNul_chars false inLast

/-- The accesses of a text, if it has an address token: those it names itself. -/
def textAccesses (text : List Char) : List (BitVec 64) :=
  if 2 ≤ (tokens delims text).length then
    accessesFrom .nothing (fgetsAll MAX_LINE_LEN (text ++ ['\n']))
  else []

theorem Line.NamesEnough.eq_textAccesses {l : Line} (names : l.NamesEnough true) :
    accessesFrom .nothing (l.bufs true) = textAccesses l.text := by
  by_cases token : l.HasAddress
  · exact (if_pos token).symm
  · rw [names.eq_nil token]
    exact (if_neg token).symm

theorem accessesFrom_ended {ended : List Line} (contained : ∀ l ∈ ended, l.SelfContained true)
    (n : Named) :
    accessesFrom n (ended.flatMap (·.bufs true)) = ended.flatMap fun l => textAccesses l.text := by
  induction ended generalizing n with
  | nil => rfl
  | cons l ls ih =>
      have names := (contained l List.mem_cons_self).1
      rw [List.flatMap_cons, List.flatMap_cons, accessesFrom_append, names.accessesFrom_eq,
        names.eq_textAccesses, ih fun l' member => contained l' (List.mem_cons_of_mem _ member)]

/-! ## The accesses of a file -/

section Simulated

variable (calloc : Lines → Option Nat) (optarg : OptArg) (configShowVerbose : Bool)
  (param_s paramE param_b : BitVec 32)

/-- The accesses simulated for a file. -/
def simulated (file : List Char) : Option (List (BitVec 64)) :=
  match runMain true calloc optarg configShowVerbose param_s paramE param_b file with
  | some (.ended st) => some st.calls
  | _ => none

/-- **The accesses of a line are its own**: they are the same whatever lines precede it,
and there are none if it has no address token. For a line without its newline, they
are those it has with it, too. -/
def OwnAccesses (l : Line) (newline : Bool) : Prop :=
  ∃ addrs, (¬ l.HasAddress → addrs = []) ∧ ∀ before : List Line, ∃ calls,
    simulated calloc optarg configShowVerbose param_s paramE param_b (fileOf before none) =
      some calls ∧
    simulated calloc optarg configShowVerbose param_s paramE param_b
      (fileOf (before ++ [l]) none) = some (calls ++ addrs) ∧
    (newline = false →
      simulated calloc optarg configShowVerbose param_s paramE param_b (fileOf before (some l)) =
        some (calls ++ addrs))

/-- What the lines of a file leave named. -/
def namedAfter (before : List Line) : Named :=
  (before.flatMap (·.bufs true)).foldl Named.next initNamed

/-- Lines that leave two loads and an instruction behind. -/
def loadOne : Line := ⟨['L', ' ', '1', ',', '1'], by decide, by decide⟩
def loadTwo : Line := ⟨['L', ' ', '2', ',', '1'], by decide, by decide⟩
def instrOne : Line := ⟨['I', ' ', '1', ',', '1'], by decide, by decide⟩

theorem namedAfter_loadOne : namedAfter [loadOne] = ⟨some 'L', some 1⟩ := by decide +kernel
theorem namedAfter_loadTwo : namedAfter [loadTwo] = ⟨some 'L', some 2⟩ := by decide +kernel
theorem namedAfter_instrOne : namedAfter [instrOne] = ⟨some 'I', some 1⟩ := by decide +kernel

variable {calloc optarg configShowVerbose param_s paramE param_b}
variable (allocates : Allocates calloc) (widths : Widths param_s param_b)
  (positive : 1 ≤ paramE.toNat)

include allocates widths positive

theorem simulated_eq {file : List Char} (noNul : NUL ∉ file) :
    simulated calloc optarg configShowVerbose param_s paramE param_b file =
      some (accessesFrom initNamed (fgetsAll MAX_LINE_LEN file)) := by
  obtain ⟨st, ended, after⟩ :=
    runMain_after allocates widths positive optarg configShowVerbose noNul
  unfold simulated
  rw [ended]
  exact congrArg some after.calls

/-- The accesses of a file go on with those of one more line. -/
theorem simulated_line (before : List Line) (l : Line) :
    ∃ calls,
      simulated calloc optarg configShowVerbose param_s paramE param_b (fileOf before none) =
        some calls ∧
      simulated calloc optarg configShowVerbose param_s paramE param_b
        (fileOf (before ++ [l]) none) =
          some (calls ++ accessesFrom (namedAfter before) (l.bufs true)) ∧
      simulated calloc optarg configShowVerbose param_s paramE param_b (fileOf before (some l)) =
        some (calls ++ accessesFrom (namedAfter before) (l.bufs false)) := by
  refine ⟨_, simulated_eq allocates widths positive (noNul_file before none), ?_, ?_⟩
  · rw [simulated_eq allocates widths positive (noNul_file _ _), fgetsAll_file, fgetsAll_file]
    simp only [Option.elim_none, List.append_nil, List.flatMap_append, List.flatMap_singleton,
      accessesFrom_append]
    rfl
  · rw [simulated_eq allocates widths positive (noNul_file _ _), fgetsAll_file, fgetsAll_file]
    simp only [Option.elim_none, Option.elim_some, List.append_nil, accessesFrom_append]
    rfl

/-- The lines whose accesses are their own are those that name them. -/
theorem ownAccesses_iff (l : Line) (newline : Bool) :
    OwnAccesses calloc optarg configShowVerbose param_s paramE param_b l newline ↔
      l.SelfContained newline := by
  constructor
  · rintro ⟨addrs, noAddress, own⟩
    -- what the line does after any lines is `addrs`
    have same : ∀ before, accessesFrom (namedAfter before) (l.bufs true) = addrs ∧
        (newline = false → accessesFrom (namedAfter before) (l.bufs false) = addrs) := by
      intro before
      obtain ⟨calls, first, with', without⟩ := own before
      obtain ⟨calls', first', line, last⟩ := simulated_line allocates widths positive before l
      obtain rfl : calls = calls' := Option.some.inj (first.symm.trans first')
      constructor
      · exact List.append_cancel_left (Option.some.inj (line.symm.trans with'))
      · intro noNewline
        exact List.append_cancel_left (Option.some.inj (last.symm.trans (without noNewline)))
    have load₁ := same [loadOne]
    have load₂ := same [loadTwo]
    have instr := same [instrOne]
    rw [namedAfter_loadOne] at load₁
    rw [namedAfter_loadTwo] at load₂
    rw [namedAfter_instrOne] at instr
    have names := Line.namesEnough_of_same noAddress load₁.1 load₂.1 instr.1
    refine ⟨names, fun noNewline => ?_⟩
    have names' := Line.namesEnough_of_same noAddress (load₁.2 noNewline) (load₂.2 noNewline)
      (instr.2 noNewline)
    refine ⟨names', (Line.newlineKept_iff names names').1 ?_⟩
    rw [← names.accessesFrom_eq, ← names'.accessesFrom_eq, load₁.1, load₁.2 noNewline]
  · rintro ⟨names, last⟩
    refine ⟨accessesFrom .nothing (l.bufs true), names.eq_nil, fun before => ?_⟩
    obtain ⟨calls, first, line, without⟩ := simulated_line allocates widths positive before l
    rw [names.accessesFrom_eq] at line
    refine ⟨calls, first, line, fun noNewline => ?_⟩
    obtain ⟨names', kept⟩ := last noNewline
    rw [without, names'.accessesFrom_eq, (Line.newlineKept_iff names names').2 kept]

end Simulated

/-- **What the accesses of a line depend on.** The lines whose accesses are their own are
exactly the self-contained ones; and the accesses of a file made of such lines are given
line by line by one function of the text, which gives none for a line that has no address
token. -/
theorem simulated_lines {calloc : Lines → Option Nat} {param_s paramE param_b : BitVec 32}
    (allocates : Allocates calloc) (widths : Widths param_s param_b) (positive : 1 ≤ paramE.toNat)
    (optarg : OptArg) (configShowVerbose : Bool) :
    (∀ l newline,
      OwnAccesses calloc optarg configShowVerbose param_s paramE param_b l newline ↔
        l.SelfContained newline) ∧
    ∃ f : List Char → List (BitVec 64), (∀ l : Line, ¬ l.HasAddress → f l.text = []) ∧
      ∀ (ended : List Line) (last : Option Line),
        (∀ l ∈ ended, l.SelfContained true) → (∀ l ∈ last, l.SelfContained false) →
        simulated calloc optarg configShowVerbose param_s paramE param_b (fileOf ended last) =
          some ((ended ++ last.toList).flatMap fun l => f l.text) := by
  refine ⟨ownAccesses_iff allocates widths positive, textAccesses,
    fun l noToken => if_neg noToken, ?_⟩
  intro ended last contained contained'
  rw [simulated_eq allocates widths positive (noNul_file ended last), fgetsAll_file,
    accessesFrom_append, accessesFrom_ended contained, List.flatMap_append]
  cases last with
  | none => rfl
  | some l =>
      obtain ⟨names, without⟩ := contained' l rfl
      obtain ⟨names', kept⟩ := without rfl
      rw [Option.elim_some, names'.accessesFrom_eq, ← (Line.newlineKept_iff names names').2 kept,
        names.eq_textAccesses, Option.toList_some, List.flatMap_singleton]

/-- Lines of a small trace, an empty one among them. -/
def sampleLines : List Line :=
  [⟨['L', ' ', '1', '0', ',', '1'], by decide, by decide⟩, ⟨[], by decide, by decide⟩,
    ⟨['I', ' ', '4', ',', '2'], by decide, by decide⟩]

def sampleLast : Line := ⟨[' ', 'M', ' ', '2', '0', ',', '4'], by decide, by decide⟩

theorem simulated_lines_sample :
    (∀ l ∈ sampleLines, l.SelfContained true) ∧ sampleLast.SelfContained false ∧
      OwnAccesses callocNext .null true 1 1 1 sampleLast false ∧
      ∃ f : List Char → List (BitVec 64), (∀ l : Line, ¬ l.HasAddress → f l.text = []) ∧
        simulated callocNext .null true 1 1 1 (fileOf sampleLines (some sampleLast)) =
          some ((sampleLines ++ [sampleLast]).flatMap fun l => f l.text) := by
  have contained : ∀ l ∈ sampleLines, l.SelfContained true := by decide +kernel
  have contained' : sampleLast.SelfContained false := by decide +kernel
  obtain ⟨own, f, noAddress, all⟩ := simulated_lines allocates_callocNext
    (⟨by decide, by decide, by decide, by decide⟩ : Widths 1 1)
    (by decide : 1 ≤ (1 : BitVec 32).toNat) .null true
  exact ⟨contained, contained', (own sampleLast false).2 contained', f, noAddress,
    all sampleLines (some sampleLast) contained fun l same => Option.some.inj same ▸ contained'⟩

/-- **A line with nothing but an operation repeats the address before it**: no function of
the text gives the accesses of `L`, which has no address token. -/
theorem simulated_stale_address :
    simulated callocNext .null false 1 1 1 "L 10,1\nL\n".toList = some [16, 16] ∧
      simulated callocNext .null false 1 1 1 "L 20,1\nL\n".toList = some [32, 32] ∧
      ¬ ∃ f : List Char → List (BitVec 64), (∀ l : Line, ¬ l.HasAddress → f l.text = []) ∧
        ∀ (ended : List Line) (last : Option Line),
          simulated callocNext .null false 1 1 1 (fileOf ended last) =
            some ((ended ++ last.toList).flatMap fun l => f l.text) := by
  have eq := fun file noNul => @simulated_eq callocNext .null false 1 1 1 allocates_callocNext
    ⟨by decide, by decide, by decide, by decide⟩ (by decide) file noNul
  refine ⟨?_, ?_, ?_⟩
  · rw [eq _ (by decide +kernel)]
    decide +kernel
  · rw [eq _ (by decide +kernel)]
    decide +kernel
  · rintro ⟨f, noAddress, all⟩
    let load : Line := ⟨['L', ' ', '1', '0', ',', '1'], by decide, by decide⟩
    let letter : Line := ⟨['L'], by decide, by decide⟩
    have one := all [load] none
    have two := all [load, letter] none
    rw [eq _ (noNul_file _ _)] at one two
    have alone : f letter.text = [] := noAddress letter (by decide +kernel)
    have first : accessesFrom initNamed (fgetsAll MAX_LINE_LEN (fileOf [load] none)) = [16] := by
      decide +kernel
    have both : accessesFrom initNamed (fgetsAll MAX_LINE_LEN (fileOf [load, letter] none)) =
        [16, 16] := by
      decide +kernel
    rw [first] at one
    rw [both] at two
    -- the letter adds an access to those of the load
    have short : [16] = f load.text := by simpa using one
    have long : [16, 16] = f load.text := by simpa [alone] using two
    rw [← short] at long
    cases long

end CsappLab.Csim
