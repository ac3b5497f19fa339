/-
# Csim.Named — what the buffers of a file name

The read loop takes a file buffer by buffer. A buffer names an operation by its
first token and an address by its second, if it has these; what it does not name
stays as an earlier buffer left it in `memOpInfo`. `namings` follows this from
buffer to buffer, and the accesses are those that what is named asks for. It
starts from whatever is known before: everything, in a run of the program
(`MemOpInfo.named`), or nothing, at the start of a line taken by itself.
-/
import CsappLab.Csim.Csim

namespace CsappLab.Csim

set_option autoImplicit false

open CsappLab.Lib CsappLab.Cache

/-- The operation that a buffer names. -/
def opOf (buf : List Char) : Option Char :=
  (tokens delims buf).head?.map fun token => token.headD NUL

/-- The address that a buffer names. -/
def addrOf (buf : List Char) : Option (BitVec 64) :=
  (tokens delims buf)[1]?.map fun token => (strtoul 16 token).1

/-- What has been named. -/
structure Named where
  op : Option Char
  addr : Option (BitVec 64)
  deriving DecidableEq, Repr

/-- Everything that is in `memOpInfo`. -/
def MemOpInfo.named (memOpInfo : MemOpInfo) : Named :=
  ⟨some memOpInfo.memOpType, some memOpInfo.addr⟩

namespace Named

/-- Nothing yet. -/
def nothing : Named := ⟨none, none⟩

/-- What is named once a buffer has been read. -/
def next (n : Named) (buf : List Char) : Named :=
  ⟨(opOf buf).or n.op, (addrOf buf).or n.addr⟩

/-- A load, a store or a modify. -/
def IsData (n : Named) : Prop :=
  n.op = some 'L' ∨ n.op = some 'S' ∨ n.op = some 'M'

instance (n : Named) : Decidable n.IsData :=
  inferInstanceAs (Decidable (_ ∨ _ ∨ _))

/-- The accesses asked for: two for a modify. -/
def accesses (n : Named) : List (BitVec 64) :=
  if n.op = some 'M' then [n.addr.getD 0, n.addr.getD 0]
  else if n.op = some 'L' ∨ n.op = some 'S' then [n.addr.getD 0]
  else []

theorem accesses_eq_nil_iff (n : Named) : n.accesses = [] ↔ ¬ n.IsData := by
  unfold accesses IsData
  by_cases modify : n.op = some 'M'
  · simp [modify]
  · by_cases single : n.op = some 'L' ∨ n.op = some 'S'
    · simp only [if_neg modify, if_pos single]
      rcases single with load | store
      · simp [load]
      · simp [store]
    · simp only [not_or] at single
      simp [modify, single]

end Named

/-- What is named after each of the buffers. -/
def namings : Named → List (List Char) → List Named
  | _, [] => []
  | n, buf :: bufs => n.next buf :: namings (n.next buf) bufs

/-- The accesses of the buffers, in order. -/
def accessesFrom (n : Named) (bufs : List (List Char)) : List (BitVec 64) :=
  (namings n bufs).flatMap Named.accesses

theorem accessesFrom_nil (n : Named) : accessesFrom n [] = [] := rfl

theorem accessesFrom_cons (n : Named) (buf : List Char) (bufs : List (List Char)) :
    accessesFrom n (buf :: bufs) =
      (n.next buf).accesses ++ accessesFrom (n.next buf) bufs := rfl

theorem accessesFrom_append (n : Named) (bufs bufs' : List (List Char)) :
    accessesFrom n (bufs ++ bufs') =
      accessesFrom n bufs ++ accessesFrom (bufs.foldl Named.next n) bufs' := by
  induction bufs generalizing n with
  | nil => rfl
  | cons buf bufs ih =>
      rw [List.cons_append, accessesFrom_cons, ih, accessesFrom_cons, List.append_assoc,
        List.foldl_cons]

/-! ## The tokens of a buffer -/

/-- The check of a number never finds an error: the end of the number is no place in an
argument, and an address is not negative. -/
theorem not_invalid (optarg : OptArg) (off : Nat) (addr : BitVec 64) :
    ¬ (optarg.ptr = .textLine off ∨ addr < 0) := by
  rintro (same | less)
  · cases optarg <;> cases same
  · exact BitVec.not_lt_zero less

theorem takeToken_op (optarg : OptArg) (memOpInfo : MemOpInfo) (pToken : Token) :
    takeToken optarg 1 pToken memOpInfo =
      .ok (2, { memOpInfo with memOpType := pToken.text.headD NUL }) := rfl

theorem takeToken_addr (optarg : OptArg) (memOpInfo : MemOpInfo) (pToken : Token) :
    takeToken optarg 2 pToken memOpInfo =
      .ok (3, { memOpInfo with addr := (strtoul 16 pToken.text).1 }) := by
  simp only [takeToken, if_neg (not_invalid optarg _ _)]
  rfl

theorem takeToken_size (optarg : OptArg) (memOpInfo : MemOpInfo) (pToken : Token) :
    takeToken optarg 3 pToken memOpInfo =
      .ok (0, { memOpInfo with size := (strtoul 16 pToken.text).1.setWidth 8 }) := by
  simp only [takeToken, if_neg (not_invalid optarg _ _)]
  rfl

/-- Tokens after the third change nothing. -/
theorem tokenLoop_ignored (optarg : OptArg) (memOpInfo : MemOpInfo) {rounds : Nat} (off : Nat)
    {s : List Char} (enough : (tokens delims s).length ≤ rounds) :
    tokenLoop optarg rounds (strtok delims off s) 0 memOpInfo = some (.ok memOpInfo) := by
  induction rounds generalizing off s with
  | zero =>
      rcases strtok_cases delims off s with ⟨cut, -⟩ | ⟨t, -, all⟩
      · rw [cut]
        rfl
      · rw [all] at enough
        cases enough
  | succ rounds ih =>
      rcases strtok_cases delims off s with ⟨cut, -⟩ | ⟨t, cut, all⟩
      · rw [cut]
        rfl
      · rw [all, List.length_cons] at enough
        rw [cut]
        exact ih t.next (Nat.le_of_succ_le_succ enough)

/-- **What a buffer leaves in `memOpInfo`**: what it names, and the rest as it was. -/
theorem parseLine_named (optarg : OptArg) (textLine : List Char) (memOpInfo : MemOpInfo) :
    ∃ memOpInfo', parseLine optarg textLine memOpInfo = some (.ok memOpInfo') ∧
      memOpInfo'.named = memOpInfo.named.next textLine := by
  have count := length_tokens_le delims textLine
  unfold parseLine Named.next MemOpInfo.named opOf addrOf
  generalize textLine.length + 1 = rounds at count
  rcases strtok_cases delims 0 textLine with ⟨cut₁, all⟩ | ⟨t₁, cut₁, all⟩
  · rw [cut₁, all]
    exact ⟨memOpInfo, by cases rounds <;> rfl, rfl⟩
  rw [all, List.length_cons] at count
  obtain ⟨rounds, rfl⟩ : ∃ n, rounds = n + 1 := ⟨rounds - 1, by omega⟩
  rw [cut₁, all]
  simp only [tokenLoop, takeToken_op]
  rcases strtok_cases delims t₁.next t₁.rest with ⟨cut₂, all₂⟩ | ⟨t₂, cut₂, all₂⟩
  · rw [cut₂, all₂]
    exact ⟨_, by cases rounds <;> rfl, rfl⟩
  rw [all₂, List.length_cons] at count
  obtain ⟨rounds, rfl⟩ : ∃ n, rounds = n + 1 := ⟨rounds - 1, by omega⟩
  rw [cut₂, all₂]
  simp only [tokenLoop, takeToken_addr]
  rcases strtok_cases delims t₂.next t₂.rest with ⟨cut₃, all₃⟩ | ⟨t₃, cut₃, all₃⟩
  · rw [cut₃]
    exact ⟨_, by cases rounds <;> rfl, rfl⟩
  rw [all₃, List.length_cons] at count
  obtain ⟨rounds, rfl⟩ : ∃ n, rounds = n + 1 := ⟨rounds - 1, by omega⟩
  rw [cut₃]
  simp only [tokenLoop, takeToken_size]
  exact ⟨_, tokenLoop_ignored optarg _ t₃.next (by omega), rfl⟩

end CsappLab.Csim
