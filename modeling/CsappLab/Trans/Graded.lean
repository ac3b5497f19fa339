/-
# Trans.Graded — the misses of `transpose_submit`

The cache that counts has 32 sets of one line of 32 bytes. Where the matrices begin with a
line, and `A` and `B` with the same set, an element's line is `lineOf` counted from the
beginning of its matrix, whatever the two addresses are; so the misses of a whole run are
`submitMisses M N` for every placement (`transposeSubmit_misses`), at most that many from a
cache in any state and exactly that many from the empty one. The three sizes that are graded
score in full (`submitMisses_graded`).
-/
import CsappLab.Cache.Cold
import CsappLab.Trans.Oblivious

namespace CsappLab.Trans

set_option autoImplicit false

open CsappLab.Lib CsappLab.Cache

/-- The place of an element in its matrix, in row-major order. -/
def indexIn (M N : Nat) : Access → Nat
  | ⟨.A, row, col⟩ => row * M + col
  | ⟨.B, row, col⟩ => row * N + col

/-- The set of an element's line, and a number for the line, counted from the beginning of the
matrices. -/
def lineOf (M N : Nat) (access : Access) : Nat × Nat :=
  let line := indexIn M N access / 8
  (line % 32, 2 * line + if access.matrix = .A then 1 else 2)

/-- The misses of a run of `transpose_submit`, counted on lines. -/
def submitMisses (M N : Nat) : Nat :=
  tally (fun _ => 0) ((submitLog M N).map (lineOf M N))

/-- Where the matrices are: apart from each other, each at the beginning of a line, and both at
the beginning of the same set. -/
structure Aligned (M N baseA baseB : Nat) : Prop where
  line : 32 ∣ baseA
  set : baseB % 1024 = baseA % 1024
  apart : baseA + 4 * (M * N) ≤ baseB ∨ baseB + 4 * (M * N) ≤ baseA
  fitsA : baseA + 4 * (M * N) ≤ 2 ^ 64
  fitsB : baseB + 4 * (M * N) ≤ 2 ^ 64

section

variable {M N baseA baseB : Nat}

theorem indexIn_lt {access : Access} (inside : Inside M N access) :
    indexIn M N access < M * N := by
  have inMatrix : ∀ {row col rows cols : Nat}, row < rows → col < cols →
      row * cols + col < rows * cols := by
    intro row col rows cols row_lt col_lt
    calc row * cols + col < row * cols + cols := Nat.add_lt_add_left col_lt _
      _ = (row + 1) * cols := (Nat.succ_mul row cols).symm
      _ ≤ rows * cols := Nat.mul_le_mul_right cols row_lt
  obtain ⟨matrix, row, col⟩ := access
  cases matrix with
  | A =>
      rw [Nat.mul_comm]
      exact inMatrix inside.1 inside.2
  | B => exact inMatrix inside.2 inside.1

/-- The base of an access's matrix. -/
def baseOf (baseA baseB : Nat) (access : Access) : Nat :=
  if access.matrix = .A then baseA else baseB

theorem Aligned.address (aligned : Aligned M N baseA baseB) {access : Access}
    (inside : Inside M N access) :
    (rowMajor M N baseA baseB access).toNat / 32 =
      baseOf baseA baseB access / 32 + indexIn M N access / 8 := by
  have less := indexIn_lt inside
  obtain ⟨line, set, -, fitsA, fitsB⟩ := aligned
  obtain ⟨matrix, row, col⟩ := access
  cases matrix with
  | A =>
      have value : (rowMajor M N baseA baseB ⟨.A, row, col⟩).toNat =
          baseA + 4 * indexIn M N ⟨.A, row, col⟩ := by
        simp only [rowMajor, BitVec.toNat_ofNat]
        exact Nat.mod_eq_of_lt (by simp only [indexIn] at less ⊢; omega)
      rw [value]
      show _ = baseA / 32 + _
      omega
  | B =>
      have value : (rowMajor M N baseA baseB ⟨.B, row, col⟩).toNat =
          baseB + 4 * indexIn M N ⟨.B, row, col⟩ := by
        simp only [rowMajor, BitVec.toNat_ofNat]
        exact Nat.mod_eq_of_lt (by simp only [indexIn] at less ⊢; omega)
      rw [value]
      show _ = baseB / 32 + _
      omega

/-- Two elements are in one line of memory exactly where they are in one of their matrix. -/
theorem Aligned.sameLine (aligned : Aligned M N baseA baseB) {a b : Access}
    (insideA : Inside M N a) (insideB : Inside M N b) :
    baseOf baseA baseB a / 32 + indexIn M N a / 8 = baseOf baseA baseB b / 32 + indexIn M N b / 8 ↔
      (lineOf M N a).2 = (lineOf M N b).2 := by
  have lessA := indexIn_lt insideA
  have lessB := indexIn_lt insideB
  obtain ⟨line, set, apart, -, -⟩ := aligned
  obtain ⟨matrix, row, col⟩ := a
  obtain ⟨matrix', row', col'⟩ := b
  cases matrix <;> cases matrix' <;>
    simp only [lineOf, baseOf, if_true, reduceCtorEq, if_false] <;> omega

theorem Aligned.baseOf_set (aligned : Aligned M N baseA baseB) (access : Access) :
    baseOf baseA baseB access / 32 % 32 = baseA / 32 % 32 := by
  obtain ⟨line, set, -, -, -⟩ := aligned
  unfold baseOf
  split
  · rfl
  · omega

/-- The lines of the matrices are told apart as those of memory are. -/
theorem Aligned.sameNames (aligned : Aligned M N baseA baseB) {log : List Access}
    (inside : ∀ access ∈ log, Inside M N access) :
    SameNames log (fun access => placeOf (cacheParams 5 1 5) (rowMajor M N baseA baseB access))
      (lineOf M N) := by
  have set : ∀ access ∈ log,
      (placeOf (cacheParams 5 1 5) (rowMajor M N baseA baseB access)).1 =
        (baseOf baseA baseB access / 32 + indexIn M N access / 8) % 32 := by
    intro access member
    rw [placeOf, setIdx_five, aligned.address (inside access member)]
  have tag : ∀ access ∈ log,
      (placeOf (cacheParams 5 1 5) (rowMajor M N baseA baseB access)).2.toNat =
        (baseOf baseA baseB access / 32 + indexIn M N access / 8) / 32 := by
    intro access member
    rw [placeOf, tagOf_five, aligned.address (inside access member)]
  constructor
  · intro a here b there
    have first := aligned.baseOf_set a
    have second := aligned.baseOf_set b
    simp only [set a here, set b there, lineOf]
    omega
  · intro a here b there sets
    simp only [set a here, set b there] at sets
    rw [← BitVec.toNat_inj, tag a here, tag b there,
      ← aligned.sameLine (inside a here) (inside b there)]
    omega

/-- The accesses of a run miss as often as their lines change. -/
theorem Aligned.changes (aligned : Aligned M N baseA baseB) {log : List Access}
    (inside : ∀ access ∈ log, Inside M N access) :
    changes (fun _ => none)
        ((log.map (rowMajor M N baseA baseB)).map (placeOf (cacheParams 5 1 5))) =
      tally (fun _ => 0) (log.map (lineOf M N)) := by
  rw [List.map_map, ← changes_numbers]
  · exact changes_congr (aligned.sameNames inside)
  · intro access member
    obtain ⟨a, -, rfl⟩ := List.mem_map.1 member
    simp only [lineOf]
    split <;> omega

/-- The sizes that are graded, the misses, and the number below which they score in full. -/
def graded : List (Nat × Nat × Nat × Nat) :=
  [(32, 32, 284, 300), (64, 64, 1280, 1300), (61, 67, 1994, 2000)]

theorem submitMisses_graded :
    ∀ size ∈ graded, submitMisses size.1 size.2.1 = size.2.2.1 ∧ size.2.2.1 < size.2.2.2 := by
  decide +kernel

/-- **The misses of `transpose_submit`** on the cache with 32 sets of one line of 32 bytes, for
all matrices of the given sizes, wherever they are placed in alignment: no more than
`submitMisses M N` whatever the cache holds, and just as many when it is empty. The sizes that
are graded score in full. -/
theorem transposeSubmit_misses (cols : M ≤ INT_MAX - 8) (rows : N ≤ INT_MAX - 8)
    (aligned : Aligned M N baseA baseB) {calloc : Lines → Option Nat}
    (allocates : Allocates calloc) {cache : Cache.Mem} {tags : Nat → List (BitVec 64)}
    (holds : Holds 1 cache tags) {α : Type} (m : Mem α) :
    ∃ m' log events cache', transposeSubmit M N m = some m' ∧
      m'.accesses = m.accesses ++ log ∧
      cacheRun (cacheParams 5 1 5) calloc cache (log.map (rowMajor M N baseA baseB)) =
        some (events, cache') ∧
      events.flatten.count .miss ≤ submitMisses M N ∧
      ((∀ set, tags set = []) → events.flatten.count .miss = submitMisses M N) ∧
      ∀ misses full, (M, N, misses, full) ∈ graded →
        submitMisses M N = misses ∧ misses < full := by
  obtain ⟨m', ran, -⟩ := transposeSubmit_ends ⟨cols, rows⟩ m
  have widths : Widths 5 5 := ⟨by decide, by decide, by decide, by decide⟩
  have oneLine : (cacheParams 5 1 5).paramE.toNat = 1 := by decide
  obtain ⟨cache', ranCache, -⟩ := cacheRun_spec allocates (oneLine ▸ Nat.one_pos)
    (setIdx_inArray 1 widths) holds ((submitLog M N).map (rowMajor M N baseA baseB))
  have count := aligned.changes fun access member => mem_submitLog.1 member
  refine ⟨m', submitLog M N, _, cache', ran, transposeSubmit_logs m m' ran, ranCache, ?_, ?_, ?_⟩
  · calc _ ≤ _ := misses_le_cold oneLine _ _
      _ = submitMisses M N := count
  · intro empty
    obtain rfl : tags = fun _ => [] := funext empty
    rw [misses_cold oneLine, count]
    rfl
  · intro misses full member
    exact submitMisses_graded _ member

/-- `A` begins with line 3 and `B` 256 KB behind it. -/
theorem transposeSubmit_misses_ragged :
    ∃ m' log events cache', transposeSubmit 61 67
        (⟨fun i j => 100 * i + j, fun _ _ => 7, fun _ => 7, fun _ => false, []⟩ : Mem Nat) =
        some m' ∧
      m'.accesses = [] ++ log ∧
      cacheRun (cacheParams 5 1 5) callocNext ⟨fun _ => ⟨none, 0⟩, ∅⟩
        (log.map (rowMajor 61 67 96 0x40060)) = some (events, cache') ∧
      events.flatten.count .miss ≤ submitMisses 61 67 ∧
      ((∀ set : Nat, (fun _ => []) set = ([] : List (BitVec 64))) →
        events.flatten.count .miss = submitMisses 61 67) ∧
      ∀ misses full, (61, 67, misses, full) ∈ graded →
        submitMisses 61 67 = misses ∧ misses < full :=
  transposeSubmit_misses (by decide) (by decide)
    ⟨by decide, by decide, by decide, by decide, by decide⟩ allocates_callocNext (holds_empty 1) _

end

end CsappLab.Trans
