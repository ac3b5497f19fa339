/-
# Trans.Misses — the cache misses of a block of `my_trans64x64`

A block makes 160 accesses, the same ones whatever the matrices hold
(`trans64Block_makes`). They are to sixteen row segments, eight of each matrix. Where
segments `r` and `r + 4` share a set and no others do, the accesses to a set are first to
the one and then to the other segment: an evicted segment is not touched again. So each
segment misses at most once, wherever the matrices are and whatever the cache held.
-/
import CsappLab.Cache.Direct
import CsappLab.Cache.History
import CsappLab.Trans.Parked

namespace CsappLab.Trans

set_option autoImplicit false

open CsappLab.Lib CsappLab.Cache

/-- An access in a block: the matrix, the row segment, and the element in it. -/
abbrev Place : Type := Matrix × Nat × Nat

/-- The element at a place of the block. -/
def inBlock (baseRowIdx baseColIdx : Nat) : Place → Access
  | (.A, r, k) => ⟨.A, baseRowIdx + r, baseColIdx + k⟩
  | (.B, r, k) => ⟨.B, baseColIdx + r, baseRowIdx + k⟩

section Accesses

variable {α : Type} {M N : Nat} (baseRowIdx baseColIdx : Nat)

/-- Where `c` ends, it has made the accesses at these places. -/
def Makes (c : Mem α → Option (Mem α)) (places : List Place) : Prop :=
  ∀ m m', c m = some m' →
    m'.accesses = m.accesses ++ places.map (inBlock baseRowIdx baseColIdx)

variable {baseRowIdx baseColIdx}

theorem Makes.bind {c d : Mem α → Option (Mem α)} {first second : List Place}
    (makes : Makes baseRowIdx baseColIdx c first) (makes' : Makes baseRowIdx baseColIdx d second) :
    Makes baseRowIdx baseColIdx (fun m => (c m).bind d) (first ++ second) := by
  intro m m'' ran
  obtain ⟨m', ran₁, ran₂⟩ := Option.bind_eq_some_iff.1 ran
  rw [makes' m' m'' ran₂, makes m m' ran₁, List.append_assoc, List.map_append]

theorem Makes.pass {c : Mem α → Option (Mem α)} {places : List Place}
    (makes : Makes baseRowIdx baseColIdx c places) :
    Makes baseRowIdx baseColIdx (fun m => c m.beginPass) places :=
  fun m => makes m.beginPass

theorem makes_foldlM {body : Nat → Mem α → Option (Mem α)} {places : Nat → List Place}
    (counts : List Nat) (each : ∀ i ∈ counts, Makes baseRowIdx baseColIdx (body i) (places i)) :
    Makes baseRowIdx baseColIdx (fun m => counts.foldlM (fun m i => body i m) m)
      (counts.flatMap places) := by
  induction counts with
  | nil =>
      intro m m' ran
      cases ran
      simp
  | cons i counts ih =>
      simp only [List.foldlM_cons, List.flatMap_cons]
      apply Makes.bind (each i List.mem_cons_self)
      exact ih fun j member => each j (List.mem_cons_of_mem _ member)

/-- A loop makes the accesses of its iterations. -/
theorem makes_loop {lo hi : Nat} {body : Nat → Mem α → Option (Mem α)} {places : Nat → List Place}
    (le : lo ≤ hi) (fits : hi ≤ INT_MAX)
    (each : ∀ i, lo ≤ i → i < hi → Makes baseRowIdx baseColIdx (body i) (places i)) :
    Makes baseRowIdx baseColIdx (forInt lo hi 1 (always body))
      ((List.range' lo (hi - lo)).flatMap places) := by
  intro m m' ran
  have counts : ∀ i, lo ≤ i → i < hi → addInt i 1 = some (i + 1) := by
    intro i _ less
    exact addInt_eq (by omega)
  have ran' := (forLoop_always le m counts).symm.trans ran
  apply makes_foldlM (List.range' lo (hi - lo)) _ m m' ran'
  intro i member
  rw [List.mem_range'_1] at member
  exact each i member.1 (by omega)

/-! ## The statements -/

theorem addInt_eq_some {a b c : Nat} (sum : addInt a b = some c) : c = a + b := by
  unfold addInt at sum
  split_ifs at sum
  exact (Option.some.inj sum).symm

theorem subInt_eq_some {a b c : Nat} (difference : subInt a b = some c) : c = a - b := by
  unfold subInt at difference
  split_ifs at difference
  exact (Option.some.inj difference).symm

theorem readA_accesses {m m' : Mem α} {row col : Nat} {x : α}
    (read : m.readA M N row col = some (x, m')) :
    m'.accesses = m.accesses ++ [⟨.A, row, col⟩] := by
  unfold Mem.readA at read
  split_ifs at read
  cases read
  rfl

theorem readB_accesses {m m' : Mem α} {row col : Nat} {x : α}
    (read : m.readB M N row col = some (x, m')) :
    m'.accesses = m.accesses ++ [⟨.B, row, col⟩] := by
  unfold Mem.readB at read
  split_ifs at read
  cases read
  rfl

theorem writeB_accesses {m m' : Mem α} {row col : Nat} {x : α}
    (wrote : m.writeB M N row col x = some m') :
    m'.accesses = m.accesses ++ [⟨.B, row, col⟩] := by
  unfold Mem.writeB at wrote
  split_ifs at wrote
  cases wrote
  rfl

theorem writeTmp_accesses {m m' : Mem α} {k : Nat} {x : α} (wrote : m.writeTmp k x = some m') :
    m'.accesses = m.accesses := by
  unfold Mem.writeTmp at wrote
  split_ifs at wrote
  cases wrote
  rfl

theorem loadA_makes (i j k : Nat) :
    Makes (α := α) baseRowIdx baseColIdx (loadA M N baseRowIdx baseColIdx i j k) [(.A, i, j)] := by
  intro m m'' ran
  simp only [loadA, Option.bind_eq_bind, Option.bind_eq_some_iff] at ran
  obtain ⟨row, rowEq, col, colEq, ⟨x, m'⟩, read, wrote⟩ := ran
  rw [writeTmp_accesses wrote, readA_accesses read, addInt_eq_some rowEq, addInt_eq_some colEq]
  rfl

theorem storeB_makes (i j k : Nat) :
    Makes (α := α) baseRowIdx baseColIdx (storeB M N baseRowIdx baseColIdx i j k) [(.B, j, i)] := by
  intro m m' ran
  simp only [storeB, Option.bind_eq_bind, Option.bind_eq_some_iff] at ran
  obtain ⟨row, rowEq, col, colEq, x, -, wrote⟩ := ran
  rw [writeB_accesses wrote, addInt_eq_some rowEq, addInt_eq_some colEq]
  rfl

theorem park_makes (i : Nat) {j : Nat} (low : 4 ≤ j) :
    Makes (α := α) baseRowIdx baseColIdx (park M N baseRowIdx baseColIdx i j)
      [(.B, j - 4, i + 4)] := by
  intro m m' ran
  simp only [park, Option.bind_eq_bind, Option.bind_eq_some_iff] at ran
  obtain ⟨row, rowEq, row', rowEq', col, colEq, col', colEq', x, -, wrote⟩ := ran
  rw [writeB_accesses wrote, subInt_eq_some rowEq', addInt_eq_some rowEq, addInt_eq_some colEq',
    addInt_eq_some colEq, Nat.add_sub_assoc low, Nat.add_assoc]
  rfl

theorem exchange_makes (j i : Nat) :
    Makes (α := α) baseRowIdx baseColIdx (exchange M N baseRowIdx baseColIdx j i)
      [(.B, j, i), (.A, i, j), (.B, j, i)] := by
  intro m m'' ran
  simp only [exchange, Option.bind_eq_bind, Option.bind_eq_some_iff] at ran
  obtain ⟨row, rowEq, col, colEq, ⟨x, m₁⟩, read₁, m₂, wrote₂, ⟨y, m₃⟩, read₃, wrote₄⟩ := ran
  rw [writeB_accesses wrote₄, readA_accesses read₃, writeTmp_accesses wrote₂, readB_accesses read₁,
    addInt_eq_some rowEq, addInt_eq_some colEq]
  simp [inBlock]

theorem unpark_makes (j : Nat) {i : Nat} (low : 4 ≤ i) :
    Makes (α := α) baseRowIdx baseColIdx (unpark M N baseRowIdx baseColIdx j i)
      [(.B, j + 4, i - 4)] := by
  intro m m' ran
  simp only [unpark, Option.bind_eq_bind, Option.bind_eq_some_iff] at ran
  obtain ⟨row, rowEq, row', rowEq', col, colEq, col', colEq', x, -, wrote⟩ := ran
  rw [writeB_accesses wrote, addInt_eq_some rowEq', addInt_eq_some rowEq, subInt_eq_some colEq',
    addInt_eq_some colEq, Nat.add_sub_assoc low, Nat.add_assoc]
  rfl

/-! ## The passes -/

def upperPlaces (i : Nat) : List Place :=
  (List.range' 0 4).flatMap (fun j => [(.A, i, j)]) ++
    ((List.range' 0 4).flatMap (fun j => [(.B, j, i)]) ++
      ((List.range' 4 4).flatMap (fun j => [(.A, i, j)]) ++
        (List.range' 4 4).flatMap fun j => [(.B, j - 4, i + 4)]))

def lowerLeftPlaces (j : Nat) : List Place :=
  (List.range' 4 4).flatMap (fun i => [(.B, j, i), (.A, i, j), (.B, j, i)]) ++
    (List.range' 4 4).flatMap fun i => [(.B, j + 4, i - 4)]

def lowerRightPlaces (j : Nat) : List Place :=
  (List.range' 4 4).flatMap (fun i => [(.A, i, j)]) ++
    (List.range' 4 4).flatMap fun i => [(.B, j, i)]

/-- The accesses of a block, in program order. -/
def blockPlaces : List Place :=
  (List.range' 0 4).flatMap upperPlaces ++
    ((List.range' 0 4).flatMap lowerLeftPlaces ++ (List.range' 4 4).flatMap lowerRightPlaces)

theorem upperPass_makes (i : Nat) :
    Makes (α := α) baseRowIdx baseColIdx (upperPass M N baseRowIdx baseColIdx i)
      (upperPlaces i) := by
  apply Makes.bind (Makes.pass _) (Makes.bind _ (Makes.bind _ _))
  · exact makes_loop (by decide) (by decide) fun j _ _ => loadA_makes i j j
  · exact makes_loop (by decide) (by decide) fun j _ _ => storeB_makes i j j
  · exact makes_loop (by decide) (by decide) fun j _ _ => loadA_makes i j j
  · exact makes_loop (by decide) (by decide) fun j low _ => park_makes i low

theorem lowerLeftPass_makes (j : Nat) :
    Makes (α := α) baseRowIdx baseColIdx (lowerLeftPass M N baseRowIdx baseColIdx j)
      (lowerLeftPlaces j) := by
  apply Makes.bind (Makes.pass _)
  · exact makes_loop (by decide) (by decide) fun i low _ => unpark_makes j low
  · exact makes_loop (by decide) (by decide) fun i _ _ => exchange_makes j i

theorem lowerRightPass_makes (j : Nat) :
    Makes (α := α) baseRowIdx baseColIdx (lowerRightPass M N baseRowIdx baseColIdx j)
      (lowerRightPlaces j) := by
  apply Makes.bind (Makes.pass _)
  · exact makes_loop (by decide) (by decide) fun i _ _ => storeB_makes i j i
  · exact makes_loop (by decide) (by decide) fun i _ _ => loadA_makes i j i

/-- A block makes the accesses of `blockPlaces`. -/
theorem trans64Block_makes :
    Makes (α := α) baseRowIdx baseColIdx (trans64Block M N baseRowIdx baseColIdx) blockPlaces := by
  apply Makes.bind _ (Makes.bind _ _)
  · exact makes_loop (by decide) (by decide) fun i _ _ => upperPass_makes i
  · exact makes_loop (by decide) (by decide) fun j _ _ => lowerLeftPass_makes j
  · exact makes_loop (by decide) (by decide) fun j _ _ => lowerRightPass_makes j

end Accesses

/-! ## The cache -/

/-- Where the segments of a block are: the elements of a segment fill one block of 32 bytes,
no two segments the same one, and segments `r` and `r + 4` of a matrix share a set of
their own. -/
structure Placed (pCache : CacheParams) (address : Access → BitVec 64)
    (baseRowIdx baseColIdx : Nat) : Prop where
  fills : ∀ matrix, ∀ r < 8, ∃ block : Nat, ∀ k < 8,
    (address (inBlock baseRowIdx baseColIdx (matrix, r, k))).toNat = 32 * block + 4 * k
  distinct : ∀ matrix matrix', ∀ r < 8, ∀ r' < 8,
    (address (inBlock baseRowIdx baseColIdx (matrix, r, 0))).toNat / 32 =
      (address (inBlock baseRowIdx baseColIdx (matrix', r', 0))).toNat / 32 →
    matrix = matrix' ∧ r = r'
  sameSet : ∀ matrix, ∀ r < 4,
    setIdx pCache (address (inBlock baseRowIdx baseColIdx (matrix, r, 0))) =
      setIdx pCache (address (inBlock baseRowIdx baseColIdx (matrix, r + 4, 0)))
  ownSet : ∀ matrix matrix', ∀ r < 4, ∀ r' < 4,
    setIdx pCache (address (inBlock baseRowIdx baseColIdx (matrix, r, 0))) =
      setIdx pCache (address (inBlock baseRowIdx baseColIdx (matrix', r', 0))) →
    matrix = matrix' ∧ r = r'

/-- The set a place's segment is in, and which of the set's two segments it is. -/
def segment : Place → (Matrix × Fin 4) × Bool
  | (matrix, r, _) => ((matrix, Fin.ofNat 4 r), decide (4 ≤ r))

theorem blockPlaces_inside : ∀ place ∈ blockPlaces, place.2.1 < 8 ∧ place.2.2 < 8 := by
  decide +kernel

theorem length_blockPlaces : blockPlaces.length = 160 := by
  decide +kernel

/-- Each of the sixteen segments is come to once. -/
theorem changes_blockPlaces : changes (fun _ => none) (blockPlaces.map segment) = 16 := by
  decide +kernel

section Misses

variable {address : Access → BitVec 64} {baseRowIdx baseColIdx : Nat}

/-- The set and the tag of an address, with 32 sets of one block of 32 bytes. -/
theorem setIdx_five (addr : BitVec 64) :
    (setIdx (cacheParams 5 1 5) addr).toNat = addr.toNat / 32 % 32 :=
  setIdx_toNat 1 ⟨by decide, by decide, by decide, by decide⟩ addr

theorem tagOf_five (addr : BitVec 64) :
    (tagOf (cacheParams 5 1 5) addr).toNat = addr.toNat / 32 / 32 := by
  rw [tagOf_toNat 1 ⟨by decide, by decide, by decide, by decide⟩ addr, Nat.div_div_eq_div_mul]
  rfl

/-- Elements of one segment are in the same place of the cache. -/
theorem Placed.samePlace (placed : Placed (cacheParams 5 1 5) address baseRowIdx baseColIdx)
    (matrix : Matrix) {r k : Nat} (r8 : r < 8) (k8 : k < 8) :
    SamePlace (cacheParams 5 1 5) (address (inBlock baseRowIdx baseColIdx (matrix, r, k)))
      (address (inBlock baseRowIdx baseColIdx (matrix, r, 0))) := by
  obtain ⟨block, fills⟩ := placed.fills matrix r r8
  have at_ := fills k k8
  have first := fills 0 (by decide)
  have same : (address (inBlock baseRowIdx baseColIdx (matrix, r, k))).toNat / 32 =
      (address (inBlock baseRowIdx baseColIdx (matrix, r, 0))).toNat / 32 := by
    omega
  constructor <;> apply BitVec.eq_of_toNat_eq
  · rw [setIdx_five, setIdx_five, same]
  · rw [tagOf_five, tagOf_five, same]

/-- The set of segments `q` and `q + 4`. -/
def segmentSet (address : Access → BitVec 64) (baseRowIdx baseColIdx : Nat) :
    Matrix × Fin 4 → Nat
  | (matrix, q) =>
      (setIdx (cacheParams 5 1 5)
        (address (inBlock baseRowIdx baseColIdx (matrix, q.val, 0)))).toNat

/-- The tag of segment `q`, or of `q + 4`. -/
def segmentTag (address : Access → BitVec 64) (baseRowIdx baseColIdx : Nat) :
    Matrix × Fin 4 → Bool → BitVec 64
  | (matrix, q), second =>
      tagOf (cacheParams 5 1 5) (address (inBlock baseRowIdx baseColIdx
        (matrix, if second then q.val + 4 else q.val, 0)))

theorem Placed.segmentSet_injective
    (placed : Placed (cacheParams 5 1 5) address baseRowIdx baseColIdx) :
    Function.Injective (segmentSet address baseRowIdx baseColIdx) := by
  rintro ⟨matrix, q⟩ ⟨matrix', q'⟩ same
  obtain ⟨rfl, eq⟩ := placed.ownSet matrix matrix' q.val q.isLt q'.val q'.isLt
    (BitVec.eq_of_toNat_eq same)
  rw [Fin.eq_of_val_eq eq]

theorem Placed.asks (placed : Placed (cacheParams 5 1 5) address baseRowIdx baseColIdx)
    (matrix : Matrix) {r k : Nat} (r8 : r < 8) (k8 : k < 8) :
    Asks (cacheParams 5 1 5) (segmentSet address baseRowIdx baseColIdx)
      (segmentTag address baseRowIdx baseColIdx)
      (address (inBlock baseRowIdx baseColIdx (matrix, r, k))) (segment (matrix, r, k)) := by
  obtain ⟨sets, tags⟩ := placed.samePlace matrix r8 k8
  have shared : setIdx (cacheParams 5 1 5)
      (address (inBlock baseRowIdx baseColIdx (matrix, r % 4, 0))) =
      setIdx (cacheParams 5 1 5) (address (inBlock baseRowIdx baseColIdx (matrix, r, 0))) := by
    have same := placed.sameSet matrix (r % 4) (Nat.mod_lt r (by decide))
    rcases show r % 4 = r ∨ r % 4 + 4 = r by omega with first | second
    · rw [first]
    · rw [second] at same
      exact same
  have row : (if decide (4 ≤ r) = true then r % 4 + 4 else r % 4) = r := by
    by_cases second : 4 ≤ r
    · rw [if_pos (decide_eq_true second)]
      omega
    · rw [if_neg (by simpa using second)]
      omega
  constructor
  · show _ = (setIdx (cacheParams 5 1 5)
      (address (inBlock baseRowIdx baseColIdx (matrix, r % 4, 0)))).toNat
    rw [sets, shared]
  · show _ = tagOf (cacheParams 5 1 5) (address (inBlock baseRowIdx baseColIdx
      (matrix, if decide (4 ≤ r) = true then r % 4 + 4 else r % 4, 0)))
    rw [tags, row]

/-- **At most sixteen misses.** A block of `my_trans64x64` that lies within the matrices,
wherever its segments are placed and whatever the cache holds when it begins. -/
theorem trans64Block_misses {α : Type} {M N : Nat} (rows : baseRowIdx + 8 ≤ N)
    (cols : baseColIdx + 8 ≤ M) (rowsFit : N ≤ INT_MAX) (colsFit : M ≤ INT_MAX) (m : Mem α)
    (placed : Placed (cacheParams 5 1 5) address baseRowIdx baseColIdx)
    {calloc : Lines → Option Nat} (allocates : Allocates calloc) {cache : Cache.Mem}
    {tags : Nat → List (BitVec 64)} (holds : Holds 1 cache tags) :
    ∃ m' log events cache', trans64Block M N baseRowIdx baseColIdx m = some m' ∧
      m'.accesses = m.accesses ++ log ∧ log.length = 160 ∧
      cacheRun (cacheParams 5 1 5) calloc cache (log.map address) = some (events, cache') ∧
      events.flatten.count .miss ≤ 16 := by
  have within : Within M N baseRowIdx baseColIdx := ⟨rows, cols, colsFit, rowsFit⟩
  obtain ⟨m', ran, -⟩ := trans64Block_ends (m := m) within
  have widths : Widths 5 5 := ⟨by decide, by decide, by decide, by decide⟩
  let log := blockPlaces.map (inBlock baseRowIdx baseColIdx)
  have oneLine : 0 < (cacheParams 5 1 5).paramE.toNat := by decide
  obtain ⟨cache', ranCache, -⟩ :=
    cacheRun_spec allocates oneLine (setIdx_inArray 1 widths) holds (log.map address)
  refine ⟨m', log, _, cache', ran, trans64Block_makes m m' ran, ?_, ranCache, ?_⟩
  · rw [List.length_map, length_blockPlaces]
  · have asks : List.Forall₂ (Asks (cacheParams 5 1 5) (segmentSet address baseRowIdx baseColIdx)
        (segmentTag address baseRowIdx baseColIdx)) (log.map address)
        (blockPlaces.map segment) := by
      rw [List.map_map, List.forall₂_map_left_iff, List.forall₂_map_right_iff, List.forall₂_same]
      rintro ⟨matrix, r, k⟩ member
      have inside := blockPlaces_inside _ member
      exact placed.asks matrix inside.1 inside.2
    have nothing : Knows (segmentSet address baseRowIdx baseColIdx)
        (segmentTag address baseRowIdx baseColIdx) (fun _ => none) tags := by
      rintro set tag ⟨⟩
    rw [← changes_blockPlaces]
    exact misses_le_changes rfl placed.segmentSet_injective asks nothing

/-- Where the elements of `int A[N][M]` and `int B[M][N]` are. -/
def rowMajor (M N baseA baseB : Nat) : Access → BitVec 64
  | ⟨.A, row, col⟩ => BitVec.ofNat 64 (baseA + 4 * (row * M + col))
  | ⟨.B, row, col⟩ => BitVec.ofNat 64 (baseB + 4 * (row * N + col))

/-- The block of the 64 x 64 case to the right of the first one, with `B` 256 KB behind `A`. -/
theorem placed_second_block : Placed (cacheParams 5 1 5) (rowMajor 64 64 0 0x40000) 0 8 := by
  constructor
  · intro matrix r r8
    cases matrix with
    | A =>
        have fills : ∀ r < 8, ∀ k < 8,
            (rowMajor 64 64 0 0x40000 (inBlock 0 8 (.A, r, k))).toNat =
              32 * (8 * r + 1) + 4 * k := by decide +kernel
        exact ⟨_, fills r r8⟩
    | B =>
        have fills : ∀ r < 8, ∀ k < 8,
            (rowMajor 64 64 0 0x40000 (inBlock 0 8 (.B, r, k))).toNat =
              32 * (8 * r + 8256) + 4 * k := by decide +kernel
        exact ⟨_, fills r r8⟩
  · rintro (_ | _) (_ | _) <;> decide +kernel
  · rintro (_ | _) <;> decide +kernel
  · rintro (_ | _) (_ | _) <;> decide +kernel

theorem trans64Block_misses_second_block :
    ∃ m' log events cache', trans64Block 64 64 0 8
        (⟨fun i j => 100 * i + j, fun _ _ => 7, fun _ => 7, fun _ => false, []⟩ : Mem Nat) =
        some m' ∧
      m'.accesses = [] ++ log ∧ log.length = 160 ∧
      cacheRun (cacheParams 5 1 5) callocNext ⟨fun _ => ⟨none, 0⟩, ∅⟩
        (log.map (rowMajor 64 64 0 0x40000)) = some (events, cache') ∧
      events.flatten.count .miss ≤ 16 :=
  trans64Block_misses (by decide) (by decide) (by decide) (by decide) _ placed_second_block
    allocates_callocNext (holds_empty 1)

end Misses

end CsappLab.Trans
