/-
# Cache.Lru — every set is a least-recently-used store

`Holds E m tags` is the invariant: for every set its list, `lineCnt` and the tags
in its lines, from the head to the tail. An access keeps it and does to the tags of
its set what `touch` does (`cacheProcess_spec`), on each of the three paths: the
line with the tag is moved to the front, a new line is put in front, or the tail
is given the tag and moved to the front.

Over a run the tags of a set are the first `E` of `recency` of the accesses that
mapped to it, and what the accesses call can be read off the history.
-/
import CsappLab.Cache.Lists
import CsappLab.Lib.Recency

namespace CsappLab.Cache

set_option autoImplicit false

open CsappLab.Lib

/-- The list of set `idx` is `ns`, and holds `tags`. -/
structure SetHolds (E : Nat) (m : Mem) (idx : Nat) (ns : List Nat) (tags : List (BitVec 64)) :
    Prop where
  ok : SetOk m idx ns
  tagged : Tagged m.lines ns tags
  nodup : tags.Nodup
  count : (m.cacheSetArr idx).lineCnt.toNat = tags.length
  fits : tags.length ≤ E

def Holds (E : Nat) (m : Mem) (tags : Nat → List (BitVec 64)) : Prop :=
  ∀ idx, ∃ ns, SetHolds E m idx ns (tags idx)

/-- `Holds`, with the nodes named. -/
def HoldsAt (E : Nat) (m : Mem) (nodes : Nat → List Nat) (tags : Nat → List (BitVec 64)) : Prop :=
  ∀ idx, SetHolds E m idx (nodes idx) (tags idx)

theorem HoldsAt.holds {E : Nat} {m : Mem} {nodes : Nat → List Nat}
    {tags : Nat → List (BitVec 64)} (holds : HoldsAt E m nodes tags) : Holds E m tags :=
  fun idx => ⟨nodes idx, holds idx⟩

theorem Holds.nodes {E : Nat} {m : Mem} {tags : Nat → List (BitVec 64)} (holds : Holds E m tags) :
    ∃ nodes, HoldsAt E m nodes tags :=
  Classical.skolem.1 holds

variable {E idx : Nat} {m m' : Mem} {ns ms l r : List Nat} {tags tags' tl tr : List (BitVec 64)}
  {tag : BitVec 64}

theorem tagged_append {lines : Lines} (len : l.length = tl.length) :
    Tagged lines (l ++ r) (tl ++ tr) ↔ Tagged lines l tl ∧ Tagged lines r tr := by
  constructor
  · intro tagged
    have left := List.forall₂_take_append _ _ _ tagged
    have right := List.forall₂_drop_append _ _ _ tagged
    rw [← len, List.take_left] at left
    rw [← len, List.drop_left] at right
    exact ⟨left, right⟩
  · rintro ⟨left, right⟩
    exact List.rel_append left right

/-- The nodes of a set are its own. -/
theorem SetHolds.owner (holds : SetHolds E m idx ns tags) {n : Nat} (member : n ∈ ns) :
    ∃ node, m.lines.lookup n = some node ∧ node.owner = some idx := by
  obtain ⟨-, last, seg⟩ := holds.ok
  exact seg.mem_lookup member

/-- A change to one set, made to nodes that no other set owns. -/
theorem HoldsAt.update {nodes : Nat → List Nat} {all : Nat → List (BitVec 64)}
    (holds : HoldsAt E m nodes all)
    (sets : ∀ j, j ≠ idx → m'.cacheSetArr j = m.cacheSetArr j)
    (outside : ∀ n, n ∉ ms → m'.lines.lookup n = m.lines.lookup n)
    (own : ∀ n ∈ ms, ∀ node, m.lines.lookup n = some node → node.owner = some idx)
    (changed : SetHolds E m' idx ns tags) :
    HoldsAt E m' (Function.update nodes idx ns) (Function.update all idx tags) := by
  intro j
  by_cases same : j = idx
  · subst same
    rw [Function.update_self, Function.update_self]
    exact changed
  · rw [Function.update_of_ne same, Function.update_of_ne same]
    have old := holds j
    have apart : ∀ n ∈ nodes j, n ∉ ms := by
      intro n inList inChange
      obtain ⟨node, found, owner⟩ := old.owner inList
      have owner' := own n inChange node found
      rw [owner] at owner'
      exact same (Option.some.inj owner')
    have sameSet := sets j same
    refine ⟨old.ok.other (by rw [sameSet]) outside apart, ?_, old.nodup, ?_, old.fits⟩
    · exact old.tagged.congr fun n member => outside n (apart n member)
    · rw [sameSet]
      exact old.count

@[simp] theorem Mem.setHead_lineCnt (m : Mem) (i j : Nat) (p : Option Nat) :
    ((m.setHead i p).cacheSetArr j).lineCnt = (m.cacheSetArr j).lineCnt := by
  by_cases same : j = i
  · subst same
    simp [Mem.setHead]
  · simp [Mem.setHead, same]

theorem Mem.setHead_other (m : Mem) {i j : Nat} (p : Option Nat) (ne : j ≠ i) :
    (m.setHead i p).cacheSetArr j = m.cacheSetArr j := by
  simp [Mem.setHead, ne]

/-! ## The three paths -/

/-- The line with the tag is moved to the front. -/
theorem hit_spec (holds : SetHolds E m idx ns tags) (member : tag ∈ tags) :
    ∃ n m', findLine m.lines tag (m.lines.entries.length + 1) (m.cacheSetArr idx).pHeadNode =
        some (some n) ∧
      listMoveNodeToHead m n = some m' ∧
      (∃ ns', ns'.Perm ns ∧ SetHolds E m' idx ns' (touch E tags tag)) ∧
      (∀ j, j ≠ idx → m'.cacheSetArr j = m.cacheSetArr j) ∧
      (∀ k, k ∉ ns → m'.lines.lookup k = m.lines.lookup k) := by
  obtain ⟨nodup, last, seg⟩ := id holds.ok
  have enough := Nat.lt_succ_of_le (seg.length_le nodup)
  obtain ⟨l, n, r, tl, tr, rfl, rfl, len, fresh, found⟩ :=
    (findLine_spec tag seg holds.tagged enough).2 member
  obtain ⟨lines, moved, ok, relinked⟩ := listMoveNodeToHead_spec holds.ok
  have touched : touch E (tl ++ tag :: tr) tag = tag :: (tl ++ tr) := by
    unfold touch
    rw [List.erase_append_right _ fresh, List.erase_cons_head, List.take_of_length_le]
    have fits := holds.fits
    simp only [List.length_append, List.length_cons] at fits ⊢
    omega
  refine ⟨n, _, found, moved,
    ⟨n :: (l ++ r), List.perm_middle.symm, ok, ?_, ?_, ?_, length_touch_le E _ tag⟩, ?_,
    relinked.outside⟩
  · obtain ⟨left, right⟩ := (tagged_append len).1 (holds.tagged.relinked relinked)
    rw [touched]
    cases right with
    | cons head right => exact .cons head ((tagged_append len).2 ⟨left, right⟩)
  · exact nodup_touch holds.nodup tag
  · rw [touched, Mem.setHead_lineCnt]
    have count := holds.count
    simp only [List.length_append, List.length_cons] at count ⊢
    omega
  · intro j ne
    exact Mem.setHead_other _ _ ne

/-- A new line is put in front. -/
theorem addLine_spec {calloc : Lines → Option Nat} {paramE : BitVec 32} {p : Nat}
    (holds : SetHolds paramE.toNat m idx ns tags) (absent : tag ∉ tags)
    (space : (m.cacheSetArr idx).lineCnt < paramE) (allocates : calloc m.lines = some p)
    (fresh : m.lines.lookup p = none) :
    ∃ m', addLine calloc m idx tag = some (.returned [.miss] m') ∧
      SetHolds paramE.toNat m' idx (p :: ns) (touch paramE.toNat tags tag) ∧
      (∀ j, j ≠ idx → m'.cacheSetArr j = m.cacheSetArr j) ∧
      (∀ k, k ∉ p :: ns → m'.lines.lookup k = m.lines.lookup k) := by
  obtain ⟨nodup, last, seg⟩ := id holds.ok
  have out : p ∉ ns := by
    intro member
    obtain ⟨node, found, -⟩ := holds.owner member
    rw [fresh] at found
    cases found
  have room : tags.length < paramE.toNat := by
    rw [← holds.count]
    exact space
  have touched := touch_room absent room
  let node : DList.Node (Option Nat) CacheLine :=
    { prev := none, next := none, owner := none, val := ⟨true, tag⟩ }
  let m₁ : Mem :=
    { cacheSetArr := Function.update m.cacheSetArr idx
        { m.cacheSetArr idx with lineCnt := (m.cacheSetArr idx).lineCnt + 1 }
      lines := m.lines.insert p node }
  have ok₁ : SetOk m₁ idx ns := by
    refine ⟨nodup, last, ?_⟩
    have head : (m₁.cacheSetArr idx).pHeadNode = (m.cacheSetArr idx).pHeadNode := by
      simp [m₁]
    rw [head]
    exact seg.frame out node
  have found₁ : m₁.lines.lookup p = some node := AList.lookup_insert _
  have tagged₁ : Tagged m₁.lines ns tags := by
    apply holds.tagged.congr
    intro n member
    apply AList.lookup_insert_ne
    rintro rfl
    exact out member
  obtain ⟨lines, inserted, ok, relinked⟩ := listInsertHead_spec ok₁ out found₁
  refine ⟨_, ?_, ⟨ok, ?_, nodup_touch holds.nodup tag, ?_, length_touch_le _ _ _⟩, ?_, ?_⟩
  · unfold addLine
    rw [allocates]
    show (listInsertHead m₁ idx p).bind _ = _
    rw [inserted]
    rfl
  · obtain ⟨node', found', val'⟩ := relinked.kept p node found₁
    rw [touched]
    exact .cons ⟨node', found', val'⟩ (tagged₁.relinked relinked)
  · have counted : (m₁.cacheSetArr idx).lineCnt = (m.cacheSetArr idx).lineCnt + 1 := by
      simp [m₁]
    have count := holds.count
    rw [touched, Mem.setHead_lineCnt]
    show (m₁.cacheSetArr idx).lineCnt.toNat = _
    have bound := paramE.isLt
    have one : (1 : BitVec 32).toNat = 1 := rfl
    rw [counted, BitVec.toNat_add, one, List.length_cons, count]
    omega
  · intro j ne
    rw [Mem.setHead_other _ _ ne]
    simp [m₁, ne]
  · intro k away
    refine (relinked.outside k away).trans (AList.lookup_insert_ne ?_)
    rintro rfl
    exact away List.mem_cons_self

/-- The tail is given the tag and moved to the front. -/
theorem recycleLine_spec (holds : SetHolds E m idx ns tags) (absent : tag ∉ tags)
    (full : tags.length = E) (positive : 0 < E) :
    ∃ m', recycleLine m idx tag = some (.returned [.miss, .eviction] m') ∧
      (∃ ns', ns'.Perm ns ∧ SetHolds E m' idx ns' (touch E tags tag)) ∧
      (∀ j, j ≠ idx → m'.cacheSetArr j = m.cacheSetArr j) ∧
      (∀ k, k ∉ ns → m'.lines.lookup k = m.lines.lookup k) := by
  have sameLength : ns.length = tags.length := holds.tagged.length_eq
  have nonempty : ns ≠ [] := by
    rintro rfl
    rw [← sameLength] at full
    exact absurd full (Nat.ne_of_lt positive)
  obtain ⟨nodup, last, seg⟩ := id holds.ok
  obtain ⟨l, n, rfl, tail⟩ := listFindTailNode_spec holds.ok nonempty
  obtain ⟨tl, old, rfl⟩ : ∃ tl old, tags = tl ++ [old] := by
    rcases List.eq_nil_or_concat tags with rfl | ⟨tl, old, rfl⟩
    · exact absurd full (Nat.ne_of_lt positive)
    · exact ⟨tl, old, List.concat_eq_append⟩
  have len : l.length = tl.length := by simpa using sameLength
  have touched := touch_full absent full
  obtain ⟨left, right⟩ := (tagged_append len).1 holds.tagged
  cases right with
  | cons head _ =>
    obtain ⟨node, found, -⟩ := head
    -- the tag of the tail
    let m₁ : Mem := { m with lines := m.lines.insert n { node with val := ⟨true, tag⟩ } }
    have set₁ := DList.Heap.setVal_eq found (⟨true, tag⟩ : CacheLine)
    have ok₁ : SetOk m₁ idx (l ++ [n]) := ⟨nodup, last, seg.setVal found _⟩
    have freshN : n ∉ l := fun member =>
      (List.nodup_append.1 nodup).2.2 n member n List.mem_cons_self rfl
    have left₁ : Tagged m₁.lines l tl := by
      apply left.congr
      intro k member
      apply AList.lookup_insert_ne
      rintro rfl
      exact freshN member
    obtain ⟨lines, moved, ok, relinked⟩ := listMoveNodeToHead_spec ok₁
    rw [List.append_nil] at ok
    refine ⟨_, ?_, ⟨n :: l, (List.perm_append_singleton n l).symm, ok, ?_,
      nodup_touch holds.nodup tag, ?_, length_touch_le _ _ _⟩, ?_, ?_⟩
    · unfold recycleLine
      simp only [tail, set₁, Option.bind_eq_bind, Option.bind_some]
      show (listMoveNodeToHead m₁ n).bind _ = _
      rw [moved]
      rfl
    · obtain ⟨node', found', val'⟩ := relinked.kept n _ (AList.lookup_insert _)
      rw [touched]
      exact .cons ⟨node', found', val'⟩ (left₁.relinked relinked)
    · rw [touched, Mem.setHead_lineCnt]
      have count := holds.count
      simpa using count
    · intro j ne
      exact Mem.setHead_other _ _ ne
    · intro k away
      refine (relinked.outside k away).trans (AList.lookup_insert_ne ?_)
      rintro rfl
      exact away (by simp)

/-! ## An access -/

/-- What an access calls, from the tags of its set before it. -/
def accessEvents (E : Nat) (tags : List (BitVec 64)) (tag : BitVec 64) : List Event :=
  if tag ∈ tags then [.hit] else if tags.length < E then [.miss] else [.miss, .eviction]

/-- The tags of all sets after an access. -/
def access (pCache : CacheParams) (all : Nat → List (BitVec 64)) (addr : BitVec 64) :
    Nat → List (BitVec 64) :=
  Function.update all (setIdx pCache addr).toNat
    (touch pCache.paramE.toNat (all (setIdx pCache addr).toNat) (tagOf pCache addr))

/-- `calloc` succeeds, with a new node. -/
def Allocates (calloc : Lines → Option Nat) : Prop :=
  ∀ lines, ∃ p, calloc lines = some p ∧ lines.lookup p = none

section Process

variable {pCache : CacheParams} {calloc : Lines → Option Nat} {all : Nat → List (BitVec 64)}

/-- The nodes of a set after an access: the old ones in some order, or a new one and the
old ones. -/
def Renewed (m : Mem) (ns ns' : List Nat) : Prop :=
  ns'.Perm ns ∨ ∃ p, m.lines.lookup p = none ∧ ns' = p :: ns

/-- An access, with the nodes of its set. -/
theorem cacheProcess_nodes {nodes : Nat → List Nat} (allocates : Allocates calloc)
    (positive : 0 < pCache.paramE.toNat) (holds : HoldsAt pCache.paramE.toNat m nodes all)
    (addr : BitVec 64) (inArray : (setIdx pCache addr).toNat < pCache.paramS.toNat) :
    ∃ m' ns', cacheProcess pCache calloc m addr =
        some (.returned (accessEvents pCache.paramE.toNat (all (setIdx pCache addr).toNat)
          (tagOf pCache addr)) m') ∧
      HoldsAt pCache.paramE.toNat m' (Function.update nodes (setIdx pCache addr).toNat ns')
        (access pCache all addr) ∧
      Renewed m (nodes (setIdx pCache addr).toNat) ns' ∧
      ∀ k, k ∉ ns' → m'.lines.lookup k = m.lines.lookup k := by
  have old := holds (setIdx pCache addr).toNat
  unfold cacheProcess accessEvents access
  simp only [if_neg (Nat.not_le.2 inArray), Option.bind_eq_bind]
  generalize (setIdx pCache addr).toNat = idx at old ⊢
  generalize tagOf pCache addr = tag
  have owns : ∀ n ∈ nodes idx, ∀ node, m.lines.lookup n = some node → node.owner = some idx := by
    intro n member node found
    obtain ⟨node', found', owner⟩ := old.owner member
    rw [found] at found'
    cases found'
    exact owner
  by_cases member : tag ∈ all idx
  · -- a hit
    obtain ⟨n, m', found, moved, ⟨ns', perm, changed⟩, sets, outside⟩ := hit_spec old member
    refine ⟨m', ns', ?_, holds.update sets outside owns changed, .inl perm, ?_⟩
    · simp only [found, moved, if_pos member, Option.bind_some, Option.map_some]
    · exact fun k away => outside k fun inOld => away (perm.mem_iff.2 inOld)
  · obtain ⟨nodup, last, seg⟩ := id old.ok
    have enough := Nat.lt_succ_of_le (seg.length_le nodup)
    have notFound := (findLine_spec tag seg old.tagged enough).1 member
    simp only [notFound, if_neg member, Option.bind_some]
    have counted : (m.cacheSetArr idx).lineCnt < pCache.paramE ↔
        (all idx).length < pCache.paramE.toNat := by
      rw [← old.count]
      exact Iff.rfl
    by_cases space : (m.cacheSetArr idx).lineCnt < pCache.paramE
    · -- a new line
      obtain ⟨p, allocated, fresh⟩ := allocates m.lines
      obtain ⟨m', added, changed, sets, outside⟩ := addLine_spec old member space allocated fresh
      have owns' : ∀ n ∈ p :: nodes idx, ∀ node, m.lines.lookup n = some node →
          node.owner = some idx := by
        intro n inList node found
        rcases List.mem_cons.1 inList with rfl | inList
        · rw [fresh] at found
          cases found
        · exact owns n inList node found
      refine ⟨m', _, ?_, holds.update sets outside owns' changed, .inr ⟨p, fresh, rfl⟩, outside⟩
      rw [if_pos space, if_pos (counted.1 space)]
      exact added
    · -- the tail's line
      have full : (all idx).length = pCache.paramE.toNat :=
        Nat.le_antisymm old.fits (Nat.not_lt.1 fun less => space (counted.2 less))
      obtain ⟨m', recycled, ⟨ns', perm, changed⟩, sets, outside⟩ :=
        recycleLine_spec old member full positive
      refine ⟨m', ns', ?_, holds.update sets outside owns changed, .inl perm, ?_⟩
      · rw [if_neg space, if_neg fun less => space (counted.2 less)]
        exact recycled
      · exact fun k away => outside k fun inOld => away (perm.mem_iff.2 inOld)

/-- **An access does `touch` to its set.** -/
theorem cacheProcess_spec (allocates : Allocates calloc) (positive : 0 < pCache.paramE.toNat)
    (holds : Holds pCache.paramE.toNat m all) (addr : BitVec 64)
    (inArray : (setIdx pCache addr).toNat < pCache.paramS.toNat) :
    ∃ m', cacheProcess pCache calloc m addr =
        some (.returned (accessEvents pCache.paramE.toNat (all (setIdx pCache addr).toNat)
          (tagOf pCache addr)) m') ∧
      Holds pCache.paramE.toNat m' (access pCache all addr) := by
  obtain ⟨nodes, holdsAt⟩ := holds.nodes
  obtain ⟨m', ns', processed, holds', -, -⟩ :=
    cacheProcess_nodes allocates positive holdsAt addr inArray
  exact ⟨m', processed, holds'.holds⟩

/-- What the accesses of a run call. -/
def runEvents (pCache : CacheParams) (all : Nat → List (BitVec 64)) :
    List (BitVec 64) → List (List Event)
  | [] => []
  | addr :: addrs =>
      accessEvents pCache.paramE.toNat (all (setIdx pCache addr).toNat) (tagOf pCache addr) ::
        runEvents pCache (access pCache all addr) addrs

/-- Every access of a run does `touch` to its set. -/
theorem cacheRun_spec (allocates : Allocates calloc) (positive : 0 < pCache.paramE.toNat)
    (inArray : ∀ addr, (setIdx pCache addr).toNat < pCache.paramS.toNat)
    (holds : Holds pCache.paramE.toNat m all) (addrs : List (BitVec 64)) :
    ∃ m', cacheRun pCache calloc m addrs = some (runEvents pCache all addrs, m') ∧
      Holds pCache.paramE.toNat m' (addrs.foldl (access pCache) all) := by
  induction addrs generalizing m all with
  | nil => exact ⟨m, rfl, holds⟩
  | cons addr addrs ih =>
      obtain ⟨m₁, processed, holds₁⟩ :=
        cacheProcess_spec allocates positive holds addr (inArray addr)
      obtain ⟨m₂, ran, holds₂⟩ := ih holds₁
      refine ⟨m₂, ?_, holds₂⟩
      unfold cacheRun
      simp only [processed, ran, Option.bind_eq_bind, Option.bind_some]
      rfl

/-- One more access. -/
theorem cacheRun_concat {addrs : List (BitVec 64)} {addr : BitVec 64} {events : List (List Event)}
    {called : List Event} {m'' : Mem} (ran : cacheRun pCache calloc m addrs = some (events, m'))
    (processed : cacheProcess pCache calloc m' addr = some (.returned called m'')) :
    cacheRun pCache calloc m (addrs ++ [addr]) = some (events ++ [called], m'') := by
  induction addrs generalizing m events with
  | nil =>
      cases ran
      simp only [List.nil_append, cacheRun, processed, Option.bind_eq_bind, Option.bind_some]
  | cons first addrs ih =>
      rw [List.cons_append]
      unfold cacheRun at ran ⊢
      cases head : cacheProcess pCache calloc m first with
      | none =>
          rw [head] at ran
          cases ran
      | some outcome =>
          cases outcome with
          | exited _ _ =>
              rw [head] at ran
              cases ran
          | returned called₁ m₁ =>
              rw [head] at ran
              simp only [Option.bind_eq_bind, Option.bind_some] at ran ⊢
              obtain ⟨⟨rest, m₂⟩, ranRest, same⟩ := Option.bind_eq_some_iff.1 ran
              cases same
              rw [ih ranRest]
              rfl

end Process

/-! ## The history of a set -/

/-- The tags of the accesses that mapped to set `idx`. -/
def history (pCache : CacheParams) (addrs : List (BitVec 64)) (idx : Nat) : List (BitVec 64) :=
  (addrs.filter fun addr => (setIdx pCache addr).toNat = idx).map (tagOf pCache)

/-- A run does `touch` to a set for each access of its history. -/
theorem foldl_access (pCache : CacheParams) (all : Nat → List (BitVec 64))
    (addrs : List (BitVec 64)) (idx : Nat) :
    addrs.foldl (access pCache) all idx =
      (history pCache addrs idx).foldl (touch pCache.paramE.toNat) (all idx) := by
  induction addrs generalizing all with
  | nil => rfl
  | cons addr addrs ih =>
      rw [List.foldl_cons, ih]
      unfold access history
      by_cases same : (setIdx pCache addr).toNat = idx
      · subst same
        simp
      · rw [Function.update_of_ne (Ne.symm same), List.filter_cons_of_neg (by simpa using same)]

theorem foldl_access_nil (pCache : CacheParams) (addrs : List (BitVec 64)) (idx : Nat) :
    addrs.foldl (access pCache) (fun _ => []) idx =
      (recency (history pCache addrs idx)).take pCache.paramE.toNat := by
  rw [foldl_access, foldl_touch]

theorem runEvents_append (pCache : CacheParams) (all : Nat → List (BitVec 64))
    (addrs more : List (BitVec 64)) :
    runEvents pCache all (addrs ++ more) =
      runEvents pCache all addrs ++ runEvents pCache (addrs.foldl (access pCache) all) more := by
  induction addrs generalizing all with
  | nil => rfl
  | cons addr addrs ih => simp [runEvents, ih]

@[simp] theorem length_runEvents (pCache : CacheParams) (all : Nat → List (BitVec 64))
    (addrs : List (BitVec 64)) : (runEvents pCache all addrs).length = addrs.length := by
  induction addrs generalizing all with
  | nil => rfl
  | cons addr addrs ih => simp [runEvents, ih]

/-- What is called depends on whether the tag was used recently enough, and on how many
tags were used. -/
theorem accessEvents_recency (E : Nat) (h : List (BitVec 64)) (tag : BitVec 64) :
    accessEvents E ((recency h).take E) tag =
      if tag ∈ (recency h).take E then [.hit]
      else if E ≤ h.dedup.length then [.miss, .eviction] else [.miss] := by
  unfold accessEvents
  by_cases member : tag ∈ (recency h).take E
  · rw [if_pos member, if_pos member]
  · rw [if_neg member, if_neg member, List.length_take, length_recency]
    by_cases many : E ≤ h.dedup.length
    · rw [if_neg (by omega), if_pos many]
    · rw [if_pos (by omega), if_neg many]

/-! ## The sets read off memory -/

theorem tagsFrom_spec {lines : Lines} {own before start last : Option Nat}
    (seg : DList.Seg lines own before start ns none last) (tagged : Tagged lines ns tags)
    {fuel : Nat} (enough : ns.length ≤ fuel) : tagsFrom lines fuel start = some tags := by
  induction tagged generalizing before start fuel with
  | nil =>
      obtain ⟨rfl, -⟩ := seg
      cases fuel <;> rfl
  | cons head tail ih =>
      obtain ⟨rfl, node, found, -, -, rest⟩ := seg
      obtain ⟨node', found', val⟩ := head
      rw [found] at found'
      cases found'
      obtain ⟨fuel, rfl⟩ := Nat.exists_eq_succ_of_ne_zero
        (Nat.ne_of_gt (Nat.lt_of_lt_of_le (Nat.succ_pos _) enough))
      simp only [tagsFrom, found, ih rest (Nat.le_of_succ_le_succ enough), val,
        Option.bind_eq_bind, Option.bind_some]

theorem Holds.setTags {all : Nat → List (BitVec 64)} (holds : Holds E m all) (idx : Nat) :
    setTags m idx = some (all idx) := by
  obtain ⟨ns, old⟩ := holds idx
  obtain ⟨nodup, last, seg⟩ := old.ok
  exact tagsFrom_spec seg old.tagged (seg.length_le nodup)

/-! ## From `cacheInitialize` on -/

theorem holdsAt_empty (E : Nat) :
    HoldsAt E ⟨fun _ => ⟨none, 0⟩, ∅⟩ (fun _ => []) fun _ => [] := by
  intro idx
  exact ⟨⟨List.nodup_nil, none, rfl, rfl⟩, .nil, List.nodup_nil, rfl, Nat.zero_le _⟩

theorem holds_empty (E : Nat) : Holds E ⟨fun _ => ⟨none, 0⟩, ∅⟩ fun _ => [] :=
  (holdsAt_empty E).holds

end CsappLab.Cache
