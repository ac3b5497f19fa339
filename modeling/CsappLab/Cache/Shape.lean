/-
# Cache.Shape — the lists of the sets as chains of nodes

`Chain` describes the list of a set pointer by pointer: where the head points, and
for each node its predecessor, successor and owner. It is what `SetOk` says through
segments (`chain_iff`), so the rules of `Cache.Lists` are rules about chains: the
list macros are cons, move to front and last, and leave the chains of other sets
alone.

`Shape` is what holds of all lines that have been allocated. An access keeps it, and
keeps the lines: the nodes of its set are reordered or get one more, and every node
of the heap stays in the chain of a set (`cacheRun_shape`).
-/
import CsappLab.Cache.History

namespace CsappLab.Cache

set_option autoImplicit false

open CsappLab.Lib

/-! ## Chains -/

/-- From `pHeadNode` to NULL the list of set `idx` consists of the nodes `ns`. -/
structure Chain (m : Mem) (idx : Nat) (ns : List Nat) : Prop where
  head : (m.cacheSetArr idx).pHeadNode = ns.head?
  nodup : ns.Nodup
  linked : ∀ l n r, ns = l ++ n :: r → ∃ node, m.lines.lookup n = some node ∧
    node.prev = l.getLast? ∧ node.next = r.head? ∧ node.owner = some idx

theorem chain_iff {m : Mem} {idx : Nat} {ns : List Nat} : Chain m idx ns ↔ SetOk m idx ns := by
  constructor
  · intro chain
    refine ⟨chain.nodup, ns.getLast?, ?_⟩
    have seg : DList.Seg m.lines (some idx) none (ns.head?.or none) ns none
        (ns.getLast?.or none) := by
      apply DList.seg_of_nodes
      simpa using chain.linked
    rw [chain.head]
    simpa using seg
  · rintro ⟨nodup, last, seg⟩
    refine ⟨by simpa using seg.start_eq_head, nodup, ?_⟩
    rintro l n r rfl
    simpa using seg.node_between

/-- `p->pNextNode`. -/
def nextOf (lines : Lines) (p : Nat) : Option Nat :=
  (lines.lookup p).bind (·.next)

/-- `p->pPrevNode`. -/
def prevOf (lines : Lines) (p : Nat) : Option Nat :=
  (lines.lookup p).bind (·.prev)

/-- Along a chain the two pointers are inverse to each other. -/
theorem Chain.inverse {m : Mem} {idx : Nat} {ns : List Nat} (chain : Chain m idx ns) {p q : Nat}
    (inP : p ∈ ns) (inQ : q ∈ ns) : nextOf m.lines p = some q ↔ prevOf m.lines q = some p := by
  unfold nextOf prevOf
  constructor
  · intro next
    obtain ⟨l, r, rfl⟩ := List.append_of_mem inP
    obtain ⟨node, found, -, nextNode, -⟩ := chain.linked l p r rfl
    rw [found, Option.bind_some, nextNode] at next
    obtain ⟨r, rfl⟩ := List.head?_eq_some_iff.1 next
    obtain ⟨node', found', prev, -⟩ := chain.linked (l ++ [p]) q r (by simp)
    rw [found', Option.bind_some, prev]
    simp
  · intro prev
    obtain ⟨l, r, rfl⟩ := List.append_of_mem inQ
    obtain ⟨node, found, prevNode, -⟩ := chain.linked l q r rfl
    rw [found, Option.bind_some, prevNode] at prev
    obtain ⟨l, rfl⟩ := List.getLast?_eq_some_iff.1 prev
    obtain ⟨node', found', -, next, -⟩ := chain.linked l p (q :: r) (by simp)
    rw [found', Option.bind_some, next]
    rfl

/-! ## The macros -/

/-- From `m` to `m'` the list of set `idx` has become `ns`; the lists of other sets, the
counts and the lines' values are what they were. -/
structure Relisted (m m' : Mem) (idx : Nat) (ns : List Nat) : Prop where
  chain : Chain m' idx ns
  others : ∀ j ks, j ≠ idx → Chain m j ks → (∀ n ∈ ks, n ∉ ns) → Chain m' j ks
  counts : ∀ j, (m'.cacheSetArr j).lineCnt = (m.cacheSetArr j).lineCnt
  vals : ∀ n, (m'.lines.lookup n).map (·.val) = (m.lines.lookup n).map (·.val)

theorem relisted {m : Mem} {lines : Lines} {idx n : Nat} {ns ms : List Nat}
    (ok : SetOk ({ m with lines := lines }.setHead idx (some n)) idx ns)
    (relinked : DList.Relinked ms m.lines lines) (same : ∀ k, k ∈ ms → k ∈ ns)
    (found : ∀ k ∈ ms, ∃ node, m.lines.lookup k = some node) :
    Relisted m ({ m with lines := lines }.setHead idx (some n)) idx ns := by
  refine ⟨chain_iff.2 ok, ?_, ?_, ?_⟩
  · intro j ks ne chain apart
    have others := Mem.setHead_other { m with lines := lines } (some n) ne
    refine chain_iff.2 ((chain_iff.1 chain).other (by rw [others]) relinked.outside ?_)
    exact fun k member inMs => apart k member (same k inMs)
  · exact fun j => Mem.setHead_lineCnt _ _ _ _
  · intro k
    rw [Mem.setHead_lines]
    by_cases member : k ∈ ms
    · obtain ⟨node, at_⟩ := found k member
      obtain ⟨node', at', val⟩ := relinked.kept k node at_
      rw [at_, at', Option.map_some, Option.map_some, val]
    · rw [relinked.outside k member]

/-- `listInsertHead` is cons. -/
theorem listInsertHead_chain {m : Mem} {idx n : Nat} {ns : List Nat}
    {node : DList.Node (Option Nat) CacheLine} (chain : Chain m idx ns) (fresh : n ∉ ns)
    (found : m.lines.lookup n = some node) :
    ∃ m', listInsertHead m idx n = some m' ∧ Relisted m m' idx (n :: ns) := by
  have ok := chain_iff.1 chain
  obtain ⟨lines, inserted, ok', relinked⟩ := listInsertHead_spec ok fresh found
  refine ⟨_, inserted, relisted ok' relinked (fun _ member => member) ?_⟩
  intro k member
  rcases List.mem_cons.1 member with rfl | inList
  · exact ⟨node, found⟩
  · obtain ⟨-, last, seg⟩ := ok
    obtain ⟨node', found', -⟩ := seg.mem_lookup inList
    exact ⟨node', found'⟩

/-- `listMoveNodeToHead` is move to front. -/
theorem listMoveNodeToHead_chain {m : Mem} {idx n : Nat} {l r : List Nat}
    (chain : Chain m idx (l ++ n :: r)) :
    ∃ m', listMoveNodeToHead m n = some m' ∧ Relisted m m' idx (n :: (l ++ r)) := by
  have ok := chain_iff.1 chain
  obtain ⟨lines, moved, ok', relinked⟩ := listMoveNodeToHead_spec ok
  refine ⟨_, moved, relisted ok' relinked (fun _ member => List.perm_middle.mem_iff.1 member) ?_⟩
  intro k member
  obtain ⟨-, last, seg⟩ := ok
  obtain ⟨node, found, -⟩ := seg.mem_lookup member
  exact ⟨node, found⟩

/-- `listFindTailNode` is last. -/
theorem listFindTailNode_chain {m : Mem} {idx : Nat} {ns : List Nat} (chain : Chain m idx ns) :
    listFindTailNode m idx = some ns.getLast? := by
  by_cases empty : ns = []
  · subst empty
    unfold listFindTailNode
    rw [chain.head]
    rfl
  · obtain ⟨l, n, rfl, found⟩ := listFindTailNode_spec (chain_iff.1 chain) empty
    rw [found, List.getLast?_append, List.getLast?_singleton]
    rfl

/-! ## All lines -/

/-- The tag of the line at `n`. -/
def lineTag (lines : Lines) (n : Nat) : Option (BitVec 64) :=
  (lines.lookup n).map fun node => node.val.tag

/-- The lists of `S` sets of at most `E` lines; `nodes` are their nodes. -/
structure Shape (S E : Nat) (m : Mem) (nodes : Nat → List Nat) : Prop where
  chain : ∀ idx, Chain m idx (nodes idx)
  disjoint : ∀ i j, i ≠ j → List.Disjoint (nodes i) (nodes j)
  firstPrev : ∀ idx n, (m.cacheSetArr idx).pHeadNode = some n → prevOf m.lines n = none
  inverse : ∀ idx, ∀ p ∈ nodes idx, ∀ q ∈ nodes idx,
    nextOf m.lines p = some q ↔ prevOf m.lines q = some p
  count : ∀ idx, (m.cacheSetArr idx).lineCnt.toNat = (nodes idx).length
  fits : ∀ idx, (nodes idx).length ≤ E
  valid : ∀ idx, ∀ n ∈ nodes idx, ∃ node, m.lines.lookup n = some node ∧ node.val.valid = true
  tags : ∀ idx, ((nodes idx).map (lineTag m.lines)).Nodup
  /-- No line that has been allocated is out of reach. -/
  reached : ∀ n node, m.lines.lookup n = some node → ∃ idx < S, n ∈ nodes idx

/-- Every allocated line is in a list. -/
def Reached (S : Nat) (m : Mem) (nodes : Nat → List Nat) : Prop :=
  ∀ n node, m.lines.lookup n = some node → ∃ idx < S, n ∈ nodes idx

theorem Tagged.lineTags {lines : Lines} {ns : List Nat} {tags : List (BitVec 64)}
    (tagged : Tagged lines ns tags) : ns.map (lineTag lines) = tags.map some := by
  induction tagged with
  | nil => rfl
  | cons head _ ih =>
      obtain ⟨node, found, val⟩ := head
      rw [List.map_cons, List.map_cons, ih]
      simp [lineTag, found, val]

theorem Tagged.valid {lines : Lines} {ns : List Nat} {tags : List (BitVec 64)}
    (tagged : Tagged lines ns tags) {n : Nat} (member : n ∈ ns) :
    ∃ node, lines.lookup n = some node ∧ node.val.valid = true := by
  induction tagged with
  | nil => cases member
  | cons head _ ih =>
      obtain ⟨node, found, val⟩ := head
      rcases List.mem_cons.1 member with rfl | inTail
      · exact ⟨node, found, by rw [val]⟩
      · exact ih inTail

/-- The invariant of the runs gives the shape. -/
theorem HoldsAt.shape {S E : Nat} {m : Mem} {nodes : Nat → List Nat}
    {tags : Nat → List (BitVec 64)} (holds : HoldsAt E m nodes tags) (reached : Reached S m nodes) :
    Shape S E m nodes := by
  have chain : ∀ idx, Chain m idx (nodes idx) := fun idx => chain_iff.2 (holds idx).ok
  have sameLength : ∀ idx, (nodes idx).length = (tags idx).length :=
    fun idx => (holds idx).tagged.length_eq
  refine ⟨chain, ?_, ?_, ?_, ?_, ?_, ?_, ?_, reached⟩
  · intro i j ne n inLeft inRight
    exact (holds i).ok.disjoint (holds j).ok ne n inLeft inRight
  · intro idx n head
    rw [(chain idx).head] at head
    obtain ⟨r, split_⟩ := List.head?_eq_some_iff.1 head
    obtain ⟨node, found, prev, -⟩ := (chain idx).linked [] n r split_
    unfold prevOf
    rw [found, Option.bind_some, prev]
    rfl
  · intro idx p inP q inQ
    exact (chain idx).inverse inP inQ
  · intro idx
    rw [(holds idx).count, sameLength]
  · intro idx
    rw [sameLength]
    exact (holds idx).fits
  · exact fun idx n member => (holds idx).tagged.valid member
  · intro idx
    rw [(holds idx).tagged.lineTags]
    exact (holds idx).nodup.map (Option.some_injective _)

/-! ## Runs -/

section Run

variable {pCache : CacheParams} {calloc : Lines → Option Nat} {S : Nat} {m m' : Mem}
  {nodes : Nat → List Nat} {all : Nat → List (BitVec 64)}

/-- An access leaves no line out of reach. -/
theorem Reached.update {idx : Nat} {ns' : List Nat} (reached : Reached S m nodes)
    (inArray : idx < S) (renewed : Renewed m (nodes idx) ns')
    (outside : ∀ k, k ∉ ns' → m'.lines.lookup k = m.lines.lookup k) :
    Reached S m' (Function.update nodes idx ns') := by
  have kept : ∀ n ∈ nodes idx, n ∈ ns' := by
    intro n member
    rcases renewed with perm | ⟨p, -, rfl⟩
    · exact perm.mem_iff.2 member
    · exact List.mem_cons_of_mem _ member
  intro n node found
  by_cases own : n ∈ ns'
  · exact ⟨idx, inArray, by rwa [Function.update_self]⟩
  · rw [outside n own] at found
    obtain ⟨j, inArray', member⟩ := reached n node found
    have ne : j ≠ idx := by
      rintro rfl
      exact own (kept n member)
    exact ⟨j, inArray', by rwa [Function.update_of_ne ne]⟩

/-- Every access of a run keeps the lines. -/
theorem cacheRun_nodes (allocates : Allocates calloc) (positive : 0 < pCache.paramE.toNat)
    (inArray : ∀ addr, (setIdx pCache addr).toNat < pCache.paramS.toNat)
    (holds : HoldsAt pCache.paramE.toNat m nodes all)
    (reached : Reached pCache.paramS.toNat m nodes) (addrs : List (BitVec 64)) :
    ∃ events m' nodes' all', cacheRun pCache calloc m addrs = some (events, m') ∧
      HoldsAt pCache.paramE.toNat m' nodes' all' ∧ Reached pCache.paramS.toNat m' nodes' := by
  induction addrs generalizing m nodes all with
  | nil => exact ⟨[], m, nodes, all, rfl, holds, reached⟩
  | cons addr addrs ih =>
      obtain ⟨m₁, ns, processed, holds₁, renewed, outside⟩ :=
        cacheProcess_nodes allocates positive holds addr (inArray addr)
      obtain ⟨events, m₂, nodes₂, all₂, ran, holds₂, reached₂⟩ :=
        ih holds₁ (reached.update (inArray addr) renewed outside)
      let called := accessEvents pCache.paramE.toNat (all (setIdx pCache addr).toNat)
        (tagOf pCache addr)
      refine ⟨called :: events, m₂, nodes₂, all₂, ?_, holds₂, reached₂⟩
      unfold cacheRun
      simp only [processed, ran, Option.bind_eq_bind, Option.bind_some]
      rfl

end Run

/-- **The lists keep their shape.** The macros are cons, move to front and last. From
`cacheInitialize` on every access is defined and leaves lists of that shape, with the
nodes that were in them and at most one new node. -/
theorem cacheRun_shape {param_s paramE param_b : BitVec 32} {calloc : Lines → Option Nat}
    (allocates : Allocates calloc) (widths : Widths param_s param_b)
    (positive : 1 ≤ paramE.toNat) :
    (∀ m idx ns n node, Chain m idx ns → n ∉ ns → m.lines.lookup n = some node →
      ∃ m', listInsertHead m idx n = some m' ∧ Relisted m m' idx (n :: ns)) ∧
    (∀ m idx l n r, Chain m idx (l ++ n :: r) →
      ∃ m', listMoveNodeToHead m n = some m' ∧ Relisted m m' idx (n :: (l ++ r))) ∧
    (∀ m idx ns, Chain m idx ns → listFindTailNode m idx = some ns.getLast?) ∧
    ∃ pCache m₀, cacheInitialize true param_s paramE param_b = (pCache, some m₀) ∧
      ∀ addrs, ∃ events m nodes, cacheRun pCache calloc m₀ addrs = some (events, m) ∧
        Shape (2 ^ param_s.toNat) paramE.toNat m nodes ∧
        ∀ addr, ∃ called m' nodes',
          cacheProcess pCache calloc m addr = some (.returned called m') ∧
          Shape (2 ^ param_s.toNat) paramE.toNat m' nodes' ∧
          Renewed m (nodes (setIdx pCache addr).toNat) (nodes' (setIdx pCache addr).toNat) ∧
          ∀ idx, idx ≠ (setIdx pCache addr).toNat → nodes' idx = nodes idx := by
  let pCache := cacheParams param_s paramE param_b
  have sets : pCache.paramS.toNat = 2 ^ param_s.toNat := paramS_toNat paramE widths
  have inArray : ∀ addr, (setIdx pCache addr).toNat < pCache.paramS.toNat :=
    setIdx_inArray paramE widths
  have positive' : 0 < pCache.paramE.toNat := positive
  refine ⟨fun _ _ _ _ _ chain fresh found => listInsertHead_chain chain fresh found,
    fun _ _ _ _ _ chain => listMoveNodeToHead_chain chain,
    fun _ _ _ chain => listFindTailNode_chain chain, pCache, _, rfl, fun addrs => ?_⟩
  have noLines : Reached pCache.paramS.toNat ⟨fun _ => ⟨none, 0⟩, ∅⟩ fun _ => [] := by
    intro n node found
    cases found
  obtain ⟨events, m, nodes, all, ran, holds, reached⟩ :=
    cacheRun_nodes allocates positive' inArray (holdsAt_empty _) noLines addrs
  rw [← sets]
  refine ⟨events, m, nodes, ran, holds.shape reached, fun addr => ?_⟩
  obtain ⟨m', ns, processed, holds', renewed, outside⟩ :=
    cacheProcess_nodes allocates positive' holds addr (inArray addr)
  refine ⟨_, m', _, processed, holds'.shape (reached.update (inArray addr) renewed outside), ?_, ?_⟩
  · rw [Function.update_self]
    exact renewed
  · exact fun idx ne => Function.update_of_ne ne _ _

/-- The lines of four accesses to one set of two lines. -/
theorem cacheRun_shape_two_lines :
    ∃ events m nodes, cacheRun (cacheParams 1 2 1) callocNext ⟨fun _ => ⟨none, 0⟩, ∅⟩
        [16, 32, 16, 48] = some (events, m) ∧ Shape 2 2 m nodes := by
  obtain ⟨-, -, -, pCache, m₀, init, runs⟩ :=
    cacheRun_shape allocates_callocNext (⟨by decide, by decide, by decide, by decide⟩ : Widths 1 1)
      (by decide : 1 ≤ (2 : BitVec 32).toNat)
  cases init
  obtain ⟨events, m, nodes, ran, shape, -⟩ := runs [16, 32, 16, 48]
  exact ⟨events, m, nodes, ran, shape⟩

end CsappLab.Cache
