/-
# Lib.DList — doubly linked lists on a heap

Nodes live on a heap, a finite map from addresses; each carries a pointer to its
predecessor and to its successor, an owner and a value. `Seg` is a list segment:
the nodes at the addresses `ns`, chained from `start` with `before` as the first
one's predecessor, up to the pointer `stop`, the last node being `last`.

Segments compose (`seg_append`), and each kind of store has one rule: a store to
another node leaves a segment alone (`Seg.frame`), a store to the last node's
successor moves where it stops (`Seg.setNext_last`), a store to the first node's
predecessor moves what is before it (`Seg.setPrev_head`). The rules are used in
the order of the stores.
-/
import Mathlib.Data.List.AList

namespace CsappLab.Lib

set_option autoImplicit false

universe u v

namespace DList

/-- A node. A pointer is `none` when it is null. -/
structure Node (κ : Type u) (ν : Type v) where
  prev : Option Nat
  next : Option Nat
  owner : κ
  val : ν
  deriving DecidableEq

abbrev Heap (κ : Type u) (ν : Type v) : Type (max u v) := AList fun _ : Nat => Node κ ν

section

variable {κ : Type u} {ν : Type v}

namespace Heap

/-- `p->prev = q`. -/
def setPrev (h : Heap κ ν) (p : Nat) (q : Option Nat) : Option (Heap κ ν) :=
  (h.lookup p).map fun nd => h.insert p { nd with prev := q }

/-- `p->next = q`. -/
def setNext (h : Heap κ ν) (p : Nat) (q : Option Nat) : Option (Heap κ ν) :=
  (h.lookup p).map fun nd => h.insert p { nd with next := q }

/-- `p->owner = own`. -/
def setOwner (h : Heap κ ν) (p : Nat) (own : κ) : Option (Heap κ ν) :=
  (h.lookup p).map fun nd => h.insert p { nd with owner := own }

/-- `p->val = val`. -/
def setVal (h : Heap κ ν) (p : Nat) (val : ν) : Option (Heap κ ν) :=
  (h.lookup p).map fun nd => h.insert p { nd with val := val }

end Heap

/-- A segment of a list owned by `own`. -/
def Seg (h : Heap κ ν) (own : κ) : Option Nat → Option Nat → List Nat → Option Nat →
    Option Nat → Prop
  | before, start, [], stop, last => start = stop ∧ last = before
  | before, start, n :: ns, stop, last =>
      start = some n ∧ ∃ nd, h.lookup n = some nd ∧ nd.prev = before ∧ nd.owner = own ∧
        Seg h own (some n) nd.next ns stop last

variable {h h' : Heap κ ν} {own : κ} {before start stop last : Option Nat} {n : Nat}
  {ns ms : List Nat} {nd : Node κ ν}

theorem Heap.setPrev_eq (found : h.lookup n = some nd) (q : Option Nat) :
    h.setPrev n q = some (h.insert n { nd with prev := q }) := by
  simp [Heap.setPrev, found]

theorem Heap.setNext_eq (found : h.lookup n = some nd) (q : Option Nat) :
    h.setNext n q = some (h.insert n { nd with next := q }) := by
  simp [Heap.setNext, found]

theorem Heap.setOwner_eq (found : h.lookup n = some nd) (own' : κ) :
    h.setOwner n own' = some (h.insert n { nd with owner := own' }) := by
  simp [Heap.setOwner, found]

theorem Heap.setVal_eq (found : h.lookup n = some nd) (val : ν) :
    h.setVal n val = some (h.insert n { nd with val := val }) := by
  simp [Heap.setVal, found]

theorem Seg.start_eq (seg : Seg h own before start (n :: ns) stop last) : start = some n :=
  seg.1

theorem Seg.mem_lookup (seg : Seg h own before start ns stop last) (member : n ∈ ns) :
    ∃ nd, h.lookup n = some nd ∧ nd.owner = own := by
  induction ns generalizing before start with
  | nil => cases member
  | cons m ns ih =>
      obtain ⟨-, nd, found, -, owned, rest⟩ := seg
      rcases List.mem_cons.1 member with rfl | inRest
      · exact ⟨nd, found, owned⟩
      · exact ih rest inRest

/-- Segments one after the other. -/
theorem seg_append :
    Seg h own before start (ns ++ ms) stop last ↔
      ∃ middle link, Seg h own before start ns link middle ∧
        Seg h own middle link ms stop last := by
  induction ns generalizing before start with
  | nil =>
      constructor
      · intro seg
        exact ⟨before, start, ⟨rfl, rfl⟩, seg⟩
      · rintro ⟨middle, link, ⟨rfl, rfl⟩, seg⟩
        exact seg
  | cons n ns ih =>
      constructor
      · rintro ⟨first, nd, found, prev, owned, rest⟩
        obtain ⟨middle, link, left, right⟩ := ih.1 rest
        exact ⟨middle, link, ⟨first, nd, found, prev, owned, left⟩, right⟩
      · rintro ⟨middle, link, ⟨first, nd, found, prev, owned, left⟩, right⟩
        exact ⟨first, nd, found, prev, owned, ih.2 ⟨middle, link, left, right⟩⟩

/-- A segment depends on its own nodes only. -/
theorem Seg.congr (seg : Seg h own before start ns stop last)
    (same : ∀ n ∈ ns, h'.lookup n = h.lookup n) : Seg h' own before start ns stop last := by
  induction ns generalizing before start with
  | nil => exact seg
  | cons n ns ih =>
      obtain ⟨first, nd, found, prev, owned, rest⟩ := seg
      refine ⟨first, nd, ?_, prev, owned, ih rest fun m member => ?_⟩
      · rw [same n List.mem_cons_self]
        exact found
      · exact same m (List.mem_cons_of_mem _ member)

/-- A store to another node. -/
theorem Seg.frame (seg : Seg h own before start ns stop last) (outside : n ∉ ns)
    (nd : Node κ ν) : Seg (h.insert n nd) own before start ns stop last := by
  apply seg.congr
  intro m member
  apply AList.lookup_insert_ne
  rintro rfl
  exact outside member

/-- A store to the predecessor of the first node. -/
theorem Seg.setPrev_head {q : Option Nat} (seg : Seg h own before start (n :: ns) stop last)
    (fresh : n ∉ ns) (found : h.lookup n = some nd) :
    Seg (h.insert n { nd with prev := q }) own q start (n :: ns) stop last := by
  obtain ⟨first, nd', found', -, owned, rest⟩ := seg
  rw [found] at found'
  cases found'
  exact ⟨first, _, AList.lookup_insert _, rfl, owned, rest.frame fresh _⟩

/-- A store to the successor of the last node. -/
theorem Seg.setNext_last {q : Option Nat} (seg : Seg h own before start (ns ++ [n]) stop last)
    (fresh : n ∉ ns) (found : h.lookup n = some nd) :
    Seg (h.insert n { nd with next := q }) own before start (ns ++ [n]) q (some n) := by
  obtain ⟨middle, link, left, right⟩ := seg_append.1 seg
  obtain ⟨first, nd', found', prev, owned, -⟩ := right
  rw [found] at found'
  cases found'
  refine seg_append.2 ⟨middle, link, left.frame fresh _, first, _, AList.lookup_insert _, prev,
    owned, rfl, rfl⟩

theorem Seg.last_eq (seg : Seg h own before start (ns ++ [n]) stop last) : last = some n := by
  obtain ⟨middle, link, -, -, nd, -, -, -, -, same⟩ := seg_append.1 seg
  exact same

/-- From the null pointer to the null pointer there is nothing. -/
theorem Seg.eq_nil (seg : Seg h own before none ns none last) : ns = [] := by
  cases ns with
  | nil => rfl
  | cons n ns => cases seg.start_eq

/-! ## A segment, node by node -/

theorem Seg.start_eq_head (seg : Seg h own before start ns stop last) :
    start = ns.head?.or stop := by
  cases ns with
  | nil => exact seg.1
  | cons n ns => exact seg.start_eq

theorem Seg.last_eq_getLast (seg : Seg h own before start ns stop last) :
    last = ns.getLast?.or before := by
  rcases List.eq_nil_or_concat ns with rfl | ⟨ns, n, rfl⟩
  · exact seg.2
  · rw [List.concat_eq_append] at seg ⊢
    rw [seg.last_eq, List.getLast?_append, List.getLast?_singleton]
    rfl

/-- A node between the ones before it and the ones after it. -/
theorem Seg.node_between (seg : Seg h own before start (ns ++ n :: ms) stop last) :
    ∃ nd, h.lookup n = some nd ∧ nd.prev = ns.getLast?.or before ∧
      nd.next = ms.head?.or stop ∧ nd.owner = own := by
  obtain ⟨middle, link, left, right⟩ := seg_append.1 seg
  obtain ⟨-, nd, found, prev, owned, rest⟩ := right
  exact ⟨nd, found, prev.trans left.last_eq_getLast, rest.start_eq_head, owned⟩

/-- Nodes that are linked with their neighbours make up a segment. -/
theorem seg_of_nodes
    (linked : ∀ l n r, ns = l ++ n :: r → ∃ nd, h.lookup n = some nd ∧
      nd.prev = l.getLast?.or before ∧ nd.next = r.head?.or stop ∧ nd.owner = own) :
    Seg h own before (ns.head?.or stop) ns stop (ns.getLast?.or before) := by
  induction ns generalizing before with
  | nil => exact ⟨rfl, rfl⟩
  | cons n ns ih =>
      obtain ⟨nd, found, prev, next, owned⟩ := linked [] n ns rfl
      refine ⟨rfl, nd, found, prev, owned, ?_⟩
      have rest : Seg h own (some n) (ns.head?.or stop) ns stop (ns.getLast?.or (some n)) := by
        apply ih
        rintro l k r rfl
        obtain ⟨nd', found', prev', after⟩ := linked (n :: l) k r rfl
        refine ⟨nd', found', ?_, after⟩
        rw [prev', List.getLast?_cons]
        cases l.getLast? <;> rfl
      rw [next, List.getLast?_cons]
      cases last : ns.getLast? <;> simpa [last] using rest

/-! ## Stores that only relink -/

/-- From `h` to `h'` only links and owners of nodes in `ns` have changed. -/
structure Relinked (ns : List Nat) (h h' : Heap κ ν) : Prop where
  outside : ∀ n, n ∉ ns → h'.lookup n = h.lookup n
  kept : ∀ n nd, h.lookup n = some nd → ∃ nd', h'.lookup n = some nd' ∧ nd'.val = nd.val

theorem Relinked.refl (ns : List Nat) (h : Heap κ ν) : Relinked ns h h :=
  ⟨fun _ _ => rfl, fun _ nd found => ⟨nd, found, rfl⟩⟩

theorem Relinked.trans {h'' : Heap κ ν} (first : Relinked ns h h') (second : Relinked ns h' h'') :
    Relinked ns h h'' := by
  constructor
  · intro n away
    rw [second.outside n away, first.outside n away]
  · intro n nd found
    obtain ⟨nd₁, found₁, val₁⟩ := first.kept n nd found
    obtain ⟨nd₂, found₂, val₂⟩ := second.kept n nd₁ found₁
    exact ⟨nd₂, found₂, val₂.trans val₁⟩

theorem Relinked.mono (relinked : Relinked ns h h') (subset : ns ⊆ ms) : Relinked ms h h' :=
  ⟨fun n away => relinked.outside n fun member => away (subset member), relinked.kept⟩

/-- A store to a link or the owner of a node in `ns`. -/
theorem Relinked.store {nd' : Node κ ν} (member : n ∈ ns) (found : h.lookup n = some nd)
    (val : nd'.val = nd.val) : Relinked ns h (h.insert n nd') := by
  constructor
  · intro m away
    apply AList.lookup_insert_ne
    rintro rfl
    exact away member
  · intro m nd₁ found₁
    by_cases same : m = n
    · subst same
      rw [found] at found₁
      cases found₁
      exact ⟨nd', AList.lookup_insert _, val⟩
    · exact ⟨nd₁, by rw [AList.lookup_insert_ne same]; exact found₁, rfl⟩

/-- A store to a value changes no link. -/
theorem Seg.setVal (seg : Seg h own before start ns stop last) (found : h.lookup n = some nd)
    (val : ν) : Seg (h.insert n { nd with val := val }) own before start ns stop last := by
  induction ns generalizing before start with
  | nil => exact seg
  | cons m ns ih =>
      obtain ⟨first, nd', found', prev, owned, rest⟩ := seg
      by_cases same : m = n
      · subst same
        rw [found] at found'
        cases found'
        exact ⟨first, _, AList.lookup_insert _, prev, owned, ih rest⟩
      · exact ⟨first, nd', by rw [AList.lookup_insert_ne same]; exact found', prev, owned, ih rest⟩

/-- A list has at most as many nodes as the heap. -/
theorem Seg.length_le (seg : Seg h own before start ns stop last) (nodup : ns.Nodup) :
    ns.length ≤ h.entries.length := by
  have subset : ns ⊆ h.keys := by
    intro n member
    obtain ⟨nd, found, -⟩ := seg.mem_lookup member
    exact AList.mem_keys.1 (AList.lookup_isSome.1 (by rw [found]; rfl))
  have le := (List.subperm_of_subset nodup subset).length_le
  simpa [AList.keys, List.keys] using le

end

end DList

end CsappLab.Lib
