/-
# Cache.Lists — the list macros on the lists they stand for

`SetOk m idx ns` says that the list of set `idx` is made up of the nodes `ns`,
head first. On it `listInsertHead` is cons (`listInsertHead_spec`),
`listMoveNodeToHead` moves a node to the front (`listMoveNodeToHead_spec`),
`listFindTailNode` finds the last node (`listFindTailNode_spec`) and the search
of `cacheProcess` the line with the tag (`findLine_spec`). Each proof goes through
the stores of its macro in their order, with one rule of `Lib.DList` a store.

A node's owner is its set, so lists of different sets share no node and a store
to one leaves the others alone (`SetOk.other`).
-/
import CsappLab.Cache.Cache
import Mathlib.Data.List.Forall2

namespace CsappLab.Cache

set_option autoImplicit false

open CsappLab.Lib

/-- The list of set `idx` consists of the nodes `ns`. -/
def SetOk (m : Mem) (idx : Nat) (ns : List Nat) : Prop :=
  ns.Nodup ∧ ∃ last, DList.Seg m.lines (some idx) none (m.cacheSetArr idx).pHeadNode ns none last

/-- The nodes hold valid lines with these tags. -/
def Tagged (lines : Lines) (ns : List Nat) (tags : List (BitVec 64)) : Prop :=
  List.Forall₂ (fun n tag => ∃ node, lines.lookup n = some node ∧ node.val = ⟨true, tag⟩) ns tags

theorem Tagged.relinked {lines lines' : Lines} {ns ms : List Nat} {tags : List (BitVec 64)}
    (tagged : Tagged lines ns tags) (relinked : DList.Relinked ms lines lines') :
    Tagged lines' ns tags := by
  refine List.Forall₂.imp ?_ tagged
  rintro n tag ⟨node, found, val⟩
  obtain ⟨node', found', val'⟩ := relinked.kept n node found
  exact ⟨node', found', val'.trans val⟩

theorem Tagged.congr {lines lines' : Lines} {ns : List Nat} {tags : List (BitVec 64)}
    (tagged : Tagged lines ns tags) (same : ∀ n ∈ ns, lines'.lookup n = lines.lookup n) :
    Tagged lines' ns tags := by
  induction tagged with
  | nil => exact .nil
  | cons head tail ih =>
      obtain ⟨node, found, val⟩ := head
      refine .cons ⟨node, ?_, val⟩ (ih fun n member => same n (List.mem_cons_of_mem _ member))
      rw [same _ List.mem_cons_self]
      exact found

/-- A list of another set. -/
theorem SetOk.other {m m' : Mem} {idx : Nat} {ns ms : List Nat} (ok : SetOk m idx ns)
    (head : (m'.cacheSetArr idx).pHeadNode = (m.cacheSetArr idx).pHeadNode)
    (outside : ∀ n, n ∉ ms → m'.lines.lookup n = m.lines.lookup n) (apart : ∀ n ∈ ns, n ∉ ms) :
    SetOk m' idx ns := by
  obtain ⟨nodup, last, seg⟩ := ok
  refine ⟨nodup, last, ?_⟩
  rw [head]
  exact seg.congr fun n member => outside n (apart n member)

/-- Lists of different sets have no node in common. -/
theorem SetOk.disjoint {m : Mem} {i j : Nat} {ns ms : List Nat} (left : SetOk m i ns)
    (right : SetOk m j ms) (ne : i ≠ j) : ∀ n ∈ ns, n ∉ ms := by
  intro n inLeft inRight
  obtain ⟨-, _, seg⟩ := left
  obtain ⟨-, _, seg'⟩ := right
  obtain ⟨node, found, owner⟩ := seg.mem_lookup inLeft
  obtain ⟨node', found', owner'⟩ := seg'.mem_lookup inRight
  rw [found] at found'
  cases found'
  rw [owner] at owner'
  exact ne (Option.some.inj owner')

/-! ## Searching -/

theorem findLine_spec {lines : Lines} {own : Option Nat} {before start last : Option Nat}
    {ns : List Nat} {tags : List (BitVec 64)} (tag : BitVec 64)
    (seg : DList.Seg lines own before start ns none last) (tagged : Tagged lines ns tags)
    {fuel : Nat} (enough : ns.length < fuel) :
    (tag ∉ tags → findLine lines tag fuel start = some none) ∧
      (tag ∈ tags → ∃ l n r tl tr, ns = l ++ n :: r ∧ tags = tl ++ tag :: tr ∧
        l.length = tl.length ∧ tag ∉ tl ∧ findLine lines tag fuel start = some (some n)) := by
  induction tagged generalizing before start fuel with
  | nil =>
      obtain ⟨rfl, -⟩ := seg
      obtain ⟨fuel, rfl⟩ := Nat.exists_eq_succ_of_ne_zero (Nat.ne_of_gt enough)
      exact ⟨fun _ => rfl, fun member => by cases member⟩
  | @cons n t ns tags head tail ih =>
      obtain ⟨rfl, node, found, -, -, rest⟩ := seg
      obtain ⟨node', found', val⟩ := head
      rw [found] at found'
      cases found'
      obtain ⟨fuel, rfl⟩ := Nat.exists_eq_succ_of_ne_zero
        (Nat.ne_of_gt (Nat.lt_of_le_of_lt (Nat.zero_le _) enough))
      have step : findLine lines tag (fuel + 1) (some n) =
          if tag = t then some (some n) else findLine lines tag fuel node.next := by
        simp only [findLine, found, val, Option.bind_eq_bind, Option.bind_some]
      obtain ⟨absent, present⟩ := ih rest (Nat.lt_of_succ_lt_succ enough)
      rw [step]
      by_cases same : tag = t
      · subst same
        refine ⟨fun notMember => absurd List.mem_cons_self notMember, fun _ => ?_⟩
        exact ⟨[], n, ns, [], tags, rfl, rfl, rfl, List.not_mem_nil, if_pos rfl⟩
      · rw [if_neg same]
        constructor
        · intro notMember
          exact absent fun member => notMember (List.mem_cons_of_mem _ member)
        · intro member
          rcases List.mem_cons.1 member with eq | inTail
          · exact absurd eq same
          · obtain ⟨l, k, r, tl, tr, rfl, rfl, len, fresh, result⟩ := present inTail
            refine ⟨n :: l, k, r, t :: tl, tr, rfl, rfl, ?_, ?_, result⟩
            · rw [List.length_cons, List.length_cons, len]
            · rw [List.mem_cons]
              rintro (eq | inFront)
              · exact same eq
              · exact fresh inFront

theorem findTailFrom_spec {lines : Lines} {own : Option Nat} {before last : Option Nat}
    {ns : List Nat} {p : Nat} (seg : DList.Seg lines own before (some p) ns none last)
    {fuel : Nat} (enough : ns.length ≤ fuel) :
    ∃ l n, ns = l ++ [n] ∧ findTailFrom lines fuel p = some n := by
  induction ns generalizing before p fuel with
  | nil => exact absurd seg.1 (by rintro ⟨⟩)
  | cons k ns ih =>
      obtain ⟨first, node, found, -, -, rest⟩ := seg
      have same : p = k := Option.some.inj first
      subst same
      obtain ⟨fuel, rfl⟩ := Nat.exists_eq_succ_of_ne_zero
        (Nat.ne_of_gt (Nat.lt_of_lt_of_le (Nat.succ_pos _) enough))
      cases next : node.next with
      | none =>
          rw [next] at rest
          rw [rest.eq_nil]
          refine ⟨[], p, rfl, ?_⟩
          simp only [findTailFrom, found, next, Option.bind_eq_bind, Option.bind_some]
      | some q =>
          rw [next] at rest
          obtain ⟨l, n, rfl, result⟩ := ih rest (Nat.le_of_succ_le_succ enough)
          refine ⟨p :: l, n, rfl, ?_⟩
          simp only [findTailFrom, found, next, Option.bind_eq_bind, Option.bind_some]
          exact result

/-- `listFindTailNode` finds the last node. -/
theorem listFindTailNode_spec {m : Mem} {idx : Nat} {ns : List Nat} (ok : SetOk m idx ns)
    (nonempty : ns ≠ []) :
    ∃ l n, ns = l ++ [n] ∧ listFindTailNode m idx = some (some n) := by
  obtain ⟨nodup, last, seg⟩ := ok
  have fits := seg.length_le nodup
  unfold listFindTailNode
  cases head : (m.cacheSetArr idx).pHeadNode with
  | none =>
      rw [head] at seg
      exact absurd seg.eq_nil nonempty
  | some p =>
      rw [head] at seg
      have enough : ns.length ≤ m.lines.entries.length + 1 := Nat.le_succ_of_le fits
      obtain ⟨l, n, split_, result⟩ := findTailFrom_spec seg enough
      refine ⟨l, n, split_, ?_⟩
      simp only [result, Option.map_some]

/-! ## Relinking -/

/-- The two stores of `listMoveNodeToHead` that take a node out of the middle. -/
theorem unlink_spec {lines : Lines} {own head last next : Option Nat} {l r : List Nat}
    {p n : Nat} {node : DList.Node (Option Nat) CacheLine}
    (nodup : (l ++ [p] ++ n :: r).Nodup) (found : lines.lookup n = some node)
    (left : DList.Seg lines own none head (l ++ [p]) (some n) (some p))
    (right : DList.Seg lines own (some n) next r none last) :
    ∃ lines₁ lines₂ last', lines.setNext p next = some lines₁ ∧
      (match next with
        | some q => lines₁.setPrev q (some p)
        | none => some lines₁) = some lines₂ ∧
      DList.Seg lines₂ own none head (l ++ [p] ++ r) none last' ∧
      lines₂.lookup n = some node ∧
      DList.Relinked (l ++ [p] ++ n :: r) lines lines₂ := by
  rw [List.nodup_append] at nodup
  obtain ⟨nodupLeft, nodupRight, apart⟩ := nodup
  rw [List.nodup_cons] at nodupRight
  obtain ⟨pNode, foundP, -⟩ := left.mem_lookup (n := p) (by simp)
  have freshP : p ∉ l := fun member =>
    (List.nodup_append.1 nodupLeft).2.2 p member p List.mem_cons_self rfl
  have ne : n ≠ p := fun same => apart p (by simp) n List.mem_cons_self same.symm
  have outR : p ∉ r := fun member =>
    apart p (by simp) p (List.mem_cons_of_mem _ member) rfl
  -- the predecessor's successor
  have set₁ := DList.Heap.setNext_eq foundP next
  have left₁ := left.setNext_last (q := next) freshP foundP
  have right₁ := right.frame outR { pNode with next := next }
  have found₁ : (lines.insert p { pNode with next := next }).lookup n = some node := by
    rw [AList.lookup_insert_ne ne]
    exact found
  have relinked₁ : DList.Relinked (l ++ [p] ++ n :: r) lines
      (lines.insert p { pNode with next := next }) :=
    .store (by simp) foundP rfl
  cases next with
  | none =>
      refine ⟨_, _, some p, set₁, rfl, ?_, found₁, relinked₁⟩
      have none_ := right₁.eq_nil
      subst none_
      rw [List.append_nil]
      exact left₁
  | some q =>
      -- the successor's predecessor
      cases r with
      | nil => cases right₁.1
      | cons q' r =>
          have same : q' = q := (Option.some.inj right₁.start_eq).symm
          subst same
          obtain ⟨qNode, foundQ, -⟩ := right₁.mem_lookup (n := q') List.mem_cons_self
          have freshQ : q' ∉ r := (List.nodup_cons.1 nodupRight.2).1
          have outL : q' ∉ l ++ [p] := fun member => apart q' member q' (by simp) rfl
          have ne' : n ≠ q' := fun same => nodupRight.1 (by simp [same])
          have set₂ := DList.Heap.setPrev_eq foundQ (some p)
          have left₂ := left₁.frame outL { qNode with prev := some p }
          have right₂ := right₁.setPrev_head (q := some p) freshQ foundQ
          refine ⟨_, _, last, set₁, set₂,
            DList.seg_append.2 ⟨some p, some q', left₂, right₂⟩, ?_, ?_⟩
          · rw [AList.lookup_insert_ne ne']
            exact found₁
          · exact relinked₁.trans (.store (by simp) foundQ rfl)

/-- The two stores that give a node outside a list its successor, and NULL for its
predecessor. -/
theorem link_spec {lines : Lines} {own before start last : Option Nat} {ns : List Nat} {n : Nat}
    {node : DList.Node (Option Nat) CacheLine} (out : n ∉ ns)
    (seg : DList.Seg lines own before start ns none last) (found : lines.lookup n = some node)
    (next : Option Nat) :
    ∃ lines₁ lines₂, lines.setNext n next = some lines₁ ∧ lines₁.setPrev n none = some lines₂ ∧
      lines₂.lookup n = some { node with next := next, prev := none } ∧
      DList.Seg lines₂ own before start ns none last ∧
      DList.Relinked (n :: ns) lines lines₂ := by
  let node₁ : DList.Node (Option Nat) CacheLine := { node with next := next }
  have set₁ : lines.setNext n next = some (lines.insert n node₁) := DList.Heap.setNext_eq found _
  have found₁ : (lines.insert n node₁).lookup n = some node₁ := AList.lookup_insert _
  have set₂ := DList.Heap.setPrev_eq found₁ none
  have relinked₁ : DList.Relinked (n :: ns) lines (lines.insert n node₁) :=
    .store List.mem_cons_self found rfl
  exact ⟨_, _, set₁, set₂, AList.lookup_insert _, (seg.frame out node₁).frame out _,
    relinked₁.trans (.store List.mem_cons_self found₁ rfl)⟩

/-- The three stores of `listMoveNodeToHead` that put a node in front. -/
theorem toFront_spec {lines : Lines} {own last : Option Nat} {ns : List Nat} {n o : Nat}
    {node : DList.Node (Option Nat) CacheLine} (nodup : (n :: o :: ns).Nodup)
    (seg : DList.Seg lines own none (some o) (o :: ns) none last)
    (found : lines.lookup n = some node) (owned : node.owner = own) :
    ∃ lines₁ lines₂ lines₃, lines.setNext n (some o) = some lines₁ ∧
      lines₁.setPrev n none = some lines₂ ∧ lines₂.setPrev o (some n) = some lines₃ ∧
      DList.Seg lines₃ own none (some n) (n :: o :: ns) none last ∧
      DList.Relinked (n :: o :: ns) lines lines₃ := by
  rw [List.nodup_cons] at nodup
  obtain ⟨out, nodupRest⟩ := nodup
  have freshO : o ∉ ns := (List.nodup_cons.1 nodupRest).1
  have ne : n ≠ o := fun same => out (by simp [same])
  obtain ⟨lines₁, lines₂, set₁, set₂, found₂, seg₂, relinked₂⟩ := link_spec out seg found (some o)
  obtain ⟨oNode, foundO, -⟩ := seg₂.mem_lookup (n := o) List.mem_cons_self
  have set₃ := DList.Heap.setPrev_eq foundO (some n)
  have seg₃ := seg₂.setPrev_head (q := some n) freshO foundO
  refine ⟨_, _, _, set₁, set₂, set₃,
    ⟨rfl, { node with next := some o, prev := none }, ?_, rfl, owned, seg₃⟩, ?_⟩
  · rw [AList.lookup_insert_ne ne]
    exact found₂
  · exact relinked₂.trans (.store (by simp) foundO rfl)

theorem Mem.setHead_self {m : Mem} {idx : Nat} {p : Option Nat}
    (head : (m.cacheSetArr idx).pHeadNode = p) : m.setHead idx p = m := by
  subst head
  unfold Mem.setHead
  rw [show ({ m.cacheSetArr idx with pHeadNode := (m.cacheSetArr idx).pHeadNode } : CacheSet) =
    m.cacheSetArr idx from rfl, Function.update_eq_self]

@[simp] theorem Mem.setHead_lines (m : Mem) (idx : Nat) (p : Option Nat) :
    (m.setHead idx p).lines = m.lines := rfl

@[simp] theorem Mem.setHead_head (m : Mem) (idx : Nat) (p : Option Nat) :
    ((m.setHead idx p).cacheSetArr idx).pHeadNode = p := by
  simp [Mem.setHead]

/-- The store of `listInsertHead` that gives the old head, if there is one, its
predecessor. -/
theorem linkHead_spec {lines : Lines} {own start last : Option Nat} {ns : List Nat} {n : Nat}
    {node : DList.Node (Option Nat) CacheLine} (nodup : ns.Nodup) (fresh : n ∉ ns)
    (seg : DList.Seg lines own none start ns none last) (found : lines.lookup n = some node) :
    ∃ lines₁ last₁,
      (match start with
        | some p => lines.setPrev p (some n)
        | none => some lines) = some lines₁ ∧
      DList.Seg lines₁ own (some n) start ns none last₁ ∧ lines₁.lookup n = some node ∧
      DList.Relinked (n :: ns) lines lines₁ := by
  cases ns with
  | nil =>
      rw [seg.1]
      exact ⟨lines, some n, rfl, ⟨rfl, rfl⟩, found, .refl _ _⟩
  | cons o ns =>
      have atHead := seg.start_eq
      rw [atHead] at seg ⊢
      obtain ⟨oNode, foundO, -⟩ := seg.mem_lookup (n := o) List.mem_cons_self
      refine ⟨_, last, DList.Heap.setPrev_eq foundO _,
        seg.setPrev_head (List.nodup_cons.1 nodup).1 foundO, ?_, .store (by simp) foundO rfl⟩
      rw [AList.lookup_insert_ne fun same => fresh (by simp [same])]
      exact found

/-- `listInsertHead` is cons. -/
theorem listInsertHead_spec {m : Mem} {idx n : Nat} {ns : List Nat}
    {node : DList.Node (Option Nat) CacheLine} (ok : SetOk m idx ns) (fresh : n ∉ ns)
    (found : m.lines.lookup n = some node) :
    ∃ lines, listInsertHead m idx n = some ({ m with lines := lines }.setHead idx (some n)) ∧
      SetOk ({ m with lines := lines }.setHead idx (some n)) idx (n :: ns) ∧
      DList.Relinked (n :: ns) m.lines lines := by
  obtain ⟨nodup, last, seg⟩ := ok
  obtain ⟨lines₁, last₁, set₁, seg₁, found₁, relinked₁⟩ := linkHead_spec nodup fresh seg found
  obtain ⟨lines₂, lines₃, set₂, set₃, found₃, seg₃, relinked₃⟩ :=
    link_spec fresh seg₁ found₁ (m.cacheSetArr idx).pHeadNode
  let linked : DList.Node (Option Nat) CacheLine :=
    { node with prev := none, next := (m.cacheSetArr idx).pHeadNode, owner := some idx }
  have set₄ : lines₃.setOwner n (some idx) = some (lines₃.insert n linked) :=
    DList.Heap.setOwner_eq found₃ _
  refine ⟨lines₃.insert n linked, ?_, ⟨List.nodup_cons.2 ⟨fresh, nodup⟩, last₁, ?_⟩,
    (relinked₁.trans relinked₃).trans (.store List.mem_cons_self found₃ rfl)⟩
  · unfold listInsertHead
    cases head : (m.cacheSetArr idx).pHeadNode with
    | none =>
        rw [head] at set₁ set₂
        cases set₁
        simp only [Option.bind_eq_bind, Option.bind_some, set₂, set₃, set₄]
    | some o =>
        rw [head] at set₁ set₂
        simp only [Option.bind_eq_bind, Option.bind_some, set₁, set₂, set₃, set₄]
  · rw [Mem.setHead_head]
    exact ⟨rfl, linked, AList.lookup_insert _, rfl, rfl, seg₃.frame fresh linked⟩

/-- `listMoveNodeToHead` moves a node to the front: from the head, the middle or
the tail. -/
theorem listMoveNodeToHead_spec {m : Mem} {idx : Nat} {l r : List Nat} {n : Nat}
    (ok : SetOk m idx (l ++ n :: r)) :
    ∃ lines, listMoveNodeToHead m n = some ({ m with lines := lines }.setHead idx (some n)) ∧
      SetOk ({ m with lines := lines }.setHead idx (some n)) idx (n :: (l ++ r)) ∧
      DList.Relinked (l ++ n :: r) m.lines lines := by
  obtain ⟨nodup, last, seg⟩ := id ok
  obtain ⟨middle, link, left, right⟩ := DList.seg_append.1 seg
  obtain ⟨rfl, node, found, prev, owner, rest⟩ := right
  have nodup' : (n :: (l ++ r)).Nodup := by
    rw [List.nodup_middle] at nodup
    exact nodup
  have out : n ∉ l ++ r := (List.nodup_cons.1 nodup').1
  unfold listMoveNodeToHead
  simp only [found, owner, Option.bind_eq_bind, Option.bind_some]
  rcases List.eq_nil_or_concat l with rfl | ⟨l, p, rfl⟩
  · -- at the head: nothing to do
    obtain ⟨atHead, rfl⟩ := left
    rw [if_pos atHead]
    refine ⟨m.lines, ?_, ?_, .refl _ _⟩
    · exact congrArg some (Mem.setHead_self atHead).symm
    · rw [Mem.setHead_self atHead]
      exact ok
  · rw [List.concat_eq_append] at *
    have isPrev : middle = some p := left.last_eq
    subst isPrev
    obtain ⟨o, rest', split_⟩ : ∃ o rest', l ++ [p] = o :: rest' :=
      List.exists_cons_of_ne_nil (by simp)
    have atHead : (m.cacheSetArr idx).pHeadNode = some o := by
      rw [split_] at left
      exact left.start_eq
    have notHead : (m.cacheSetArr idx).pHeadNode ≠ some n := by
      rw [atHead]
      rintro same
      cases same
      rw [split_] at out
      exact out (by simp)
    obtain ⟨lines₁, lines₂, last₂, set₁, set₂, seg₂, found₂, relinked₂⟩ :=
      unlink_spec nodup found left rest
    have split₂ : l ++ [p] ++ r = o :: (rest' ++ r) := by rw [split_, List.cons_append]
    rw [split₂, atHead] at seg₂
    rw [split₂] at nodup'
    obtain ⟨lines₃, lines₄, lines₅, set₃, set₄, set₅, seg₅, relinked₅⟩ :=
      toFront_spec nodup' seg₂ found₂ owner
    refine ⟨lines₅, ?_, ⟨?_, last₂, ?_⟩, relinked₂.trans (relinked₅.mono ?_)⟩
    · rw [if_neg notHead, prev, atHead]
      cases next : node.next with
      | none =>
          rw [next] at set₁ set₂
          cases set₂
          simp only [Option.bind_some, set₁, set₃, set₄, set₅]
      | some q =>
          rw [next] at set₁ set₂
          simp only [Option.bind_some, set₁, set₂, set₃, set₄, set₅]
    · rw [split₂]
      exact nodup'
    · rw [split₂, Mem.setHead_head]
      exact seg₅
    · rw [← split₂]
      intro k member
      simp only [List.mem_cons, List.mem_append] at member ⊢
      tauto

end CsappLab.Cache
