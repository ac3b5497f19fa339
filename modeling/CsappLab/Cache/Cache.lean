/-
# Cache.Cache — the cache simulator

`cache.c` and the list macros of `csim.h`. Line nodes live on a heap
(`Lib.DList`); a node's `prev`, `next` and `owner` are the source's `pPrevNode`,
`pNextNode` and `pList`, its value is the rest of `cacheLine_t`. A list is
referred to by the index of its set, an address of the heap by its number; the
null pointer is `none`.

`none` as a result is undefined behaviour: a null or dangling pointer is
dereferenced, an index is out of range, or a loop does not end within as many
rounds as there are nodes. `calloc` is a parameter, from the nodes allocated so
far to a new address or null.

Masks and shifts are those of the source: `uint` is 32 bits wide, so that
`setIndexMask` is shifted in 32 bits before it is widened to 64.
-/
import CsappLab.Lib.DList

namespace CsappLab.Cache

set_option autoImplicit false

open CsappLab.Lib

/-- `cacheLine_t` without its node. -/
structure CacheLine where
  valid : Bool
  tag : BitVec 64
  deriving DecidableEq, Repr

/-- The line nodes. -/
abbrev Lines : Type := DList.Heap (Option Nat) CacheLine

/-- `cacheSet_t`: the head of `lineList`, and `lineCnt`. -/
structure CacheSet where
  pHeadNode : Option Nat
  lineCnt : BitVec 32
  deriving DecidableEq, Repr

/-- `cache_t` without `cacheSetArr`. -/
structure CacheParams where
  param_s : BitVec 32
  paramS : BitVec 32
  paramE : BitVec 32
  param_b : BitVec 32
  paramB : BitVec 32
  setIndexMask : BitVec 64
  blockOffsetMask : BitVec 64
  tagMask : BitVec 64
  deriving DecidableEq, Repr

/-- What `calloc` has returned: the sets and the lines. -/
structure Mem where
  cacheSetArr : Nat → CacheSet
  lines : Lines

/-- The callbacks. -/
inductive Event where
  | hit
  | miss
  | eviction
  deriving DecidableEq, Repr

/-- How `cacheProcess` ends. -/
inductive Outcome where
  | returned (events : List Event) (m : Mem)
  | exited (events : List Event) (m : Mem)

/-! ## `cacheInitialize` -/

/-- The parameters `cacheInitialize` stores. In C the shifts of the `int` 1 by 31 and more,
and of a `uint` by 32 and more, are undefined: what stands here for such widths, 0 where every
bit is shifted out, is no result of the program. -/
def cacheParams (param_s paramE param_b : BitVec 32) : CacheParams :=
  let paramB : BitVec 32 := (1 : BitVec 32) <<< param_b
  let paramS : BitVec 32 := (1 : BitVec 32) <<< param_s
  let blockOffsetMask : BitVec 64 := (paramB - 1).setWidth 64
  let setIndexMask : BitVec 64 := ((paramS - 1) <<< param_b).setWidth 64
  { param_s, paramS, paramE, param_b, paramB, setIndexMask, blockOffsetMask
    tagMask := ~~~(blockOffsetMask ||| setIndexMask) }

/-- `cacheInitialize`. `allocated` is that the `calloc` of the sets succeeds; if
it does not, the program exits. -/
def cacheInitialize (allocated : Bool) (param_s paramE param_b : BitVec 32) :
    CacheParams × Option Mem :=
  (cacheParams param_s paramE param_b,
    if allocated then some ⟨fun _ => ⟨none, 0⟩, ∅⟩ else none)

/-! ## The list macros -/

namespace Mem

/-- `pList->pHeadNode = p`. -/
def setHead (m : Mem) (pList : Nat) (p : Option Nat) : Mem :=
  { m with
    cacheSetArr := Function.update m.cacheSetArr pList
      { m.cacheSetArr pList with pHeadNode := p } }

end Mem

/-- `listInsertHead`. -/
def listInsertHead (m : Mem) (pList pNewNode : Nat) : Option Mem := do
  let pTmpNode := (m.cacheSetArr pList).pHeadNode
  let lines ←
    match pTmpNode with
    | some p => m.lines.setPrev p (some pNewNode)
    | none => some m.lines
  let lines ← lines.setNext pNewNode pTmpNode
  let lines ← lines.setPrev pNewNode none
  let lines ← lines.setOwner pNewNode (some pList)
  some ({ m with lines := lines }.setHead pList (some pNewNode))

/-- `listMoveNodeToHead`. -/
def listMoveNodeToHead (m : Mem) (pNode : Nat) : Option Mem := do
  let node ← m.lines.lookup pNode
  let pList ← node.owner
  let pOriginHead := (m.cacheSetArr pList).pHeadNode
  if pOriginHead = some pNode then some m
  else do
    let pTmpPrevNode ← node.prev
    let lines ← m.lines.setNext pTmpPrevNode node.next
    let lines ←
      match node.next with
      | some pTmpNextNode => lines.setPrev pTmpNextNode (some pTmpPrevNode)
      | none => some lines
    let lines ← lines.setNext pNode pOriginHead
    let lines ← lines.setPrev pNode none
    let originHead ← pOriginHead
    let lines ← lines.setPrev originHead (some pNode)
    some ({ m with lines := lines }.setHead pList (some pNode))

/-- The loop of `listFindTailNode`, from the node `p`. -/
def findTailFrom (lines : Lines) : Nat → Nat → Option Nat
  | 0, _ => none
  | fuel + 1, p => do
      let node ← lines.lookup p
      match node.next with
      | some q => findTailFrom lines fuel q
      | none => some p

/-- `listFindTailNode`: the tail, or null for an empty list. -/
def listFindTailNode (m : Mem) (pList : Nat) : Option (Option Nat) :=
  match (m.cacheSetArr pList).pHeadNode with
  | none => some none
  | some p => (findTailFrom m.lines (m.lines.entries.length + 1) p).map some

/-! ## `cacheProcess` -/

/-- The index of an address's set. -/
def setIdx (pCache : CacheParams) (addr : BitVec 64) : BitVec 64 :=
  (addr &&& pCache.setIndexMask) >>> pCache.param_b

/-- The tag of an address. -/
def tagOf (pCache : CacheParams) (addr : BitVec 64) : BitVec 64 :=
  (addr &&& pCache.tagMask) >>> (pCache.param_b + pCache.param_s)

/-- The search for the line with the tag, from the node `pIdxNode`. -/
def findLine (lines : Lines) (tag : BitVec 64) : Nat → Option Nat → Option (Option Nat)
  | 0, _ => none
  | _ + 1, none => some none
  | fuel + 1, some pIdxNode => do
      let node ← lines.lookup pIdxNode
      if tag = node.val.tag then some (some pIdxNode) else findLine lines tag fuel node.next

/-- A miss in a set with space for a new line. -/
def addLine (calloc : Lines → Option Nat) (m : Mem) (idx : Nat) (tag : BitVec 64) :
    Option Outcome :=
  match calloc m.lines with
  | none => some (.exited [.miss] m)
  | some pTmpLine => do
      let cacheSet := m.cacheSetArr idx
      let lines := m.lines.insert pTmpLine
        { prev := none, next := none, owner := none, val := ⟨true, tag⟩ }
      let m ← listInsertHead
        { cacheSetArr := Function.update m.cacheSetArr idx
            { cacheSet with lineCnt := cacheSet.lineCnt + 1 }
          lines := lines } idx pTmpLine
      some (.returned [.miss] m)

/-- A miss in a full set: the tail is the line to reuse. -/
def recycleLine (m : Mem) (idx : Nat) (tag : BitVec 64) : Option Outcome := do
  let pTailNode ← listFindTailNode m idx
  let p ← pTailNode
  let lines ← m.lines.setVal p ⟨true, tag⟩
  let m ← listMoveNodeToHead { m with lines := lines } p
  some (.returned [.miss, .eviction] m)

/-- `cacheProcess` on the address of a memory operation. -/
def cacheProcess (pCache : CacheParams) (calloc : Lines → Option Nat) (m : Mem)
    (addr : BitVec 64) : Option Outcome :=
  let idx := (setIdx pCache addr).toNat
  let tag := tagOf pCache addr
  -- the array has `paramS` elements
  if pCache.paramS.toNat ≤ idx then none
  else do
    let pIdxNode ← findLine m.lines tag (m.lines.entries.length + 1)
      (m.cacheSetArr idx).pHeadNode
    match pIdxNode with
    | some p => (listMoveNodeToHead m p).map (.returned [.hit])
    | none =>
        if (m.cacheSetArr idx).lineCnt < pCache.paramE then addLine calloc m idx tag
        else recycleLine m idx tag

/-- A sequence of accesses; the events are listed access by access. The run
stops with `none` when the program exits. -/
def cacheRun (pCache : CacheParams) (calloc : Lines → Option Nat) (m : Mem) :
    List (BitVec 64) → Option (List (List Event) × Mem)
  | [] => some ([], m)
  | addr :: addrs => do
      match ← cacheProcess pCache calloc m addr with
      | .exited _ _ => none
      | .returned events m => do
          let (rest, m) ← cacheRun pCache calloc m addrs
          some (events :: rest, m)

/-- The tags of a list of lines, from the node `p` on. -/
def tagsFrom (lines : Lines) : Nat → Option Nat → Option (List (BitVec 64))
  | _, none => some []
  | 0, some _ => none
  | fuel + 1, some p => do
      let node ← lines.lookup p
      let tags ← tagsFrom lines fuel node.next
      some (node.val.tag :: tags)

/-- The tags of a set, read from the head of its list to the tail. -/
def setTags (m : Mem) (idx : Nat) : Option (List (BitVec 64)) :=
  tagsFrom m.lines m.lines.entries.length (m.cacheSetArr idx).pHeadNode

end CsappLab.Cache
