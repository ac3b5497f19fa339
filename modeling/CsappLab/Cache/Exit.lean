/-
# Cache.Exit — `exitFcn`

What the simulator releases when it exits (`csim.c`). The walk over a list keeps
`ppNode`, the address of the pointer to the next node: of the head of a set at
first, then of the `pNextNode` of the node it has just freed. The heap makes the
difference: a node that has been freed is not in it any more, and reading a field
of it is undefined.

So a list with a node in it cannot be walked (`freeLines_eq_none`), and `exitFcn`
is defined exactly where every head can be read and is null (`exitFcn_eq`). In the
states a run can exit from, these are the ones in which no line has been allocated:
the first access to allocate one leaves a list with a head, and no later access
takes it away (`cacheRun_headed`).
-/
import CsappLab.Cache.History

namespace CsappLab.Cache

set_option autoImplicit false

open CsappLab.Lib

/-! ## `exitFcn` -/

/-- What `calloc` has returned and `free` has not taken back; without a set array
`cacheSetArr` is null. -/
structure ExitMem where
  cacheSetArr : Option (Nat → CacheSet)
  lines : Lines

/-- The memory in which the program exits. -/
def exitMem : Option Mem → ExitMem
  | none => ⟨none, ∅⟩
  | some m => ⟨some m.cacheSetArr, m.lines⟩

/-- Where `ppNode` points. -/
inductive NodePtr where
  | pHeadNode (idx : Nat)
  | pNextNode (p : Nat)
  deriving DecidableEq, Repr

/-- The argument of a call of `free`. -/
inductive Block where
  | line (pLine : Nat)
  | cacheSetArr
  deriving DecidableEq, Repr

namespace ExitMem

/-- `*ppNode`. -/
def deref (m : ExitMem) : NodePtr → Option (Option Nat)
  | .pHeadNode idx => m.cacheSetArr.map fun cacheSetArr => (cacheSetArr idx).pHeadNode
  | .pNextNode p => (m.lines.lookup p).map (·.next)

/-- `free(pLine)`: the line must be allocated. -/
def free (m : ExitMem) (pLine : Nat) : Option ExitMem :=
  (m.lines.lookup pLine).map fun _ => { m with lines := m.lines.erase pLine }

end ExitMem

/-- `while (*ppNode)`, with the lines it frees. Each round frees a line, so that as
many rounds as there are lines are enough. -/
def freeLines : Nat → ExitMem → NodePtr → Option (List Nat × ExitMem)
  | 0, _, _ => none
  | fuel + 1, m, ppNode => do
      match ← m.deref ppNode with
      | none => some ([], m)
      | some pLine => do
          -- `ppNode` stays in the node that goes
          let m ← m.free pLine
          let (freed, m) ← freeLines fuel m (.pNextNode pLine)
          some (pLine :: freed, m)

/-- `for (i = 0; i < paramS; i++)`, over the values of `i`. -/
def freeSets : List Nat → ExitMem → Option (List Nat × ExitMem)
  | [], m => some ([], m)
  | i :: is, m => do
      let (freed, m) ← freeLines (m.lines.entries.length + 1) m (.pHeadNode i)
      let (rest, m) ← freeSets is m
      some (freed ++ rest, m)

/-- `exitFcn`, with its calls of `free`. -/
def exitFcn (pCache : CacheParams) (m : ExitMem) : Option (List Block × ExitMem) := do
  let (freed, m) ← freeSets (List.range pCache.paramS.toNat) m
  some (freed.map .line ++ [.cacheSetArr], { m with cacheSetArr := none })

/-- The states in which the program exits: the sets could not be allocated, a run is
over, or the access after it could not allocate a line. -/
inductive AtExit (calloc : Lines → Option Nat) (param_s paramE param_b : BitVec 32) :
    ExitMem → Prop
  | initialized (allocated : Bool) :
      AtExit calloc param_s paramE param_b
        (exitMem (cacheInitialize allocated param_s paramE param_b).2)
  | returned {pCache : CacheParams} {m₀ m : Mem} {addrs : List (BitVec 64)}
      {events : List (List Event)}
      (init : cacheInitialize true param_s paramE param_b = (pCache, some m₀))
      (ran : cacheRun pCache calloc m₀ addrs = some (events, m)) :
      AtExit calloc param_s paramE param_b (exitMem (some m))
  | exited {pCache : CacheParams} {m₀ m m' : Mem} {addrs : List (BitVec 64)} {addr : BitVec 64}
      {events : List (List Event)} {called : List Event}
      (init : cacheInitialize true param_s paramE param_b = (pCache, some m₀))
      (ran : cacheRun pCache calloc m₀ addrs = some (events, m))
      (stopped : cacheProcess pCache calloc m addr = some (.exited called m')) :
      AtExit calloc param_s paramE param_b (exitMem (some m'))

/-- Everything is released: no freed line is looked up, each line is freed once, and
then the set array is. -/
def ReleasesAll (pCache : CacheParams) (m : ExitMem) : Prop :=
  ∃ freed : List Nat, exitFcn pCache m = some (freed.map .line ++ [.cacheSetArr], ⟨none, ∅⟩) ∧
    freed.Nodup ∧ ∀ p, p ∈ freed ↔ ∃ node, m.lines.lookup p = some node

/-! ## Where it is defined -/

section

variable {m : ExitMem} {ppNode : NodePtr}

/-- Where there is a node, the second round reads a field of it after it is freed. -/
theorem freeLines_eq_none {p : Nat} (node : m.deref ppNode = some (some p)) (fuel : Nat) :
    freeLines fuel m ppNode = none := by
  cases fuel with
  | zero => rfl
  | succ fuel =>
      cases found : m.lines.lookup p with
      | none => simp [freeLines, node, ExitMem.free, found]
      | some line =>
          have gone : freeLines fuel { m with lines := m.lines.erase p } (.pNextNode p) = none := by
            cases fuel with
            | zero => rfl
            | succ fuel => simp [freeLines, ExitMem.deref]
          simp [freeLines, node, ExitMem.free, found, gone]

theorem freeSets_of_null {is : List Nat}
    (null : ∀ i ∈ is, m.deref (.pHeadNode i) = some none) : freeSets is m = some ([], m) := by
  induction is with
  | nil => rfl
  | cons i is ih =>
      have rest := ih fun j member => null j (List.mem_cons_of_mem _ member)
      simp [freeSets, freeLines, null i List.mem_cons_self, rest]

theorem freeSets_eq_none {is : List Nat} {i : Nat} (member : i ∈ is)
    (notNull : m.deref (.pHeadNode i) ≠ some none) : freeSets is m = none := by
  induction is with
  | nil => cases member
  | cons j is ih =>
      cases head : m.deref (.pHeadNode j) with
      | none => simp [freeSets, freeLines, head]
      | some pNode =>
          cases pNode with
          | some p => simp [freeSets, freeLines_eq_none head]
          | none =>
              have inRest : i ∈ is := by
                rcases List.mem_cons.1 member with rfl | inRest
                · exact absurd head notNull
                · exact inRest
              simp [freeSets, freeLines, head, ih inRest]

/-- `exitFcn` is defined where every head can be read and is null, and frees no line
there. -/
theorem exitFcn_eq (pCache : CacheParams) (m : ExitMem) :
    exitFcn pCache m =
      if ∀ i < pCache.paramS.toNat, m.deref (.pHeadNode i) = some none then
        some ([.cacheSetArr], { m with cacheSetArr := none })
      else none := by
  by_cases null : ∀ i < pCache.paramS.toNat, m.deref (.pHeadNode i) = some none
  · have walked := freeSets_of_null fun i member => null i (List.mem_range.1 member)
    rw [if_pos null]
    simp [exitFcn, walked]
  · rw [if_neg null]
    push Not at null
    obtain ⟨i, less, notNull⟩ := null
    simp [exitFcn, freeSets_eq_none (List.mem_range.2 less) notNull]

theorem releasesAll_iff {pCache : CacheParams} :
    ReleasesAll pCache m ↔
      m.lines = ∅ ∧ ∀ i < pCache.paramS.toNat, m.deref (.pHeadNode i) = some none := by
  constructor
  · rintro ⟨freed, released, -⟩
    rw [exitFcn_eq] at released
    by_cases null : ∀ i < pCache.paramS.toNat, m.deref (.pHeadNode i) = some none
    · rw [if_pos null] at released
      have after := congrArg (fun result => result.map fun r => r.2.lines) released
      exact ⟨by simpa using after, null⟩
    · rw [if_neg null] at released
      cases released
  · rintro ⟨noLines, null⟩
    refine ⟨[], ?_, List.nodup_nil, ?_⟩
    · rw [exitFcn_eq, if_pos null, noLines]
      rfl
    · intro p
      simp [noLines]

end

/-! ## The states of a run -/

/-- Lines have been allocated, and some set of the array has one. -/
structure Headed (S : Nat) (m : Mem) : Prop where
  lines : m.lines ≠ ∅
  head : ∃ idx < S, (m.cacheSetArr idx).pHeadNode ≠ none

/-- No line has been allocated. -/
structure Untouched (m : Mem) : Prop where
  lines : m.lines = ∅
  null : ∀ idx, (m.cacheSetArr idx).pHeadNode = none

section

variable {pCache : CacheParams} {calloc : Lines → Option Nat} {S : Nat} {m m' : Mem}
  {lines lines' : Lines}

theorem ne_empty_of_lookup {p : Nat} {node : DList.Node (Option Nat) CacheLine}
    (found : lines.lookup p = some node) : lines ≠ ∅ := by
  rintro rfl
  cases found

theorem setPrev_ne_empty {p : Nat} {q : Option Nat} (stored : lines.setPrev p q = some lines') :
    lines' ≠ ∅ := by
  obtain ⟨node, -, rfl⟩ := Option.map_eq_some_iff.1 stored
  exact ne_empty_of_lookup (AList.lookup_insert _)

theorem setOwner_ne_empty {p : Nat} {pList : Option Nat}
    (stored : lines.setOwner p pList = some lines') : lines' ≠ ∅ := by
  obtain ⟨node, -, rfl⟩ := Option.map_eq_some_iff.1 stored
  exact ne_empty_of_lookup (AList.lookup_insert _)

theorem Headed.setHead (headed : Headed S m) (nonempty : lines ≠ ∅) (pList p : Nat) :
    Headed S ({ m with lines := lines }.setHead pList (some p)) := by
  obtain ⟨-, idx, less, head⟩ := headed
  refine ⟨nonempty, idx, less, ?_⟩
  by_cases same : idx = pList
  · subst same
    simp
  · rw [Mem.setHead_other _ _ same]
    exact head

/-- Moving a node leaves a list with a head, whichever list the node is in. -/
theorem Headed.listMoveNodeToHead {p : Nat} (headed : Headed S m)
    (moved : listMoveNodeToHead m p = some m') : Headed S m' := by
  unfold Cache.listMoveNodeToHead at moved
  simp only [Option.bind_eq_bind, Option.bind_eq_some_iff] at moved
  obtain ⟨node, -, pList, -, moved⟩ := moved
  by_cases first : (m.cacheSetArr pList).pHeadNode = some p
  · rw [if_pos first] at moved
    cases moved
    exact headed
  · rw [if_neg first] at moved
    -- with and without a node after it, the last store is that of the old head
    cases next : node.next with
    | none =>
        simp only [next, Option.bind_some, Option.bind_eq_some_iff] at moved
        obtain ⟨_, _, _, _, _, _, _, _, _, _, lines, stored, moved⟩ := moved
        cases moved
        exact headed.setHead (setPrev_ne_empty stored) pList p
    | some q =>
        simp only [next, Option.bind_eq_some_iff] at moved
        obtain ⟨_, _, _, _, _, _, _, _, _, _, _, _, lines, stored, moved⟩ := moved
        cases moved
        exact headed.setHead (setPrev_ne_empty stored) pList p

theorem listInsertHead_headed {idx p : Nat} (less : idx < S)
    (inserted : listInsertHead m idx p = some m') : Headed S m' := by
  unfold listInsertHead at inserted
  cases head : (m.cacheSetArr idx).pHeadNode with
  | none =>
      simp only [head, Option.bind_eq_bind, Option.bind_some, Option.bind_eq_some_iff] at inserted
      obtain ⟨_, _, _, _, lines, stored, inserted⟩ := inserted
      cases inserted
      exact ⟨setOwner_ne_empty stored, idx, less, by simp⟩
  | some q =>
      simp only [head, Option.bind_eq_bind, Option.bind_eq_some_iff] at inserted
      obtain ⟨_, _, _, _, _, _, lines, stored, inserted⟩ := inserted
      cases inserted
      exact ⟨setOwner_ne_empty stored, idx, less, by simp⟩

/-- A full set has a tail to reuse, so it has a list. -/
theorem recycleLine_headed {idx : Nat} {tag : BitVec 64} {called : List Event} (less : idx < S)
    (recycled : recycleLine m idx tag = some (.returned called m')) : Headed S m' := by
  unfold recycleLine at recycled
  simp only [Option.bind_eq_bind, Option.bind_eq_some_iff] at recycled
  obtain ⟨pTailNode, tail, p, nonnull, lines, stored, moved, moves, returned⟩ := recycled
  cases returned
  have headed : Headed S { m with lines := lines } := by
    obtain ⟨node, -, rfl⟩ := Option.map_eq_some_iff.1 stored
    refine ⟨ne_empty_of_lookup (AList.lookup_insert _), idx, less, ?_⟩
    intro null
    change (m.cacheSetArr idx).pHeadNode = none at null
    unfold listFindTailNode at tail
    rw [null] at tail
    cases tail
    cases nonnull
  exact headed.listMoveNodeToHead moves

theorem addLine_headed {idx : Nat} {tag : BitVec 64} {called : List Event} (less : idx < S)
    (added : addLine calloc m idx tag = some (.returned called m')) : Headed S m' := by
  unfold addLine at added
  cases allocated : calloc m.lines with
  | none =>
      rw [allocated] at added
      cases added
  | some p =>
      rw [allocated] at added
      simp only [Option.bind_eq_bind, Option.bind_eq_some_iff] at added
      obtain ⟨moved, inserts, returned⟩ := added
      cases returned
      exact listInsertHead_headed less inserts

/-- What an access does: it finds its line, or adds one where there is room, or reuses
one. -/
theorem cacheProcess_cases {addr : BitVec 64} {outcome : Outcome}
    (processed : cacheProcess pCache calloc m addr = some outcome) :
    let cacheSet := m.cacheSetArr (setIdx pCache addr).toNat
    let search := findLine m.lines (tagOf pCache addr) (m.lines.entries.length + 1)
      cacheSet.pHeadNode
    (setIdx pCache addr).toNat < pCache.paramS.toNat ∧
      ((∃ p moved, search = some (some p) ∧ listMoveNodeToHead m p = some moved ∧
          outcome = .returned [.hit] moved) ∨
        (search = some none ∧ cacheSet.lineCnt < pCache.paramE ∧
          addLine calloc m (setIdx pCache addr).toNat (tagOf pCache addr) = some outcome) ∨
        (search = some none ∧ ¬ cacheSet.lineCnt < pCache.paramE ∧
          recycleLine m (setIdx pCache addr).toNat (tagOf pCache addr) = some outcome)) := by
  intro cacheSet search
  unfold cacheProcess at processed
  by_cases outside : pCache.paramS.toNat ≤ (setIdx pCache addr).toNat
  · simp [outside] at processed
  · simp only [if_neg outside, Option.bind_eq_bind, Option.bind_eq_some_iff] at processed
    obtain ⟨pIdxNode, found, processed⟩ := processed
    refine ⟨Nat.lt_of_not_le outside, ?_⟩
    cases pIdxNode with
    | some p =>
        obtain ⟨moved, moves, returned⟩ := Option.map_eq_some_iff.1 processed
        exact .inl ⟨p, moved, found, moves, returned.symm⟩
    | none =>
        by_cases room : cacheSet.lineCnt < pCache.paramE
        · simp only [cacheSet, if_pos room] at processed
          exact .inr (.inl ⟨found, room, processed⟩)
        · simp only [cacheSet, if_neg room] at processed
          exact .inr (.inr ⟨found, room, processed⟩)

/-- An access that returns has allocated a line, or one was there already. -/
theorem cacheProcess_headed {addr : BitVec 64} {called : List Event}
    (state : Untouched m ∨ Headed pCache.paramS.toNat m)
    (processed : cacheProcess pCache calloc m addr = some (.returned called m')) :
    Headed pCache.paramS.toNat m' := by
  obtain ⟨less, ⟨p, moved, search, moves, returned⟩ | ⟨-, -, added⟩ | ⟨-, -, recycled⟩⟩ :=
    cacheProcess_cases processed
  · cases returned
    rcases state with ⟨-, null⟩ | headed
    · rw [null] at search
      cases search
    · exact headed.listMoveNodeToHead moves
  · exact addLine_headed less added
  · exact recycleLine_headed less recycled

/-- An access that exits has changed nothing. -/
theorem cacheProcess_exited {addr : BitVec 64} {called : List Event}
    (stopped : cacheProcess pCache calloc m addr = some (.exited called m')) : m' = m := by
  obtain ⟨-, ⟨p, moved, -, -, returned⟩ | ⟨-, -, added⟩ | ⟨-, -, recycled⟩⟩ :=
    cacheProcess_cases stopped
  · cases returned
  · unfold addLine at added
    cases allocated : calloc m.lines with
    | none =>
        rw [allocated] at added
        cases added
        rfl
    | some p =>
        rw [allocated] at added
        simp [Option.bind_eq_some_iff] at added
  · simp [recycleLine, Option.bind_eq_some_iff] at recycled

/-- A run that returns has left a line, unless it is empty. -/
theorem cacheRun_headed {addrs : List (BitVec 64)} {events : List (List Event)}
    (state : Untouched m ∨ Headed pCache.paramS.toNat m)
    (ran : cacheRun pCache calloc m addrs = some (events, m')) :
    Untouched m' ∨ Headed pCache.paramS.toNat m' := by
  induction addrs generalizing m events with
  | nil =>
      cases ran
      exact state
  | cons addr addrs ih =>
      unfold cacheRun at ran
      simp only [Option.bind_eq_bind, Option.bind_eq_some_iff] at ran
      obtain ⟨outcome, processed, ran⟩ := ran
      cases outcome with
      | exited called m₁ => cases ran
      | returned called m₁ =>
          simp only [Option.bind_eq_some_iff] at ran
          obtain ⟨rest, ran, together⟩ := ran
          cases together
          exact ih (.inr (cacheProcess_headed state processed)) ran

end

/-- Where the program can exit with its sets, either no line has been allocated or a set
has a line. -/
theorem AtExit.cases {calloc : Lines → Option Nat} {param_s paramE param_b : BitVec 32}
    {m : ExitMem} (atExit : AtExit calloc param_s paramE param_b m) :
    m = exitMem none ∨ ∃ mem, m = exitMem (some mem) ∧
      (Untouched mem ∨ Headed (cacheParams param_s paramE param_b).paramS.toNat mem) := by
  have start : Untouched ⟨fun _ => ⟨none, 0⟩, ∅⟩ := ⟨rfl, fun _ => rfl⟩
  cases atExit with
  | initialized allocated =>
      cases allocated with
      | false => exact .inl rfl
      | true => exact .inr ⟨_, rfl, .inl start⟩
  | returned init ran =>
      cases init
      exact .inr ⟨_, rfl, cacheRun_headed (.inl start) ran⟩
  | exited init ran stopped =>
      cases init
      have same := cacheProcess_exited stopped
      subst same
      exact .inr ⟨_, rfl, cacheRun_headed (.inl start) ran⟩

/-- **What `exitFcn` releases.** Wherever the program exits, all memory is released if
and only if no line has been allocated and the set array has been, or there are no
sets. -/
theorem releasesAll_atExit_iff {calloc : Lines → Option Nat} {param_s paramE param_b : BitVec 32}
    {m : ExitMem} (atExit : AtExit calloc param_s paramE param_b m) :
    ReleasesAll (cacheParams param_s paramE param_b) m ↔
      m.lines = ∅ ∧ (m.cacheSetArr ≠ none ∨ (cacheParams param_s paramE param_b).paramS = 0) := by
  rw [releasesAll_iff]
  refine and_congr_right fun noLines => ?_
  rcases atExit.cases with rfl | ⟨mem, rfl, state⟩
  · constructor
    · intro null
      right
      by_contra nonzero
      have some_ : 0 < (cacheParams param_s paramE param_b).paramS.toNat := by
        rw [Nat.pos_iff_ne_zero]
        exact fun zero => nonzero (BitVec.eq_of_toNat_eq zero)
      cases null 0 some_
    · intro array i less
      rcases array with array | zero
      · exact absurd rfl array
      · rw [zero] at less
        cases less
  · constructor
    · exact fun _ => .inl (Option.some_ne_none _)
    · intro _ i less
      rcases state with untouched | headed
      · simp [exitMem, ExitMem.deref, untouched.null]
      · exact absurd noLines headed.lines

/-- The first access could not allocate its line. -/
theorem releasesAll_atExit_iff_no_line :
    ReleasesAll (cacheParams 1 1 1) (exitMem (some ⟨fun _ => ⟨none, 0⟩, ∅⟩)) := by
  have atExit : AtExit (fun _ => none) 1 1 1 (exitMem (some ⟨fun _ => ⟨none, 0⟩, ∅⟩)) :=
    @AtExit.exited _ 1 1 1 _ _ _ _ [] 0 [] [.miss] rfl rfl rfl
  exact (releasesAll_atExit_iff atExit).2 ⟨rfl, .inl (Option.some_ne_none _)⟩

/-- One line has been allocated, or the sets have not been: `exitFcn` is undefined. -/
theorem exitFcn_one_line :
    (∃ m, cacheRun (cacheParams 1 1 1) callocNext ⟨fun _ => ⟨none, 0⟩, ∅⟩ [0] =
        some ([[.miss]], m) ∧ AtExit callocNext 1 1 1 (exitMem (some m)) ∧
      exitFcn (cacheParams 1 1 1) (exitMem (some m)) = none ∧
      ¬ ReleasesAll (cacheParams 1 1 1) (exitMem (some m))) ∧
    AtExit callocNext 1 1 1 (exitMem none) ∧
      ¬ ReleasesAll (cacheParams 1 1 1) (exitMem none) := by
  have undefined : ∀ m, exitFcn (cacheParams 1 1 1) m = none →
      ¬ ReleasesAll (cacheParams 1 1 1) m := by
    rintro m no ⟨freed, released, -⟩
    rw [no] at released
    cases released
  constructor
  · obtain ⟨m, ran, no⟩ : ∃ m, cacheRun (cacheParams 1 1 1) callocNext
        ⟨fun _ => ⟨none, 0⟩, ∅⟩ [0] = some ([[.miss]], m) ∧
        exitFcn (cacheParams 1 1 1) (exitMem (some m)) = none := ⟨_, rfl, rfl⟩
    exact ⟨m, ran, .returned rfl ran, no, undefined _ no⟩
  · exact ⟨.initialized false, undefined _ rfl⟩

end CsappLab.Cache
