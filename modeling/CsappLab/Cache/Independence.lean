/-
# Cache.Independence — sets do not see each other's accesses

An access works on the set of its address: in terms of the tags of all sets it is an
action on one of them (`Lib.Independent`), and what it calls depends on that set alone.
So accesses to different sets may be done in any order.
-/
import CsappLab.Cache.History
import CsappLab.Lib.Independent

namespace CsappLab.Cache

set_option autoImplicit false

open CsappLab.Lib

section

variable (pCache : CacheParams)

/-- The set of an address. -/
def setKey (addr : BitVec 64) : Nat :=
  (setIdx pCache addr).toNat

/-- An access is an action on its set. -/
theorem access_eq_actOn :
    access pCache =
      actOn (setKey pCache) fun tags addr => touch pCache.paramE.toNat tags (tagOf pCache addr) :=
  rfl

/-- The calls of a run are what its accesses put out. -/
theorem runEvents_eq_outputs (all : Nat → List (BitVec 64)) (addrs : List (BitVec 64)) :
    runEvents pCache all addrs =
      outputs (setKey pCache)
        (fun tags addr => touch pCache.paramE.toNat tags (tagOf pCache addr))
        (fun tags addr => accessEvents pCache.paramE.toNat tags (tagOf pCache addr)) all addrs := by
  induction addrs generalizing all with
  | nil => rfl
  | cons addr addrs ih =>
      unfold runEvents outputs
      rw [ih]
      rfl

/-- Two access sequences that are the same for each set. -/
theorem SameOrder.access {as bs : List (BitVec 64)} (same : SameOrder (setKey pCache) as bs)
    (all : Nat → List (BitVec 64)) :
    as.foldl (access pCache) all = bs.foldl (access pCache) all ∧
      (runEvents pCache all as).Perm (runEvents pCache all bs) := by
  rw [runEvents_eq_outputs, runEvents_eq_outputs, access_eq_actOn]
  exact same.run all

end

/-- Set `idx` is the same in both: its tags in order, and its count. -/
structure SameSet (m m' : Mem) (idx : Nat) : Prop where
  tags : ∃ tags, setTags m idx = some tags ∧ setTags m' idx = some tags
  count : (m.cacheSetArr idx).lineCnt = (m'.cacheSetArr idx).lineCnt

theorem Holds.sameSet {E : Nat} {m m' : Mem} {all : Nat → List (BitVec 64)}
    (holds : Holds E m all) (holds' : Holds E m' all) (idx : Nat) : SameSet m m' idx := by
  refine ⟨⟨all idx, holds.setTags idx, holds'.setTags idx⟩, ?_⟩
  obtain ⟨ns, set⟩ := holds idx
  obtain ⟨ns', set'⟩ := holds' idx
  apply BitVec.eq_of_toNat_eq
  rw [set.count, set'.count]

/-- **The sets are independent.** Two access sequences that have the same accesses to each
set, in the same order, lead to the same hits, misses and evictions and to the same sets,
wherever the lines are allocated. -/
theorem cacheRun_sameOrder {param_s paramE param_b : BitVec 32}
    {calloc calloc' : Lines → Option Nat} (allocates : Allocates calloc)
    (allocates' : Allocates calloc') (range : InRange param_s param_b)
    (positive : 1 ≤ paramE.toNat) {as bs : List (BitVec 64)}
    (same : SameOrder (setKey (cacheParams param_s paramE param_b)) as bs) :
    ∃ pCache m₀ events events' m m',
      cacheInitialize true param_s paramE param_b = (pCache, some m₀) ∧
      cacheRun pCache calloc m₀ as = some (events, m) ∧
      cacheRun pCache calloc' m₀ bs = some (events', m') ∧
      (∀ event : Event, events.flatten.count event = events'.flatten.count event) ∧
      ∀ idx < 2 ^ param_s.toNat, SameSet m m' idx := by
  obtain ⟨m, ran, holds⟩ := cacheRun_start allocates range.widths positive as
  obtain ⟨m', ran', holds'⟩ := cacheRun_start allocates' range.widths positive bs
  obtain ⟨state, calls⟩ := SameOrder.access (cacheParams param_s paramE param_b) same fun _ => []
  rw [← state] at holds'
  refine ⟨_, _, _, _, m, m', rfl, ran, ran', ?_, fun idx _ => holds.sameSet holds' idx⟩
  exact fun event => calls.flatten.count_eq event

/-- Set 0, set 1 and set 0 again, or set 1 last. -/
theorem cacheRun_sameOrder_two_sets :
    ∃ events events' m m', cacheRun (cacheParams 1 1 1) callocNext ⟨fun _ => ⟨none, 0⟩, ∅⟩
        [0, 2, 4] = some (events, m) ∧
      cacheRun (cacheParams 1 1 1) callocNext ⟨fun _ => ⟨none, 0⟩, ∅⟩ [0, 4, 2] =
        some (events', m') ∧ SameSet m m' 0 ∧ SameSet m m' 1 := by
  have same : SameOrder (setKey (cacheParams 1 1 1)) [0, 2, 4] [0, 4, 2] :=
    sameOrder_swap (by decide) [0] []
  obtain ⟨_, _, events, events', m, m', init, ran, ran', -, sets⟩ :=
    cacheRun_sameOrder allocates_callocNext allocates_callocNext
      inRange_one (by decide : 1 ≤ (1 : BitVec 32).toNat) same
  cases init
  exact ⟨events, events', m, m', ran, ran', sets 0 (by decide), sets 1 (by decide)⟩

end CsappLab.Cache
