/-
# Cache.History — what a run does, read off the accesses before it

From `cacheInitialize` on, whatever the addresses: at every point a set holds the
`E` most recently used of the tags that mapped to it, and the next access calls
what the history of its set says (`cacheRun_history`).
-/
import CsappLab.Cache.Address
import CsappLab.Cache.Lru

namespace CsappLab.Cache

set_option autoImplicit false

open CsappLab.Lib

/-- The tag has been used, and fewer than `E` distinct others since. -/
def UsedRecently (E : Nat) (h : List (BitVec 64)) (tag : BitVec 64) : Prop :=
  ∃ before since, h = before ++ tag :: since ∧ tag ∉ since ∧ since.dedup.length < E

/-- The calls of an access, in terms of the tags its set has seen. -/
structure Calls (E : Nat) (h : List (BitVec 64)) (tag : BitVec 64) (called : List Event) :
    Prop where
  hit : Event.hit ∈ called ↔ UsedRecently E h tag
  miss : Event.miss ∈ called ↔ ¬ UsedRecently E h tag
  eviction : Event.eviction ∈ called ↔ ¬ UsedRecently E h tag ∧ E ≤ h.dedup.length
  once : called.Nodup

theorem calls_accessEvents (E : Nat) (h : List (BitVec 64)) (tag : BitVec 64) :
    Calls E h tag (accessEvents E ((recency h).take E) tag) := by
  rw [accessEvents_recency]
  have recent : tag ∈ (recency h).take E ↔ UsedRecently E h tag := mem_take_recency_iff
  by_cases member : tag ∈ (recency h).take E
  · have used := recent.1 member
    rw [if_pos member]
    constructor <;> simp [used]
  · have unused : ¬ UsedRecently E h tag := fun used => member (recent.2 used)
    rw [if_neg member]
    by_cases many : E ≤ h.dedup.length
    · rw [if_pos many]
      constructor <;> simp [unused, many]
    · rw [if_neg many]
      constructor <;> simp [unused, many]

section Run

variable {param_s paramE param_b : BitVec 32} {calloc : Lines → Option Nat}

/-- A run from `cacheInitialize`. -/
theorem cacheRun_start (allocates : Allocates calloc) (widths : Widths param_s param_b)
    (positive : 1 ≤ paramE.toNat) (addrs : List (BitVec 64)) :
    ∃ m, cacheRun (cacheParams param_s paramE param_b) calloc ⟨fun _ => ⟨none, 0⟩, ∅⟩ addrs =
        some (runEvents (cacheParams param_s paramE param_b) (fun _ => []) addrs, m) ∧
      Holds paramE.toNat m
        (addrs.foldl (access (cacheParams param_s paramE param_b)) fun _ => []) := by
  have positive' : 0 < (cacheParams param_s paramE param_b).paramE.toNat := positive
  exact cacheRun_spec allocates positive' (setIdx_inArray paramE widths) (holds_empty _) addrs

/-- **A least-recently-used cache.** At every point of a run each set's list holds
the `E` most recently used tags in order of use, and the next access's calls
depend on its set's history alone. -/
theorem cacheRun_history (allocates : Allocates calloc) (range : InRange param_s param_b)
    (positive : 1 ≤ paramE.toNat) (addrs : List (BitVec 64)) :
    ∃ pCache m₀, ∃ events : List (List Event),
      cacheInitialize true param_s paramE param_b = (pCache, some m₀) ∧
      events.length = addrs.length ∧
      ∀ pre rest, addrs = pre ++ rest →
        (∃ m, cacheRun pCache calloc m₀ pre = some (events.take pre.length, m) ∧
          ∀ idx < 2 ^ param_s.toNat,
            setTags m idx = some ((recency (history pCache pre idx)).take paramE.toNat)) ∧
        ∀ addr ∈ rest.head?, ∃ called, events[pre.length]? = some called ∧
          Calls paramE.toNat (history pCache pre (setIdx pCache addr).toNat) (tagOf pCache addr)
            called := by
  refine ⟨_, _, runEvents (cacheParams param_s paramE param_b) (fun _ => []) addrs,
    rfl, length_runEvents _ _ _, ?_⟩
  rintro pre rest rfl
  have split_ := runEvents_append (cacheParams param_s paramE param_b) (fun _ => []) pre rest
  have len := length_runEvents (cacheParams param_s paramE param_b) (fun _ => []) pre
  constructor
  · obtain ⟨m, ran, holds⟩ :=
      cacheRun_start allocates range.widths positive pre
    refine ⟨m, ?_, ?_⟩
    · rw [split_, ← len, List.take_left]
      exact ran
    · intro idx _
      rw [holds.setTags, foldl_access_nil]
      rfl
  · intro addr next
    cases rest with
    | nil => cases next
    | cons addr' rest =>
        have same : addr' = addr := Option.some.inj next
        subst same
        refine ⟨_, ?_, calls_accessEvents _ _ _⟩
        rw [split_, List.getElem?_append_right (Nat.le_of_eq len), len, Nat.sub_self]
        unfold runEvents
        rw [List.getElem?_cons_zero, foldl_access_nil]
        rfl

end Run

/-- A `calloc` that returns an address above those in use. -/
def callocNext (lines : Lines) : Option Nat :=
  some (lines.keys.foldr (· + ·) 1)

theorem lt_foldr_add {n : Nat} {ns : List Nat} (member : n ∈ ns) : n < ns.foldr (· + ·) 1 := by
  induction ns with
  | nil => cases member
  | cons k ns ih =>
      have pos : 0 < ns.foldr (· + ·) 1 := by
        clear ih member
        induction ns with
        | nil => exact Nat.one_pos
        | cons k ns ih => exact Nat.lt_of_lt_of_le ih (Nat.le_add_left _ _)
      rw [List.foldr_cons]
      rcases List.mem_cons.1 member with rfl | inTail
      · omega
      · have less := ih inTail
        omega

theorem allocates_callocNext : Allocates callocNext := by
  intro lines
  refine ⟨lines.keys.foldr (· + ·) 1, rfl, ?_⟩
  rw [AList.lookup_eq_none]
  intro member
  exact Nat.lt_irrefl _ (lt_foldr_add (AList.mem_keys.1 member))

/-- Two lines a set, and the tags 4, 8, 4, 12 in set 0: 8 is evicted. -/
theorem cacheRun_history_two_lines :
    ∃ events m, cacheRun (cacheParams 1 2 1) callocNext ⟨fun _ => ⟨none, 0⟩, ∅⟩ [16, 32, 16, 48] =
        some (events, m) ∧
      setTags m 0 = some [12, 4] := by
  obtain ⟨pCache, m₀, events, init, -, points⟩ :=
    cacheRun_history allocates_callocNext
      inRange_one (by decide : 1 ≤ (2 : BitVec 32).toNat) [16, 32, 16, 48]
  cases init
  obtain ⟨⟨m, ran, tags⟩, -⟩ := points [16, 32, 16, 48] [] rfl
  refine ⟨_, m, ran, ?_⟩
  rw [tags 0 (by decide)]
  decide

end CsappLab.Cache
