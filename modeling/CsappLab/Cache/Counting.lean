/-
# Cache.Counting — hits, misses, evictions and lines

Every access is a hit or a miss; a miss that evicts nothing adds a line, and nothing
else changes how many lines there are. Over a run from the empty cache the misses
are the evictions and the lines that are there at the end.
-/
import CsappLab.Cache.Lru
import Mathlib.Algebra.BigOperators.Intervals

namespace CsappLab.Cache

set_option autoImplicit false

open CsappLab.Lib

/-- The lines in the first `S` sets. -/
def residents (S : Nat) (all : Nat → List (BitVec 64)) : Nat :=
  ∑ idx ∈ Finset.range S, (all idx).length

theorem count_hit_add_count_miss (E : Nat) (tags : List (BitVec 64)) (tag : BitVec 64) :
    (accessEvents E tags tag).count .hit + (accessEvents E tags tag).count .miss = 1 := by
  unfold accessEvents
  split_ifs <;> rfl

/-- A set's lines after an access. -/
theorem length_touch_add (E : Nat) {tags : List (BitVec 64)} (tag : BitVec 64)
    (fits : tags.length ≤ E) :
    (touch E tags tag).length + (accessEvents E tags tag).count .eviction =
      tags.length + (accessEvents E tags tag).count .miss := by
  unfold accessEvents
  by_cases used : tag ∈ tags
  · rw [if_pos used, length_touch_of_mem used fits]
    rfl
  · rw [if_neg used, length_touch_of_notMem E used]
    by_cases room : tags.length < E
    · rw [if_pos room]
      simp
      omega
    · rw [if_neg room]
      simp
      omega

section Run

variable {pCache : CacheParams} {all : Nat → List (BitVec 64)} {S : Nat}

theorem residents_access (addr : BitVec 64) (inArray : (setIdx pCache addr).toNat < S)
    (fits : ∀ idx, (all idx).length ≤ pCache.paramE.toNat) :
    let events := accessEvents pCache.paramE.toNat (all (setIdx pCache addr).toNat)
      (tagOf pCache addr)
    residents S (access pCache all addr) + events.count .eviction =
      residents S all + events.count .miss := by
  have member : (setIdx pCache addr).toNat ∈ Finset.range S := Finset.mem_range.2 inArray
  have touched := length_touch_add pCache.paramE.toNat (tagOf pCache addr)
    (fits (setIdx pCache addr).toNat)
  have before := Finset.add_sum_erase _ (fun idx => (all idx).length) member
  have after := Finset.add_sum_erase _ (fun idx => (access pCache all addr idx).length) member
  have others : ∑ idx ∈ (Finset.range S).erase (setIdx pCache addr).toNat,
      (access pCache all addr idx).length =
      ∑ idx ∈ (Finset.range S).erase (setIdx pCache addr).toNat, (all idx).length := by
    refine Finset.sum_congr rfl fun idx away => ?_
    unfold access
    rw [Function.update_of_ne (Finset.ne_of_mem_erase away)]
  have own : access pCache all addr (setIdx pCache addr).toNat =
      touch pCache.paramE.toNat (all (setIdx pCache addr).toNat) (tagOf pCache addr) := by
    unfold access
    rw [Function.update_self]
  simp only [others, own] at after
  simp only [residents]
  omega

theorem access_fits (addr : BitVec 64) (fits : ∀ idx, (all idx).length ≤ pCache.paramE.toNat)
    (idx : Nat) : (access pCache all addr idx).length ≤ pCache.paramE.toNat := by
  unfold access
  by_cases same : idx = (setIdx pCache addr).toNat
  · subst same
    rw [Function.update_self]
    exact length_touch_le _ _ _
  · rw [Function.update_of_ne same]
    exact fits idx

/-- Hits and misses make up the accesses. -/
theorem hits_add_misses (pCache : CacheParams) (all : Nat → List (BitVec 64))
    (addrs : List (BitVec 64)) :
    (runEvents pCache all addrs).flatten.count .hit +
      (runEvents pCache all addrs).flatten.count .miss = addrs.length := by
  induction addrs generalizing all with
  | nil => rfl
  | cons addr addrs ih =>
      have one := count_hit_add_count_miss pCache.paramE.toNat
        (all (setIdx pCache addr).toNat) (tagOf pCache addr)
      have rest := ih (access pCache all addr)
      simp only [runEvents, List.flatten_cons, List.count_append, List.length_cons]
      omega

/-- A run from any sets that fit. -/
theorem residents_run (inArray : ∀ addr, (setIdx pCache addr).toNat < S)
    (fits : ∀ idx, (all idx).length ≤ pCache.paramE.toNat) (addrs : List (BitVec 64)) :
    residents S (addrs.foldl (access pCache) all) +
        (runEvents pCache all addrs).flatten.count .eviction =
      residents S all + (runEvents pCache all addrs).flatten.count .miss := by
  induction addrs generalizing all with
  | nil => rfl
  | cons addr addrs ih =>
      have one := residents_access addr (inArray addr) fits
      have rest := ih (access_fits addr fits)
      simp only [runEvents, List.foldl_cons, List.flatten_cons, List.count_append] at one rest ⊢
      omega

/-- **The misses are the evictions and the lines at the end.** -/
theorem misses_eq (inArray : ∀ addr, (setIdx pCache addr).toNat < S)
    (addrs : List (BitVec 64)) :
    (runEvents pCache (fun _ => []) addrs).flatten.count .miss =
      (runEvents pCache (fun _ => []) addrs).flatten.count .eviction +
        residents S (addrs.foldl (access pCache) fun _ => []) := by
  let none_ : Nat → List (BitVec 64) := fun _ => []
  have fits : ∀ idx, (none_ idx).length ≤ pCache.paramE.toNat := fun _ => Nat.zero_le _
  have run := residents_run inArray fits addrs
  have empty : residents S none_ = 0 := Finset.sum_const_zero
  simp only [none_] at run empty
  omega

end Run

end CsappLab.Cache
