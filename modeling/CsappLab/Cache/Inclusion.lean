/-
# Cache.Inclusion — a cache with more lines a set holds what one with fewer holds

Two caches that cut addresses in the same way are given the same accesses, one with
`E₁` lines a set and one with `E₂ ≥ E₁`. What the first holds of a set are the first
`E₁` tags of what the second holds (`Included`), and an access keeps it so, whatever
it is in either cache: `touch_inclusion` has no cases. So the first cache hits only
where the second one does, and misses and evicts at least as often.
-/
import CsappLab.Cache.History

namespace CsappLab.Cache

set_option autoImplicit false

open CsappLab.Lib

/-- The tags of the smaller cache are the first ones of the larger cache. -/
def Included (E₁ : Nat) (all₁ all₂ : Nat → List (BitVec 64)) : Prop :=
  ∀ idx, all₁ idx = (all₂ idx).take E₁

/-- The calls of an access in the smaller cache and in the larger one. -/
structure NoWorse (called₁ called₂ : List Event) : Prop where
  hit : Event.hit ∈ called₁ → Event.hit ∈ called₂
  miss : called₂.count .miss ≤ called₁.count .miss
  eviction : called₂.count .eviction ≤ called₁.count .eviction

theorem noWorse_accessEvents {E₁ E₂ : Nat} (le : E₁ ≤ E₂) (tags : List (BitVec 64))
    (tag : BitVec 64) :
    NoWorse (accessEvents E₁ (tags.take E₁) tag) (accessEvents E₂ tags tag) := by
  unfold accessEvents
  by_cases used : tag ∈ tags
  · -- the larger cache hits
    rw [if_pos used]
    split_ifs <;> constructor <;> simp
  · have unused : tag ∉ tags.take E₁ := fun member => used (List.mem_of_mem_take member)
    rw [if_neg used, if_neg unused]
    by_cases room : tags.length < E₂
    · rw [if_pos room]
      split_ifs <;> constructor <;> simp
    · have full : ¬ (tags.take E₁).length < E₁ := by
        rw [List.length_take]
        omega
      rw [if_neg room, if_neg full]
      constructor <;> simp

theorem NoWorse.flatten {events₁ events₂ : List (List Event)}
    (each : List.Forall₂ NoWorse events₁ events₂) :
    events₂.flatten.count .miss ≤ events₁.flatten.count .miss ∧
      events₂.flatten.count .eviction ≤ events₁.flatten.count .eviction := by
  induction each with
  | nil => exact ⟨le_rfl, le_rfl⟩
  | cons head _ ih =>
      simp only [List.flatten_cons, List.count_append]
      exact ⟨Nat.add_le_add head.miss ih.1, Nat.add_le_add head.eviction ih.2⟩

section Both

variable {pCache₁ pCache₂ : CacheParams} {all₁ all₂ : Nat → List (BitVec 64)}

/-- An access keeps the smaller cache's sets included. -/
theorem access_included (sets : setIdx pCache₁ = setIdx pCache₂)
    (tags : tagOf pCache₁ = tagOf pCache₂) (le : pCache₁.paramE.toNat ≤ pCache₂.paramE.toNat)
    (included : Included pCache₁.paramE.toNat all₁ all₂) (addr : BitVec 64) :
    Included pCache₁.paramE.toNat (access pCache₁ all₁ addr) (access pCache₂ all₂ addr) := by
  intro idx
  unfold access
  rw [sets, tags]
  by_cases same : idx = (setIdx pCache₂ addr).toNat
  · subst same
    rw [Function.update_self, Function.update_self, included, touch_inclusion le]
  · rw [Function.update_of_ne same, Function.update_of_ne same]
    exact included idx

theorem foldl_access_included (sets : setIdx pCache₁ = setIdx pCache₂)
    (tags : tagOf pCache₁ = tagOf pCache₂) (le : pCache₁.paramE.toNat ≤ pCache₂.paramE.toNat)
    (included : Included pCache₁.paramE.toNat all₁ all₂) (addrs : List (BitVec 64)) :
    Included pCache₁.paramE.toNat (addrs.foldl (access pCache₁) all₁)
      (addrs.foldl (access pCache₂) all₂) := by
  induction addrs generalizing all₁ all₂ with
  | nil => exact included
  | cons addr addrs ih => exact ih (access_included sets tags le included addr)

theorem runEvents_noWorse (sets : setIdx pCache₁ = setIdx pCache₂)
    (tags : tagOf pCache₁ = tagOf pCache₂) (le : pCache₁.paramE.toNat ≤ pCache₂.paramE.toNat)
    (included : Included pCache₁.paramE.toNat all₁ all₂) (addrs : List (BitVec 64)) :
    List.Forall₂ NoWorse (runEvents pCache₁ all₁ addrs) (runEvents pCache₂ all₂ addrs) := by
  induction addrs generalizing all₁ all₂ with
  | nil => exact .nil
  | cons addr addrs ih =>
      refine .cons ?_ (ih (access_included sets tags le included addr))
      rw [sets, tags, included]
      exact noWorse_accessEvents le _ _

end Both

section Run

variable {param_s paramE₁ paramE₂ param_b : BitVec 32} {calloc₁ calloc₂ : Lines → Option Nat}

/-- **Inclusion.** At every point of a run the tags of each set are a prefix of the
tags the set has with more lines; no access hits that does not hit there too, and
there are at least as many misses and evictions. -/
theorem cacheRun_inclusion (allocates₁ : Allocates calloc₁) (allocates₂ : Allocates calloc₂)
    (range : InRange param_s param_b) (positive : 1 ≤ paramE₁.toNat) (le : paramE₁ ≤ paramE₂)
    (addrs : List (BitVec 64)) :
    ∃ pCache₁ m₁ pCache₂ m₂, ∃ events₁ events₂ : List (List Event),
      cacheInitialize true param_s paramE₁ param_b = (pCache₁, some m₁) ∧
      cacheInitialize true param_s paramE₂ param_b = (pCache₂, some m₂) ∧
      events₁.length = addrs.length ∧ events₂.length = addrs.length ∧
      (∀ pre rest, addrs = pre ++ rest → ∃ n₁ n₂,
        cacheRun pCache₁ calloc₁ m₁ pre = some (events₁.take pre.length, n₁) ∧
        cacheRun pCache₂ calloc₂ m₂ pre = some (events₂.take pre.length, n₂) ∧
        ∀ idx < 2 ^ param_s.toNat, ∃ tags₁ tags₂, setTags n₁ idx = some tags₁ ∧
          setTags n₂ idx = some tags₂ ∧ tags₁ <+: tags₂) ∧
      (∀ (i : Nat) (called₁ called₂ : List Event), events₁[i]? = some called₁ →
        events₂[i]? = some called₂ → Event.hit ∈ called₁ → Event.hit ∈ called₂) ∧
      events₂.flatten.count .miss ≤ events₁.flatten.count .miss ∧
      events₂.flatten.count .eviction ≤ events₁.flatten.count .eviction := by
  have positive₂ : 1 ≤ paramE₂.toNat := Nat.le_trans positive le
  have included : Included paramE₁.toNat (fun _ => []) fun _ => [] :=
    fun _ => List.take_nil.symm
  -- the masks do not depend on the number of lines
  let pCache₁ := cacheParams param_s paramE₁ param_b
  let pCache₂ := cacheParams param_s paramE₂ param_b
  have sets : setIdx pCache₁ = setIdx pCache₂ := rfl
  have tags : tagOf pCache₁ = tagOf pCache₂ := rfl
  have each := runEvents_noWorse sets tags le included addrs
  refine ⟨_, _, _, _, _, _, rfl, rfl, length_runEvents _ _ _, length_runEvents _ _ _, ?_, ?_,
    NoWorse.flatten each⟩
  · rintro pre rest rfl
    obtain ⟨n₁, ran₁, holds₁⟩ := cacheRun_start allocates₁ range.widths positive pre
    obtain ⟨n₂, ran₂, holds₂⟩ := cacheRun_start allocates₂ range.widths positive₂ pre
    refine ⟨n₁, n₂, ?_, ?_, fun idx _ => ⟨_, _, holds₁.setTags idx, holds₂.setTags idx, ?_⟩⟩
    · rw [ran₁, runEvents_append, List.take_left' (length_runEvents _ _ _)]
    · rw [ran₂, runEvents_append, List.take_left' (length_runEvents _ _ _)]
    · rw [foldl_access_included sets tags le included pre idx]
      exact List.take_prefix _ _
  · intro i called₁ called₂ at₁ at₂
    obtain ⟨inside₁, rfl⟩ := List.getElem?_eq_some_iff.1 at₁
    obtain ⟨inside₂, rfl⟩ := List.getElem?_eq_some_iff.1 at₂
    exact ((List.forall₂_iff_get.1 each).2 i inside₁ inside₂).hit

end Run

/-- One line a set and two: the tags 4, 8, 4 in set 0. -/
theorem cacheRun_inclusion_one_two :
    ∃ events₁ m₁ events₂ m₂,
      cacheRun (cacheParams 1 1 1) callocNext ⟨fun _ => ⟨none, 0⟩, ∅⟩ [16, 32, 16] =
        some (events₁, m₁) ∧
      cacheRun (cacheParams 1 2 1) callocNext ⟨fun _ => ⟨none, 0⟩, ∅⟩ [16, 32, 16] =
        some (events₂, m₂) ∧
      events₂.flatten.count .miss ≤ events₁.flatten.count .miss := by
  obtain ⟨pCache₁, m₁, pCache₂, m₂, events₁, events₂, init₁, init₂, len₁, len₂, points, -, fewer,
      -⟩ :=
    cacheRun_inclusion allocates_callocNext allocates_callocNext
      inRange_one (by decide : 1 ≤ (1 : BitVec 32).toNat) (by decide : (1 : BitVec 32) ≤ 2)
      [16, 32, 16]
  cases init₁
  cases init₂
  obtain ⟨n₁, n₂, ran₁, ran₂, -⟩ := points [16, 32, 16] [] rfl
  rw [← len₁, List.take_length] at ran₁
  rw [← len₂, List.take_length] at ran₂
  exact ⟨events₁, n₁, events₂, n₂, ran₁, ran₂, fewer⟩

end CsappLab.Cache
