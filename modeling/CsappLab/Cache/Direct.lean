/-
# Cache.Direct — counting the misses of one line a set

With one line a set an access leaves its own tag in the set. So for a fixed sequence of
accesses the misses can be counted without knowing what the cache held before, or where
its addresses are: `changes` counts the accesses whose tag is not the one of the last access
to the same set, or to whose set there was none. No more than those miss
(`misses_le_changes`).
-/
import CsappLab.Cache.Lru

namespace CsappLab.Cache

set_option autoImplicit false

open CsappLab.Lib

variable {κ τ : Type}

/-- The accesses, each a set and a tag, that do not find the tag where `known` says it was
left. -/
def changes [DecidableEq κ] [DecidableEq τ] : (κ → Option τ) → List (κ × τ) → Nat
  | _, [] => 0
  | known, (set, tag) :: rest =>
      (if known set = some tag then 0 else 1) + changes (Function.update known set (some tag)) rest

section

variable {pCache : CacheParams} {setOf : κ → Nat} {tagIn : κ → τ → BitVec 64}
  {known : κ → Option τ} {all : Nat → List (BitVec 64)} {set : κ} {tag : τ} {addr : BitVec 64}

/-- Where a tag is known to be, it is. -/
def Knows (setOf : κ → Nat) (tagIn : κ → τ → BitVec 64) (known : κ → Option τ)
    (all : Nat → List (BitVec 64)) : Prop :=
  ∀ set tag, known set = some tag → all (setOf set) = [tagIn set tag]

theorem touch_one (tags : List (BitVec 64)) (tag : BitVec 64) : touch 1 tags tag = [tag] := rfl

/-- The access goes to the set and asks for the tag. -/
structure Asks (pCache : CacheParams) (setOf : κ → Nat) (tagIn : κ → τ → BitVec 64)
    (addr : BitVec 64) (access : κ × τ) : Prop where
  set : (setIdx pCache addr).toNat = setOf access.1
  tag : tagOf pCache addr = tagIn access.1 access.2

theorem Knows.access [DecidableEq κ] (knows : Knows setOf tagIn known all)
    (oneLine : pCache.paramE.toNat = 1)
    (injective : Function.Injective setOf) (asks : Asks pCache setOf tagIn addr (set, tag)) :
    Knows setOf tagIn (Function.update known set (some tag)) (access pCache all addr) := by
  intro set' tag' isKnown
  unfold Cache.access
  rw [asks.set, asks.tag, oneLine, touch_one]
  by_cases same : set' = set
  · subst same
    rw [Function.update_self] at isKnown
    cases isKnown
    rw [Function.update_self]
  · rw [Function.update_of_ne same] at isKnown
    rw [Function.update_of_ne fun eq => same (injective eq)]
    exact knows set' tag' isKnown

theorem Knows.misses [DecidableEq τ] (knows : Knows setOf tagIn known all)
    (asks : Asks pCache setOf tagIn addr (set, tag)) :
    (accessEvents pCache.paramE.toNat (all (setIdx pCache addr).toNat)
      (tagOf pCache addr)).count .miss ≤ if known set = some tag then 0 else 1 := by
  unfold accessEvents
  by_cases isKnown : known set = some tag
  · rw [asks.set, asks.tag, knows set tag isKnown, if_pos (by simp), if_pos isKnown]
    rfl
  · rw [if_neg isKnown]
    split_ifs <;> simp

/-- **At most the changes miss.** -/
theorem misses_le_changes [DecidableEq κ] [DecidableEq τ] (oneLine : pCache.paramE.toNat = 1)
    (injective : Function.Injective setOf) {addrs : List (BitVec 64)} {accesses : List (κ × τ)}
    (asks : List.Forall₂ (Asks pCache setOf tagIn) addrs accesses)
    (knows : Knows setOf tagIn known all) :
    (runEvents pCache all addrs).flatten.count .miss ≤ changes known accesses := by
  induction asks generalizing known all with
  | nil => exact Nat.zero_le _
  | @cons addr access addrs accesses head _ ih =>
      obtain ⟨set, tag⟩ := access
      have one := knows.misses head
      have rest := ih (knows.access oneLine injective head)
      simp only [runEvents, List.flatten_cons, List.count_append, changes]
      exact Nat.add_le_add one rest

end

end CsappLab.Cache
