/-
# Cache.Cold — the exact number of misses of one line a set

What a cache with one line a set has missed since it was empty are the accesses whose tag is
not the one of the last access to the same set: `changes`, exactly (`misses_cold`). And
`changes` sees of the accesses only which of them go to the same set and which ask for the
same tag (`changes_congr`), so that it may be computed on other names of the sets and tags
than those of the machine. `tally` does so on numbers.
-/
import CsappLab.Cache.Direct

namespace CsappLab.Cache

set_option autoImplicit false

/-- The set and the tag of an address. -/
def placeOf (pCache : CacheParams) (addr : BitVec 64) : Nat × BitVec 64 :=
  ((setIdx pCache addr).toNat, tagOf pCache addr)

section

variable {pCache : CacheParams}

theorem runEvents_known (oneLine : pCache.paramE.toNat = 1) {all : Nat → List (BitVec 64)}
    {known : Nat → Option (BitVec 64)} (exactly : ∀ set, all set = (known set).toList)
    (addrs : List (BitVec 64)) :
    (runEvents pCache all addrs).flatten.count .miss =
      changes known (addrs.map (placeOf pCache)) := by
  induction addrs generalizing all known with
  | nil => rfl
  | cons addr addrs ih =>
      have one : (accessEvents pCache.paramE.toNat (all (setIdx pCache addr).toNat)
          (tagOf pCache addr)).count .miss =
          if known (setIdx pCache addr).toNat = some (tagOf pCache addr) then 0 else 1 := by
        have member : tagOf pCache addr ∈ all (setIdx pCache addr).toNat ↔
            known (setIdx pCache addr).toNat = some (tagOf pCache addr) := by
          rw [exactly, Option.mem_toList]
        unfold accessEvents
        by_cases isKnown : known (setIdx pCache addr).toNat = some (tagOf pCache addr)
        · rw [if_pos (member.2 isKnown), if_pos isKnown]
          rfl
        · rw [if_neg fun found => isKnown (member.1 found), if_neg isKnown]
          split_ifs <;> rfl
      have next : ∀ set, access pCache all addr set =
          (Function.update known (setIdx pCache addr).toNat
            (some (tagOf pCache addr)) set).toList := by
        intro set
        unfold access
        rw [oneLine, touch_one]
        by_cases same : set = (setIdx pCache addr).toNat
        · subst same
          rw [Function.update_self, Function.update_self]
          rfl
        · rw [Function.update_of_ne same, Function.update_of_ne same, exactly]
      simp only [runEvents, List.flatten_cons, List.count_append, List.map_cons, changes, placeOf]
      rw [one, ih next]

/-- From the empty cache. -/
theorem misses_cold (oneLine : pCache.paramE.toNat = 1) (addrs : List (BitVec 64)) :
    (runEvents pCache (fun _ => []) addrs).flatten.count .miss =
      changes (fun _ => none) (addrs.map (placeOf pCache)) := by
  apply runEvents_known oneLine
  exact fun _ => rfl

/-- From any cache: no more. -/
theorem misses_le_cold (oneLine : pCache.paramE.toNat = 1) (all : Nat → List (BitVec 64))
    (addrs : List (BitVec 64)) :
    (runEvents pCache all addrs).flatten.count .miss ≤
      changes (fun _ => none) (addrs.map (placeOf pCache)) := by
  have asks : List.Forall₂ (Asks pCache id fun _ tag => tag) addrs
      (addrs.map (placeOf pCache)) := by
    rw [List.forall₂_map_right_iff, List.forall₂_same]
    exact fun addr _ => ⟨rfl, rfl⟩
  have nothing : Knows id (fun _ tag => tag) (fun _ => none) all := by
    rintro set tag ⟨⟩
  exact misses_le_changes oneLine Function.injective_id asks nothing

end

/-! ## Other names -/

section

variable {ι κ τ κ' τ' : Type} [DecidableEq κ] [DecidableEq τ] [DecidableEq κ'] [DecidableEq τ']

/-- Two ways to name the sets and tags of some accesses that tell the same ones apart. -/
structure SameNames (S : List ι) (f : ι → κ × τ) (g : ι → κ' × τ') : Prop where
  sets : ∀ a ∈ S, ∀ b ∈ S, (f a).1 = (f b).1 ↔ (g a).1 = (g b).1
  tags : ∀ a ∈ S, ∀ b ∈ S, (f a).1 = (f b).1 → ((f a).2 = (f b).2 ↔ (g a).2 = (g b).2)

theorem changes_congr_from {S : List ι} {f : ι → κ × τ} {g : ι → κ' × τ'}
    (same : SameNames S f g) {known : κ → Option τ} {known' : κ' → Option τ'}
    (agree : ∀ a ∈ S, known (f a).1 = some (f a).2 ↔ known' (g a).1 = some (g a).2)
    {list : List ι} (among : ∀ a ∈ list, a ∈ S) :
    changes known (list.map f) = changes known' (list.map g) := by
  induction list generalizing known known' with
  | nil => rfl
  | cons a list ih =>
      have here := among a List.mem_cons_self
      have later : ∀ b ∈ S,
          Function.update known (f a).1 (some (f a).2) (f b).1 = some (f b).2 ↔
            Function.update known' (g a).1 (some (g a).2) (g b).1 = some (g b).2 := by
        intro b member
        by_cases eq : (f b).1 = (f a).1
        · have eq' := (same.sets b member a here).1 eq
          rw [eq, eq', Function.update_self, Function.update_self, Option.some.injEq,
            Option.some.injEq]
          exact same.tags a here b member eq.symm
        · have ne' := fun eq' => eq ((same.sets b member a here).2 eq')
          rw [Function.update_of_ne eq, Function.update_of_ne ne']
          exact agree b member
      have rest := ih later fun b member => among b (List.mem_cons_of_mem _ member)
      have one : (if known (f a).1 = some (f a).2 then 0 else 1) =
          if known' (g a).1 = some (g a).2 then 0 else 1 :=
        if_congr (agree a here) rfl rfl
      simp only [List.map_cons, changes]
      rw [one, rest]

/-- **`changes` does not depend on the names of the sets and tags.** -/
theorem changes_congr {list : List ι} {f : ι → κ × τ} {g : ι → κ' × τ'}
    (same : SameNames list f g) :
    changes (fun _ => none) (list.map f) = changes (fun _ => none) (list.map g) :=
  changes_congr_from same (fun _ _ => by simp) fun _ member => member

end

/-! ## On numbers -/

/-- `changes` for sets and tags that are numbers, where 0 is no tag. -/
def tally : (Nat → Nat) → List (Nat × Nat) → Nat
  | _, [] => 0
  | known, (set, tag) :: rest =>
      bif Nat.beq (known set) tag then tally known rest
      else tally (fun set' => bif Nat.beq set' set then tag else known set') rest + 1

theorem changes_eq_tally {known : Nat → Option Nat} {known' : Nat → Nat}
    (agree : ∀ set tag, 0 < tag → (known set = some tag ↔ known' set = tag))
    {list : List (Nat × Nat)} (positive : ∀ access ∈ list, 0 < access.2) :
    changes known list = tally known' list := by
  induction list generalizing known known' with
  | nil => rfl
  | cons access list ih =>
      obtain ⟨set, tag⟩ := access
      have pos : 0 < tag := positive _ List.mem_cons_self
      have rest : ∀ access ∈ list, 0 < access.2 :=
        fun access member => positive access (List.mem_cons_of_mem _ member)
      unfold changes tally
      by_cases isKnown : known' set = tag
      · have found := (agree set tag pos).2 isKnown
        have unchanged : Function.update known set (some tag) = known := by
          rw [← found]
          exact Function.update_eq_self set known
        rw [if_pos found, unchanged, ih agree rest, isKnown, Nat.beq_refl, Nat.zero_add]
        rfl
      · have absent : Nat.beq (known' set) tag = false := by
          rw [← Bool.not_eq_true, Nat.beq_eq]
          exact isKnown
        rw [if_neg fun found => isKnown ((agree set tag pos).1 found), absent, Nat.add_comm]
        refine congrArg (· + 1) (ih ?_ rest)
        intro set' tag' pos'
        by_cases eq : set' = set
        · subst eq
          rw [Function.update_self, Nat.beq_refl, Option.some.injEq]
          rfl
        · have ne : Nat.beq set' set = false := by
            rw [← Bool.not_eq_true, Nat.beq_eq]
            exact eq
          rw [Function.update_of_ne eq, ne]
          exact agree set' tag' pos'

/-- The number of changes, on numbers. -/
theorem changes_numbers {list : List (Nat × Nat)} (positive : ∀ access ∈ list, 0 < access.2) :
    changes (fun _ => none) list = tally (fun _ => 0) list := by
  apply changes_eq_tally _ positive
  intro set tag pos
  constructor
  · intro found
    cases found
  · intro zero
    omega

end CsappLab.Cache
