/-
# Lib.SearchTree — the way a search takes through a tree

A search for `x` goes left at a larger key and right at a smaller one, until it
meets `x` or falls off the tree. `turns x t` is its way, `true` for right, and
`meets x t` whether it ends at the key. In an ordered tree the way to a key is
the only one that leads to it (`meets_iff_keyAt`).

`code` reads a way as a number, the first turn as the lowest binary digit. Two
ways have the same code when they differ in lefts at the end only
(`code_eq_code_iff`).

Bisection of an interval is a search in the tree of its midpoints: `bisect n` has
every number of an interval of fewer than `2 ^ n` (`bisect_meets`).
-/
import Mathlib

namespace CsappLab.Lib

set_option autoImplicit false

universe u

inductive SearchTree (α : Type u) where
  | leaf
  | node (left : SearchTree α) (key : α) (right : SearchTree α)

namespace SearchTree

section Search

variable {α : Type u}

/-- The key at the end of a way. -/
def keyAt : SearchTree α → List Bool → Option α
  | .leaf, _ => none
  | .node _ key _, [] => some key
  | .node left _ right, turn :: way => if turn then right.keyAt way else left.keyAt way

/-- Every key of the tree satisfies `P`. -/
def All (P : α → Prop) : SearchTree α → Prop
  | .leaf => True
  | .node left key right => left.All P ∧ P key ∧ right.All P

def height : SearchTree α → Nat
  | .leaf => 0
  | .node left _ right => max left.height right.height + 1

theorem All.mono {P Q : α → Prop} (weaker : ∀ a, P a → Q a) {t : SearchTree α} (all : t.All P) :
    t.All Q := by
  induction t with
  | leaf => trivial
  | node left key right ihLeft ihRight =>
      obtain ⟨below, here, above⟩ := all
      exact ⟨ihLeft below, weaker key here, ihRight above⟩

theorem All.keyAt {P : α → Prop} {t : SearchTree α} (all : t.All P) {way : List Bool} {x : α}
    (found : t.keyAt way = some x) : P x := by
  induction t generalizing way with
  | leaf => cases found
  | node left key right ihLeft ihRight =>
      obtain ⟨below, here, above⟩ := all
      cases way with
      | nil => cases found; exact here
      | cons turn way =>
          cases turn with
          | false => exact ihLeft below found
          | true => exact ihRight above found

variable [LinearOrder α]

/-- Smaller keys are on the left, larger ones on the right. -/
def Ordered : SearchTree α → Prop
  | .leaf => True
  | .node left key right => left.All (· < key) ∧ right.All (key < ·) ∧ left.Ordered ∧ right.Ordered

/-- The turns of the search. -/
def turns (x : α) : SearchTree α → List Bool
  | .leaf => []
  | .node left key right =>
      if x < key then false :: left.turns x else if key < x then true :: right.turns x else []

/-- The search ends at the key. -/
def meets (x : α) : SearchTree α → Bool
  | .leaf => false
  | .node left key right =>
      if x < key then left.meets x else if key < x then right.meets x else true

theorem keyAt_turns {x : α} {t : SearchTree α} (met : t.meets x = true) :
    t.keyAt (t.turns x) = some x := by
  induction t with
  | leaf => cases met
  | node left key right ihLeft ihRight =>
      simp only [meets] at met
      simp only [turns]
      split
      · rw [if_pos ‹_›] at met
        exact ihLeft met
      · rw [if_neg ‹_›] at met
        split
        · rw [if_pos ‹_›] at met
          exact ihRight met
        · exact congrArg some (le_antisymm (le_of_not_gt ‹_›) (le_of_not_gt ‹_›))

/-- **The way of the search is the only way to the key.** -/
theorem meets_iff_keyAt {x : α} {t : SearchTree α} (ordered : t.Ordered) (way : List Bool) :
    t.meets x = true ∧ t.turns x = way ↔ t.keyAt way = some x := by
  constructor
  · rintro ⟨met, rfl⟩
    exact keyAt_turns met
  · intro found
    induction t generalizing way with
    | leaf => cases found
    | node left key right ihLeft ihRight =>
        obtain ⟨below, above, orderedLeft, orderedRight⟩ := ordered
        cases way with
        | nil =>
            obtain rfl : key = x := Option.some.inj found
            have irrefl : ¬ key < key := lt_irrefl key
            simp only [meets, turns, if_neg irrefl, and_self]
        | cons turn way =>
            cases turn with
            | false =>
                have smaller : x < key := below.keyAt found
                obtain ⟨met, same⟩ := ihLeft orderedLeft way found
                simp [meets, turns, smaller, met, same]
            | true =>
                have larger : key < x := above.keyAt found
                obtain ⟨met, same⟩ := ihRight orderedRight way found
                simp [meets, turns, larger, not_lt_of_gt larger, met, same]

theorem length_turns_le (x : α) (t : SearchTree α) : (t.turns x).length ≤ t.height := by
  induction t with
  | leaf => exact Nat.le_refl 0
  | node left key right ihLeft ihRight =>
      simp only [turns, height]
      split
      · rw [List.length_cons]
        omega
      · split
        · rw [List.length_cons]
          omega
        · exact Nat.zero_le _

end Search

/-! ## The number of a way -/

/-- The turns as binary digits, the first one the lowest. -/
def code : List Bool → Nat
  | [] => 0
  | turn :: way => 2 * code way + turn.toNat

theorem code_lt (way : List Bool) : code way < 2 ^ way.length := by
  induction way with
  | nil => exact Nat.one_pos
  | cons turn way ih =>
      have digit : turn.toNat ≤ 1 := Bool.toNat_le turn
      rw [List.length_cons, Nat.pow_succ, code]
      omega

/-- Lefts at the end do not count. -/
theorem code_append_lefts (way : List Bool) (n : Nat) :
    code (way ++ List.replicate n false) = code way := by
  induction way with
  | nil =>
      induction n with
      | zero => rfl
      | succ n ih =>
          rw [List.nil_append] at ih ⊢
          rw [List.replicate_succ]
          show 2 * code (List.replicate n false) + 0 = code []
          rw [ih]
          rfl
  | cons turn way ih => rw [List.cons_append, code, code, ih]

theorem code_inj {p q : List Bool} (sameLength : p.length = q.length)
    (sameCode : code p = code q) : p = q := by
  induction p generalizing q with
  | nil => exact (List.length_eq_zero_iff.1 sameLength.symm).symm
  | cons turn p ih =>
      cases q with
      | nil => cases sameLength
      | cons turn' q =>
          have digits : turn.toNat ≤ 1 ∧ turn'.toNat ≤ 1 :=
            ⟨Bool.toNat_le turn, Bool.toNat_le turn'⟩
          simp only [code] at sameCode
          have first : turn = turn' := by
            have : turn.toNat = turn'.toNat := by omega
            cases turn <;> cases turn' <;> first | rfl | cases this
          rw [first, ih (Nat.succ.inj sameLength) (by omega)]

/-- **Equal numbers**: the ways are equal but for lefts at the end. -/
theorem code_eq_code_iff (p q : List Bool) :
    code p = code q ↔
      p ++ List.replicate q.length false = q ++ List.replicate p.length false := by
  constructor
  · intro same
    apply code_inj
    · simp only [List.length_append, List.length_replicate]
      exact Nat.add_comm _ _
    · rw [code_append_lefts, code_append_lefts, same]
  · intro same
    rw [← code_append_lefts p q.length, same, code_append_lefts]

/-! ## Bisection -/

/-- The midpoints of an interval, at most `n` deep. -/
def bisect : Nat → Int → Int → SearchTree Int
  | 0, _, _ => .leaf
  | n + 1, lo, hi =>
      if hi < lo then .leaf
      else
        let mid := lo + (hi - lo) / 2
        .node (bisect n lo (mid - 1)) mid (bisect n (mid + 1) hi)

theorem bisect_within (n : Nat) (lo hi : Int) :
    (bisect n lo hi).All fun x => lo ≤ x ∧ x ≤ hi := by
  induction n generalizing lo hi with
  | zero => trivial
  | succ n ih =>
      simp only [bisect]
      split
      · trivial
      · exact ⟨(ih lo _).mono fun x within => by omega, by omega,
          (ih _ hi).mono fun x within => by omega⟩

theorem bisect_ordered (n : Nat) (lo hi : Int) : (bisect n lo hi).Ordered := by
  induction n generalizing lo hi with
  | zero => trivial
  | succ n ih =>
      simp only [bisect]
      split
      · trivial
      · exact ⟨(bisect_within n lo _).mono fun x within => by omega,
          (bisect_within n _ hi).mono fun x within => by omega, ih _ _, ih _ _⟩

/-- Every number of the interval is met. -/
theorem bisect_meets {n : Nat} {lo hi x : Int} (deep : hi - lo + 1 < 2 ^ n) (above : lo ≤ x)
    (below : x ≤ hi) : (bisect n lo hi).meets x = true := by
  induction n generalizing lo hi with
  | zero => simp only [Int.pow_zero] at deep; omega
  | succ n ih =>
      have nonempty : ¬ hi < lo := by omega
      have halves : (2 : Int) ^ (n + 1) = 2 * 2 ^ n := by rw [Int.pow_succ, Int.mul_comm]
      simp only [bisect, if_neg nonempty, meets]
      split
      · exact ih (by omega) above (by omega)
      · split
        · exact ih (by omega) (by omega) below
        · rfl

end SearchTree

end CsappLab.Lib
