/-
# Bomb.Search — what `func4` and `fun7` compute

Both functions search: `func4` bisects an interval of `int`s, `fun7` descends a tree of
nodes in memory. On the way back each doubles the result of the call inside it, and adds
one where the search went right, so what they return is the number of the way, as
`SearchTree.code` reads it. `func4` does so for any interval whose width is an `int`, with at
most 32 calls inside each other (`func4_eq`); `fun7` for any tree on the heap, and what it
returns for a key that is not there is below zero (`fun7_eq`).
-/
import CsappLab.Bomb.Bomb
import CsappLab.Lib.SearchTree

namespace CsappLab.Bomb

set_option autoImplicit false

open CsappLab.Lib

/-! ## Words as numbers -/

theorem bmod_int {v : Int} (low : -2 ^ 31 ≤ v) (high : v < 2 ^ 31) : v.bmod (2 ^ 32) = v :=
  Int.bmod_eq_of_le (by omega) (by omega)

theorem toInt_add_int {x y : BitVec 32} (low : -2 ^ 31 ≤ x.toInt + y.toInt)
    (high : x.toInt + y.toInt < 2 ^ 31) : (x + y).toInt = x.toInt + y.toInt := by
  rw [BitVec.toInt_add, bmod_int low high]

theorem toInt_sub_int {x y : BitVec 32} (low : -2 ^ 31 ≤ x.toInt - y.toInt)
    (high : x.toInt - y.toInt < 2 ^ 31) : (x - y).toInt = x.toInt - y.toInt := by
  rw [BitVec.toInt_sub, bmod_int low high]

/-- Division by two as `func4` does it, with the sign added first. -/
theorem toInt_half {eax : BitVec 32} (nonneg : 0 ≤ eax.toInt) :
    ((eax + eax >>> 31).sshiftRight 1).toInt = eax.toInt / 2 := by
  have small : eax.toNat < 2 ^ 31 := by
    rw [BitVec.toInt_eq_toNat_cond] at nonneg
    split at nonneg <;> omega
  have sign : eax >>> 31 = 0 := by
    apply BitVec.eq_of_toNat_eq
    rw [BitVec.toNat_ushiftRight, Nat.shiftRight_eq_div_pow, Nat.div_eq_of_lt small]
    rfl
  have same : eax + 0 = eax := BitVec.add_zero eax
  rw [sign, same, BitVec.toInt_sshiftRight, Int.shiftRight_eq_div_pow]
  rfl

/-! ## `func4` -/

/-- **`func4` returns the number of the way** that bisection takes to `edi`, for any
interval of `int`s around it that is not wider than an `int`, in as many calls as halve
the interval down. -/
theorem func4_eq {calls : Nat} {edi esi edx : BitVec 32} (above : esi.toInt ≤ edi.toInt)
    (below : edi.toInt ≤ edx.toInt) (width : edx.toInt - esi.toInt < 2 ^ 31)
    (deep : edx.toInt - esi.toInt + 1 < 2 ^ calls) :
    func4 calls edi esi edx =
      some (BitVec.ofNat 32
        (SearchTree.code ((SearchTree.bisect calls esi.toInt edx.toInt).turns edi.toInt))) := by
  induction calls generalizing esi edx with
  | zero =>
      rw [Int.pow_zero] at deep
      omega
  | succ calls ih =>
      have low := BitVec.le_toInt esi
      have high := BitVec.toInt_lt (x := edx)
      have halves : (2 : Int) ^ (calls + 1) = 2 * 2 ^ calls := by rw [Int.pow_succ, Int.mul_comm]
      have difference : (edx - esi).toInt = edx.toInt - esi.toInt :=
        toInt_sub_int (by omega) width
      have half := @toInt_half (edx - esi) (by omega)
      obtain ⟨mid, isMid⟩ :
          ∃ mid, ((edx - esi) + (edx - esi) >>> 31).sshiftRight 1 + esi = mid := ⟨_, rfl⟩
      have middle : mid.toInt = esi.toInt + (edx.toInt - esi.toInt) / 2 := by
        rw [← isMid, toInt_add_int (by omega) (by omega), half, difference]
        omega
      have nonempty : ¬ edx.toInt < esi.toInt := by omega
      have one : (1 : BitVec 32).toInt = 1 := rfl
      simp only [func4, isMid, SearchTree.bisect, if_neg nonempty, SearchTree.turns, ← middle,
        BitVec.slt_iff_toInt_lt]
      split
      · have left : (mid - 1).toInt = mid.toInt - 1 := by
          rw [toInt_sub_int (by omega) (by omega), one]
        rw [ih above (by omega) (by omega) (by omega), Option.map_some, left, SearchTree.code,
          Bool.toNat_false, Nat.add_zero, Nat.two_mul, BitVec.ofNat_add]
      · split
        · have right : (mid + 1).toInt = mid.toInt + 1 := by
            rw [toInt_add_int (by omega) (by omega), one]
          rw [ih (by omega) below (by omega) (by omega), Option.map_some, right, SearchTree.code,
            Bool.toNat_true, Nat.two_mul, BitVec.ofNat_add, BitVec.ofNat_add]
          rfl
        · rfl

/-- **`func4` bisects**: from 0 to 14 or in any other such interval, what it returns says
where among the midpoints `edi` is: the only way through their tree that leads to it. -/
theorem func4_bisects {calls : Nat} {edi esi edx : BitVec 32} (above : esi.toInt ≤ edi.toInt)
    (below : edi.toInt ≤ edx.toInt) (width : edx.toInt - esi.toInt < 2 ^ 31)
    (deep : edx.toInt - esi.toInt + 1 < 2 ^ calls) :
    ∃ way, (∀ other, (SearchTree.bisect calls esi.toInt edx.toInt).keyAt other =
        some edi.toInt ↔ other = way) ∧
      func4 calls edi esi edx = some (BitVec.ofNat 32 (SearchTree.code way)) := by
  have meets := SearchTree.bisect_meets deep above below
  refine ⟨(SearchTree.bisect calls esi.toInt edx.toInt).turns edi.toInt, fun other => ?_,
    func4_eq above below width deep⟩
  rw [← SearchTree.meets_iff_keyAt (SearchTree.bisect_ordered calls _ _)]
  constructor
  · rintro ⟨-, same⟩
    exact same.symm
  · intro same
    exact ⟨meets, same.symm⟩

/-- Eleven is right of seven. -/
theorem func4_bisects_eleven :
    ∃ way, (∀ other, (SearchTree.bisect 32 0 14).keyAt other = some 11 ↔ other = way) ∧
      func4 32 11 0 14 = some (BitVec.ofNat 32 (SearchTree.code way)) :=
  @func4_bisects 32 11 0 14 (by decide) (by decide) (by decide) (by decide)

/-! ## `fun7` -/

/-- The nodes from `p` on are the tree `t`. -/
def TreeNodes.Holds (nodes : TreeNodes) : BitVec 64 → SearchTree Int → Prop
  | p, .leaf => p = 0
  | p, .node left key right => p ≠ 0 ∧ ∃ node, nodes p = some node ∧ node.key.toInt = key ∧
      nodes.Holds node.left left ∧ nodes.Holds node.right right

/-- The number of the way, less a power of two above all its digits where it leads off
the tree. -/
def searchResult (x : Int) (t : SearchTree Int) : Int :=
  SearchTree.code (t.turns x) - if t.meets x then 0 else 2 ^ (t.turns x).length

theorem searchResult_left {x key : Int} {left right : SearchTree Int} (smaller : x < key) :
    searchResult x (.node left key right) = searchResult x left + searchResult x left := by
  simp only [searchResult, SearchTree.turns, SearchTree.meets, if_pos smaller, SearchTree.code,
    Bool.toNat_false, List.length_cons, Int.pow_succ]
  split <;> omega

theorem searchResult_right {x key : Int} {left right : SearchTree Int} (larger : key < x) :
    searchResult x (.node left key right) = searchResult x right + searchResult x right + 1 := by
  have notSmaller : ¬ x < key := by omega
  simp only [searchResult, SearchTree.turns, SearchTree.meets, if_neg notSmaller, if_pos larger,
    SearchTree.code, Bool.toNat_true, List.length_cons, Int.pow_succ]
  split <;> omega

/-- **`fun7` returns the number of the way** that the search for `esi` takes. -/
theorem fun7_eq {nodes : TreeNodes} {calls : Nat} {p : BitVec 64} {t : SearchTree Int}
    (holds : nodes.Holds p t) (deep : t.height < calls) (esi : BitVec 32) :
    fun7 nodes calls p esi = some (BitVec.ofInt 32 (searchResult esi.toInt t)) := by
  induction t generalizing calls p with
  | leaf =>
      obtain ⟨calls, rfl⟩ := Nat.exists_eq_add_of_lt deep
      obtain rfl : p = 0 := holds
      rfl
  | node left key right ihLeft ihRight =>
      obtain ⟨calls, rfl⟩ : ∃ n, calls = n + 1 := ⟨calls - 1, by omega⟩
      obtain ⟨mapped, node, found, rfl, holdsLeft, holdsRight⟩ := holds
      have shallow : left.height < calls ∧ right.height < calls := by
        simp only [SearchTree.height] at deep
        omega
      simp only [fun7, if_neg mapped, found, Option.bind_eq_bind, Option.bind_some,
        BitVec.slt_iff_toInt_lt]
      split
      · rw [ihLeft holdsLeft shallow.1, Option.map_some, searchResult_left ‹_›, BitVec.ofInt_add]
      · split
        · rename_i same
          rw [same]
          simp [searchResult, SearchTree.turns, SearchTree.meets, SearchTree.code]
        · have larger : node.key.toInt < esi.toInt := by
            have differ : node.key.toInt ≠ esi.toInt := fun same =>
              ‹¬ _ = _› (BitVec.toInt_inj.1 same)
            omega
          rw [ihRight holdsRight shallow.2, Option.map_some, searchResult_right larger,
            BitVec.ofInt_add, BitVec.ofInt_add]
          rfl

theorem searchResult_bounds (x : Int) (t : SearchTree Int) :
    -2 ^ t.height ≤ searchResult x t ∧ searchResult x t < 2 ^ t.height := by
  have digits := SearchTree.code_lt (t.turns x)
  have powers : 2 ^ (t.turns x).length ≤ 2 ^ t.height :=
    Nat.pow_le_pow_right (by decide) (SearchTree.length_turns_le x t)
  have cast : ∀ n : Nat, (2 : Int) ^ n = ((2 ^ n : Nat) : Int) := fun n => by push_cast; rfl
  simp only [searchResult, cast]
  split <;> omega

/-- The call returns the number of a way exactly if the way leads to the key, but for
lefts at its end. -/
theorem fun7_eq_code_iff {nodes : TreeNodes} {calls : Nat} {p : BitVec 64} {t : SearchTree Int}
    (holds : nodes.Holds p t) (ordered : t.Ordered) (deep : t.height < calls)
    (shallow : t.height ≤ 31) (esi : BitVec 32) (way : List Bool) (short : way.length ≤ 31) :
    fun7 nodes calls p esi = some (BitVec.ofNat 32 (SearchTree.code way)) ↔
      ∃ other, t.keyAt other = some esi.toInt ∧
        other ++ List.replicate way.length false = way ++ List.replicate other.length false := by
  have bounds := searchResult_bounds esi.toInt t
  have digits := SearchTree.code_lt way
  have largest : (2 : Int) ^ t.height ≤ 2 ^ 31 := pow_le_pow_right₀ (by decide) shallow
  have largest' : 2 ^ way.length ≤ 2 ^ 31 := Nat.pow_le_pow_right (by decide) short
  have number : fun7 nodes calls p esi = some (BitVec.ofNat 32 (SearchTree.code way)) ↔
      searchResult esi.toInt t = SearchTree.code way := by
    rw [fun7_eq holds deep, Option.some_inj, ← BitVec.ofInt_natCast, ← BitVec.toInt_inj,
      BitVec.toInt_ofInt, BitVec.toInt_ofInt, bmod_int (by omega) (by omega),
      bmod_int (by omega) (by omega)]
  rw [number]
  constructor
  · intro same
    have met : t.meets esi.toInt = true := by
      by_contra missed
      have digits' := SearchTree.code_lt (t.turns esi.toInt)
      have cast : (2 : Int) ^ (t.turns esi.toInt).length =
          ((2 ^ (t.turns esi.toInt).length : Nat) : Int) := by push_cast; rfl
      rw [searchResult, if_neg missed, cast] at same
      omega
    rw [searchResult, if_pos met, Int.sub_zero] at same
    exact ⟨t.turns esi.toInt, (SearchTree.meets_iff_keyAt ordered _).1 ⟨met, rfl⟩,
      (SearchTree.code_eq_code_iff _ _).1 (Int.ofNat.inj same)⟩
  · rintro ⟨other, found, same⟩
    obtain ⟨met, isWay⟩ := (SearchTree.meets_iff_keyAt ordered other).2 found
    rw [searchResult, if_pos met, Int.sub_zero, isWay, (SearchTree.code_eq_code_iff _ _).2 same]

end CsappLab.Bomb
