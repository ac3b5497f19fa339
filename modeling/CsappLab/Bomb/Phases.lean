/-
# Bomb.Phases — which lines defuse the bomb

For each phase, the lines on which it returns. On every other line it explodes; none
reads memory that is not there or runs its stack over (`phases_decide`).
-/
import CsappLab.Bomb.Relinked
import CsappLab.Bomb.Search

namespace CsappLab.Bomb

set_option autoImplicit false

open CsappLab.Lib

/-! ## Texts and numbers -/

theorem stringLength_toNat (s : List Char) : (stringLength s).toNat = s.length % 2 ^ 32 := by
  induction s with
  | nil => rfl
  | cons c s ih =>
      have one : (1 : BitVec 32).toNat = 1 := rfl
      rw [stringLength, BitVec.toNat_add, ih, one, Nat.mod_add_mod, List.length_cons]

theorem differ_eq_zero (s t : List Char) : differ s t = 0 ↔ s <+: t := by
  induction s generalizing t with
  | nil => exact ⟨fun _ => List.nil_prefix, fun _ => rfl⟩
  | cons c s ih =>
      cases t with
      | nil => exact ⟨fun no => (nomatch no), fun no => (nomatch List.prefix_nil.1 no)⟩
      | cons d t =>
          rw [List.cons_prefix_cons, ← ih, differ]
          split
          · exact ⟨fun rest => ⟨‹_›, rest⟩, And.right⟩
          · exact ⟨fun no => (nomatch no), fun both => absurd both.1 ‹_›⟩

/-- The length is compared in 32 bits, but a longer text differs at the end of the
shorter one. -/
theorem stringsNotEqual_eq_zero (s : List Char) {t : List Char} (short : t.length < 2 ^ 32) :
    stringsNotEqual s t = 0 ↔ s = t := by
  unfold stringsNotEqual
  split
  · rename_i lengths
    exact ⟨fun no => (nomatch no), fun same => absurd (congrArg stringLength same) lengths⟩
  · rename_i lengths
    have sameLength := congrArg BitVec.toNat (not_ne_iff.1 lengths)
    rw [stringLength_toNat, stringLength_toNat, Nat.mod_eq_of_lt short] at sameLength
    rw [differ_eq_zero]
    constructor
    · intro isPrefix
      have shorter := isPrefix.length_le
      rw [Nat.mod_eq_of_lt (by omega)] at sameLength
      exact isPrefix.eq_of_length sameLength
    · rintro rfl
      exact List.prefix_rfl

theorem decides_same (s : List Char) {t : List Char} (short : t.length < 2 ^ 32) :
    Decides (explodeIf (stringsNotEqual s t ≠ 0)) (s = t) :=
  (decides_explodeIf _).congr (by rw [not_ne_iff, stringsNotEqual_eq_zero s short])

theorem sscanf_length (n : Nat) (s : List Char) : (sscanf n s).length ≤ n := by
  induction n generalizing s with
  | zero => exact Nat.le_refl 0
  | succ n ih =>
      rw [sscanf]
      split
      · exact Nat.zero_le _
      · rw [List.length_cons]
        exact Nat.succ_le_succ (ih _)

/-- A phase that starts with `read_six_numbers`. -/
theorem Decides.readSix {α : Type} {input : List Char}
    {after : List (BitVec 32) → Except Halt α} {Q : List (BitVec 32) → Prop}
    (six : ∀ numbers, Q numbers → numbers.length = 6)
    (rest : ∀ numbers, numbers.length = 6 → Decides (after numbers) (Q numbers)) :
    Decides (readSixNumbers input >>= after) (Q (sscanf 6 input)) := by
  have most := sscanf_length 6 input
  by_cases few : (sscanf 6 input).length ≤ 5
  · have refused : readSixNumbers input = .error .exploded := by
      simp only [readSixNumbers, explodeIf, if_pos few]
      rfl
    rw [refused]
    exact ⟨fun accepted => absurd (six _ accepted) (by omega), fun _ => rfl⟩
  · have read : readSixNumbers input = .ok (sscanf 6 input) := by
      simp only [readSixNumbers, explodeIf, if_neg few]
      rfl
    rw [read]
    exact rest _ (by omega)

/-! ## `phase_2` -/

theorem decides_doubles (before : BitVec 32) (numbers : List (BitVec 32)) :
    Decides (doubles before numbers) ((before :: numbers).IsChain fun a b => b = a + a) := by
  induction numbers generalizing before with
  | nil => exact ⟨fun _ => ⟨(), rfl⟩, fun no => absurd (List.isChain_singleton before) no⟩
  | cons number numbers ih =>
      refine ((decides_explodeIf _).bind fun _ _ => ih number).congr ?_
      rw [not_ne_iff, List.isChain_cons_cons]

theorem phase2_decides (input : List Char) :
    Decides (phase2 input) (sscanf 6 input = [1, 2, 4, 8, 16, 32]) := by
  refine Decides.readSix (Q := (· = [1, 2, 4, 8, 16, 32])) (fun _ same => same ▸ rfl) ?_
  intro numbers six
  match numbers, six with
  | [a, b, c, d, e, f], _ =>
      refine ((decides_explodeIf _).bind fun _ _ => decides_doubles a [b, c, d, e, f]).congr ?_
      simp only [not_ne_iff, List.isChain_cons_cons, List.isChain_singleton, and_true,
        List.cons.injEq]
      constructor
      · rintro ⟨rfl, rfl, rfl, rfl, rfl, rfl⟩
        decide
      · rintro ⟨rfl, rfl, rfl, rfl, rfl, rfl⟩
        decide

/-! ## `phase_3` and `phase_4` -/

/-- A phase that reads two numbers with `sscanf`. -/
theorem decides_two {numbers : List (BitVec 32)} {run : Except Halt Unit}
    {Q : BitVec 32 → BitVec 32 → Prop}
    (pair : ∀ x y, numbers = [x, y] → Decides run (Q x y))
    (other : (¬ ∃ x y, numbers = [x, y]) → run = .error .exploded) :
    Decides run (∃ x y, numbers = [x, y] ∧ Q x y) := by
  by_cases two : ∃ x y, numbers = [x, y]
  · obtain ⟨x, y, rfl⟩ := two
    refine (pair x y rfl).congr ⟨fun q => ⟨x, y, rfl, q⟩, ?_⟩
    rintro ⟨_, _, same, q⟩
    cases same
    exact q
  · refine ⟨fun ⟨x, y, same, _⟩ => absurd ⟨x, y, same⟩ two, fun _ => other two⟩

/-- What `ja` tests. -/
theorem above_iff (bound x : BitVec 32) : bound.ult x = true ↔ ¬ x.toNat < bound.toNat + 1 := by
  rw [BitVec.ult_iff_toNat_lt, Nat.not_lt]
  exact Nat.succ_le_iff.symm

/-- Each of the eight entries of the jump table leads to a case. -/
theorem jumpTable_caseAt : ∀ n < 8, ((jumpTable[n]?).bind caseAt).isSome := by decide

theorem phase3_decides (input : List Char) :
    Decides (phase3 input) (∃ x y, sscanf 2 input = [x, y] ∧
      x.toNat < 8 ∧ (jumpTable[x.toNat]?).bind caseAt = some y) := by
  unfold phase3
  generalize sscanf 2 input = numbers
  apply decides_two
  · rintro x y rfl
    have above : (7 : BitVec 32).ult x = true ↔ ¬ x.toNat < 8 := above_iff 7 x
    by_cases inside : x.toNat < 8
    · obtain ⟨eax, isCase⟩ := Option.isSome_iff_exists.1 (jumpTable_caseAt _ inside)
      have passed : explodeIf ((7 : BitVec 32).ult x = true) = .ok () :=
        if_neg fun isAbove => above.1 isAbove inside
      have last : Decides (explodeIf (eax ≠ y)) (x.toNat < 8 ∧ some eax = some y) := by
        refine (decides_explodeIf _).congr ?_
        rw [not_ne_iff, Option.some_inj]
        exact ⟨fun same => ⟨inside, same⟩, And.right⟩
      simp only [passed, isCase]
      exact last
    · have refused : explodeIf ((7 : BitVec 32).ult x = true) = .error .exploded :=
        if_pos (above.2 inside)
      simp only [refused]
      exact ⟨fun accepted => absurd accepted.1 inside, fun _ => rfl⟩
  · intro notTwo
    rcases numbers with _ | ⟨x, _ | ⟨y, _ | ⟨z, rest⟩⟩⟩
    · rfl
    · rfl
    · exact absurd ⟨x, y, rfl⟩ notTwo
    · rfl

/-- The ways from 0 to 14 that only go left. -/
theorem func4_zero : ∀ n < 15, (func4 32 (BitVec.ofNat 32 n) 0 0xe).isSome ∧
    (func4 32 (BitVec.ofNat 32 n) 0 0xe = some 0 ↔
      BitVec.ofNat 32 n ∈ [(0 : BitVec 32), 1, 3, 7]) := by decide +kernel

theorem phase4_decides (input : List Char) :
    Decides (phase4 input) (∃ x y, sscanf 2 input = [x, y] ∧
      x ∈ [(0 : BitVec 32), 1, 3, 7] ∧ y = 0) := by
  unfold phase4
  generalize sscanf 2 input = numbers
  apply decides_two
  · rintro x y rfl
    have above : (0xe : BitVec 32).ult x = true ↔ ¬ x.toNat < 15 := above_iff 0xe x
    by_cases inside : x.toNat < 15
    · have passed : explodeIf ((0xe : BitVec 32).ult x = true) = .ok () :=
        if_neg fun isAbove => above.1 isAbove inside
      obtain ⟨returns, isZero⟩ := func4_zero x.toNat inside
      obtain ⟨eax, result⟩ := Option.isSome_iff_exists.1 returns
      rw [BitVec.ofNat_toNat, BitVec.setWidth_eq] at result isZero
      rw [result, Option.some_inj] at isZero
      have last := (decides_explodeIf (eax ≠ 0)).bind fun _ _ => decides_explodeIf (y ≠ 0)
      simp only [passed, result]
      refine last.congr ?_
      rw [not_ne_iff, not_ne_iff, isZero]
    · have refused : explodeIf ((0xe : BitVec 32).ult x = true) = .error .exploded :=
        if_pos (above.2 inside)
      have larger : x ∉ [(0 : BitVec 32), 1, 3, 7] := by
        intro member
        simp only [List.mem_cons, List.not_mem_nil, or_false] at member
        rcases member with rfl | rfl | rfl | rfl <;> exact inside (by decide)
      simp only [refused]
      exact ⟨fun accepted => absurd accepted.1 larger, fun _ => rfl⟩
  · intro notTwo
    rcases numbers with _ | ⟨x, _ | ⟨y, _ | ⟨z, rest⟩⟩⟩
    · rfl
    · rfl
    · exact absurd ⟨x, y, rfl⟩ notTwo
    · rfl

/-! ## `phase_1` and `phase_5` -/

theorem phase1_decides (input : List Char) :
    Decides (phase1 input)
      (input = "Border relations with Canada have never been better.".toList) :=
  decides_same input (by decide)

/-- The letter for the low digit of a character. -/
def letter (n : Fin 16) : Char := letters.getD n.val '?'

theorem letter_inj : ∀ m n : Fin 16, letter m = letter n → m = n := by decide

theorem phase5_decides (input : List Char) :
    Decides (phase5 input) (input.length % 2 ^ 32 = 6 ∧
      (input.take 6).map (fun c => c.toNat % 16) = [9, 15, 14, 5, 6, 7]) := by
  have isLetter : ∀ c : Char, letters[c.toNat % 16]? = some (letter (Fin.ofNat 16 c.toNat)) := by
    intro c
    have inside : c.toNat % 16 < letters.length := Nat.mod_lt _ (by decide)
    change _ = some (letters.getD (c.toNat % 16) '?')
    rw [List.getD_eq_getElem _ _ inside, List.getElem?_eq_getElem inside]
  have word : (input.take 6).mapM (fun c => letters[c.toNat % 16]?) =
      some (((input.take 6).map fun c => Fin.ofNat 16 c.toNat).map letter) := by
    rw [List.map_map]
    exact mapM_some fun c _ => isLetter c
  have flyers : "flyers".toList = [9, 15, 14, 5, 6, 7].map letter := by decide
  have lengths : ¬ stringLength input ≠ 6 ↔ input.length % 2 ^ 32 = 6 := by
    have six : (6 : BitVec 32).toNat = 6 := rfl
    rw [not_ne_iff, ← BitVec.toNat_inj, stringLength_toNat, six]
  unfold phase5
  refine ((decides_explodeIf _).bind fun _ _ => ?_).congr (Iff.and lengths Iff.rfl)
  rw [word]
  refine (decides_same _ (by decide)).congr ?_
  have digits : (input.take 6).map (fun c => c.toNat % 16) =
      ((input.take 6).map fun c => Fin.ofNat 16 c.toNat).map Fin.val := by
    rw [List.map_map]
    rfl
  rw [flyers, List.map_inj_right letter_inj, digits,
    ← List.map_inj_right fun _ _ => Fin.eq_of_val_eq]
  rfl

/-! ## `phase_6` -/

theorem nodeData_values :
    nodeAddresses.map (valueAt nodeData) = [332, 168, 924, 691, 477, 443] := by
  simp [nodeAddresses, valueAt, Links.value, nodeData]

theorem nodeData_apart : ∀ a ∈ nodeAddresses, ∀ b ∈ nodeAddresses,
    valueAt nodeData a = valueAt nodeData b → a = b := by
  intro a aIn b bIn same
  have distinct : (nodeAddresses.map (valueAt nodeData)).Nodup := by
    rw [nodeData_values]
    decide
  exact List.inj_on_of_nodup_map distinct aIn bIn same

theorem phase6_decides (input : List Char) :
    Decides (phase6 input) (sscanf 6 input = [4, 3, 2, 1, 6, 5]) := by
  refine Decides.readSix (Q := (· = [4, 3, 2, 1, 6, 5])) (fun _ same => same ▸ rfl) ?_
  intro numbers six
  refine (phase6On_decides nodeData_walk (by decide) rfl six).1.congr ⟨fun arranges => ?_, ?_⟩
  · exact arranges_unique (by decide) rfl nodeData_apart six rfl arranges arranges_nodeData
  · rintro rfl
    exact arranges_nodeData

/-! ## `secret_phase` -/

/-- The tree that starts at 0x6030f0. -/
def treeKeys : SearchTree Int :=
  let single := fun key => SearchTree.node .leaf key .leaf
  .node (.node (.node (single 1) 6 (single 7)) 8 (.node (single 20) 22 (single 35))) 36
    (.node (.node (single 40) 45 (single 47)) 50 (.node (single 99) 107 (single 1001)))

theorem treeData_holds : TreeNodes.Holds treeData 0x6030f0 treeKeys := by
  simp [TreeNodes.Holds, treeData, treeKeys]

theorem treeKeys_ordered : treeKeys.Ordered := by
  simp [treeKeys, SearchTree.Ordered, SearchTree.All]

/-- Two is the way left, then right, and perhaps left again. -/
theorem fun7_two (number : BitVec 32) :
    fun7 treeData 32 0x6030f0 number = some 2 ↔ number = 0x14 ∨ number = 0x16 := by
  refine (fun7_eq_code_iff treeData_holds treeKeys_ordered (by decide) (by decide) number
    [false, true] (by decide)).trans ⟨?_, ?_⟩
  · rintro ⟨other, found, same⟩
    rcases other with _ | ⟨a, _ | ⟨b, _ | ⟨c, _ | ⟨d, rest⟩⟩⟩⟩
    · simp at same
    · simp at same
    · obtain ⟨rfl, rfl⟩ : a = false ∧ b = true := by simpa using same
      simp only [treeKeys, SearchTree.keyAt] at found
      exact .inr (BitVec.toInt_inj.1 (Option.some.inj found).symm)
    · obtain ⟨rfl, rfl, rfl⟩ : a = false ∧ b = true ∧ c = false := by simpa using same
      simp only [treeKeys, SearchTree.keyAt] at found
      exact .inl (BitVec.toInt_inj.1 (Option.some.inj found).symm)
    · obtain ⟨rfl, rfl, rfl, rfl⟩ : a = false ∧ b = true ∧ c = false ∧ d = false := by
        simp [List.replicate_succ] at same
        tauto
      -- there is no node that deep under 20
      simp [treeKeys, SearchTree.keyAt] at found
  · rintro (rfl | rfl)
    · exact ⟨[false, true, false], by decide, rfl⟩
    · exact ⟨[false, true], by decide, rfl⟩

theorem secretPhase_decides (input : List Char) :
    Decides (secretPhase input) (BitVec.ofInt 32 (strtol 10 input).1 = (0x14 : BitVec 32) ∨
      BitVec.ofInt 32 (strtol 10 input).1 = (0x16 : BitVec 32)) := by
  unfold secretPhase
  generalize BitVec.ofInt 32 (strtol 10 input).1 = number
  obtain ⟨eax, result⟩ : ∃ eax, fun7 treeData 32 0x6030f0 number = some eax :=
    ⟨_, fun7_eq treeData_holds (by decide) number⟩
  have isTwo := fun7_two number
  rw [result, Option.some_inj] at isTwo
  simp only [result]
  refine ((decides_explodeIf _).bind fun _ _ => decides_explodeIf (eax ≠ 2)).congr ?_
  rw [not_ne_iff, isTwo]
  constructor
  · exact And.right
  · rintro (rfl | rfl)
    · exact ⟨by decide, .inl rfl⟩
    · exact ⟨by decide, .inr rfl⟩

/-! ## All of them -/

/-- **Which lines defuse a phase.** On every other line it explodes. -/
theorem phases_decide (input : List Char) :
    Decides (phase1 input)
        (input = "Border relations with Canada have never been better.".toList) ∧
      Decides (phase2 input) (sscanf 6 input = [1, 2, 4, 8, 16, 32]) ∧
      Decides (phase3 input) (∃ x y, sscanf 2 input = [x, y] ∧
        x.toNat < 8 ∧ (jumpTable[x.toNat]?).bind caseAt = some y) ∧
      Decides (phase4 input) (∃ x y, sscanf 2 input = [x, y] ∧
        x ∈ [(0 : BitVec 32), 1, 3, 7] ∧ y = 0) ∧
      Decides (phase5 input) (input.length % 2 ^ 32 = 6 ∧
        (input.take 6).map (fun c => c.toNat % 16) = [9, 15, 14, 5, 6, 7]) ∧
      Decides (phase6 input) (sscanf 6 input = [4, 3, 2, 1, 6, 5]) ∧
      Decides (secretPhase input) (BitVec.ofInt 32 (strtol 10 input).1 = (0x14 : BitVec 32) ∨
        BitVec.ofInt 32 (strtol 10 input).1 = (0x16 : BitVec 32)) :=
  ⟨phase1_decides input, phase2_decides input, phase3_decides input, phase4_decides input,
    phase5_decides input, phase6_decides input, secretPhase_decides input⟩

end CsappLab.Bomb
