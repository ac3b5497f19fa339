/-
# Data.HowManyBits — `howManyBits` is the least number of bits

`x ^ (x >> 31)` is the magnitude of `x`, and the five steps are a binary search for its
number of digits: word by word they are `searchBits` (`searchWord_eq`). The loop of
`test_howManyBits` counts the same digits one by one (`shiftLoop_eq`).
-/
import CsappLab.Data.Bits
import CsappLab.Lib.BitLength

namespace CsappLab.Data

set_option autoImplicit false

open CsappLab.Lib

/-! ## The magnitude -/

theorem magnitude_toInt (x : BitVec 32) :
    magnitude x.toInt = if x.msb then 2 ^ 32 - 1 - x.toNat else x.toNat := by
  have word := x.isLt
  unfold magnitude
  rw [BitVec.toInt_eq_msb_cond]
  cases sign : x.msb with
  | false => simp
  | true =>
      rw [if_pos rfl, if_neg (by omega), if_pos rfl]
      omega

theorem magnitude_lt (x : BitVec 32) : magnitude x.toInt < 2 ^ 31 := by
  have word := x.isLt
  rw [magnitude_toInt]
  have top := BitVec.msb_eq_decide x
  cases sign : x.msb with
  | false => simp [sign] at top ⊢; omega
  | true => simp [sign] at top ⊢; omega

/-- `x ^ (x >> 31)`. -/
theorem xor_sign_toNat (x : BitVec 32) :
    (x ^^^ x.sshiftRight 31).toNat = magnitude x.toInt := by
  have small := magnitude_lt x
  rw [magnitude_toInt] at small ⊢
  cases sign : x.msb with
  | false =>
      rw [sign, if_neg Bool.false_ne_true] at small
      have zero : x.sshiftRight 31 = 0 := by
        apply BitVec.eq_of_toNat_eq
        rw [BitVec.toNat_sshiftRight_of_msb_false sign, Nat.shiftRight_eq_div_pow,
          Nat.div_eq_of_lt small]
        rfl
      rw [zero]
      simp
  | true =>
      rw [sign, if_pos rfl] at small
      have ones : x.sshiftRight 31 = BitVec.allOnes 32 := by
        have zero : ~~~x >>> 31 = 0 := by
          apply BitVec.eq_of_toNat_eq
          rw [BitVec.toNat_ushiftRight, BitVec.toNat_not, Nat.shiftRight_eq_div_pow,
            Nat.div_eq_of_lt small]
          rfl
        rw [BitVec.sshiftRight_eq_of_msb_true sign, zero]
        rfl
      rw [ones, BitVec.xor_allOnes, BitVec.toNat_not, if_pos rfl]

/-! ## The search -/

/-- The steps from shift `2 ^ (n - 1)` down, and the digit that is left. -/
def searchWord : Nat → BitVec 32 → BitVec 32
  | 0, absX => absX
  | n + 1, absX =>
      let b := notNot (absX.sshiftRight (2 ^ n)) <<< n
      b + searchWord n (absX.sshiftRight b.toNat)

theorem howManyBits_eq_searchWord (x : BitVec 32) :
    howManyBits x = searchWord 5 (x ^^^ x.sshiftRight 31) + 1 := by
  simp only [howManyBits, searchWord, BitVec.add_assoc]
  simp

theorem shiftRight_toNat {absX : BitVec 32} (positive : absX.toNat < 2 ^ 31) (k : Nat) :
    (absX.sshiftRight k).toNat = absX.toNat / 2 ^ k := by
  have sign : absX.msb = false := by
    rw [BitVec.msb_eq_decide]
    simpa using positive
  rw [BitVec.toNat_sshiftRight_of_msb_false sign, Nat.shiftRight_eq_div_pow]

/-- One step: whether the upper digits are all zero, as the amount to shift by. -/
theorem step_eq {absX : BitVec 32} (positive : absX.toNat < 2 ^ 31) (n : Nat) :
    notNot (absX.sshiftRight (2 ^ n)) <<< n =
      BitVec.ofNat 32 (if absX.toNat / 2 ^ 2 ^ n = 0 then 0 else 2 ^ n) := by
  have upper := shiftRight_toNat positive (2 ^ n)
  have zero : absX.sshiftRight (2 ^ n) = 0 ↔ absX.toNat / 2 ^ 2 ^ n = 0 := by
    rw [← upper]
    exact (BitVec.toNat_inj (y := 0)).symm
  unfold notNot
  by_cases short : absX.toNat / 2 ^ 2 ^ n = 0
  · rw [if_pos (zero.2 short), if_pos short]
    simp
  · rw [if_neg (zero.not.2 short), if_neg short]
    apply BitVec.eq_of_toNat_eq
    rw [BitVec.toNat_shiftLeft, BitVec.toNat_ofNat, Nat.shiftLeft_eq]
    simp

/-- The five steps are the binary search. -/
theorem searchWord_eq {n : Nat} {absX : BitVec 32} (upTo5 : n ≤ 5)
    (positive : absX.toNat < 2 ^ 31) :
    searchWord n absX = BitVec.ofNat 32 (searchBits n absX.toNat) := by
  induction n generalizing absX with
  | zero => simp [searchWord, searchBits]
  | succ n ih =>
      have step := step_eq positive n
      have amount : (BitVec.ofNat 32
          (if absX.toNat / 2 ^ 2 ^ n = 0 then 0 else 2 ^ n)).toNat =
          if absX.toNat / 2 ^ 2 ^ n = 0 then 0 else 2 ^ n := by
        have small : 2 ^ n ≤ 2 ^ 4 := Nat.pow_le_pow_right (by decide) (by omega)
        rw [BitVec.toNat_ofNat]
        apply Nat.mod_eq_of_lt
        split_ifs <;> omega
      unfold searchWord searchBits
      simp only [step, amount]
      generalize (if absX.toNat / 2 ^ 2 ^ n = 0 then 0 else 2 ^ n) = b
      have rest := shiftRight_toNat positive b
      have positive' : (absX.sshiftRight b).toNat < 2 ^ 31 := by
        rw [rest]
        exact Nat.lt_of_le_of_lt (Nat.div_le_self _ _) positive
      rw [ih (by omega) positive', rest, BitVec.ofNat_add]

theorem howManyBits_eq (x : BitVec 32) :
    howManyBits x = BitVec.ofNat 32 (Nat.size (magnitude x.toInt) + 1) := by
  have small := magnitude_lt x
  have word : magnitude x.toInt < 2 ^ 2 ^ 5 := Nat.lt_trans small (by decide)
  have positive : (x ^^^ x.sshiftRight 31).toNat < 2 ^ 31 := by
    rw [xor_sign_toNat]
    exact small
  rw [howManyBits_eq_searchWord, searchWord_eq (Nat.le_refl 5) positive, xor_sign_toNat,
    searchBits_eq_size word, BitVec.ofNat_add]
  rfl

/-! ## The reference -/

/-- The loop counts the digits. -/
theorem shiftLoop_eq {rounds : Nat} {a : BitVec 32} (cnt : BitVec 32)
    (enough : Nat.size a.toNat < rounds) :
    shiftLoop rounds a cnt = some (cnt + BitVec.ofNat 32 (Nat.size a.toNat)) := by
  induction rounds generalizing a cnt with
  | zero => cases enough
  | succ rounds ih =>
      unfold shiftLoop
      by_cases zero : a = 0
      · rw [if_pos zero, zero]
        simp
      · have pos : 0 < a.toNat := by
          rw [Nat.pos_iff_ne_zero]
          exact fun none_ => zero (BitVec.eq_of_toNat_eq none_)
        have half : (a >>> 1).toNat = a.toNat / 2 := by
          rw [BitVec.toNat_ushiftRight, Nat.shiftRight_eq_div_pow]
        have digits := size_half pos
        rw [if_neg zero, ih _ (by rw [half]; omega), half, digits, BitVec.ofNat_add,
          BitVec.add_assoc, BitVec.add_comm 1]
        rfl

/-- The argument of the loop. -/
theorem abs_toNat (x : BitVec 32) :
    (if x.slt 0 then -x - 1 else x).toNat = magnitude x.toInt := by
  have negative : x.slt 0 = x.msb := BitVec.slt_zero_eq_msb
  rw [magnitude_toInt, negative]
  cases sign : x.msb with
  | false => simp
  | true =>
      have not_ : -x - 1 = ~~~x := by
        rw [BitVec.neg_eq_not_add]
        exact BitVec.add_sub_cancel _ 1
      rw [if_pos rfl, if_pos rfl, not_, BitVec.toNat_not]

/-- **`howManyBits` is right**: the result is the least number of bits in which the argument
can be represented, and the reference returns it too. -/
theorem howManyBits_isLeast (x : BitVec 32) :
    IsLeast {n : Nat | 1 ≤ n ∧ -2 ^ (n - 1) ≤ x.toInt ∧ x.toInt < 2 ^ (n - 1)}
      (howManyBits x).toNat ∧
    test_howManyBits x = some (howManyBits x) := by
  have small := magnitude_lt x
  have digits : Nat.size (magnitude x.toInt) ≤ 31 := Nat.size_le.2 small
  have value : (howManyBits x).toNat = Nat.size (magnitude x.toInt) + 1 := by
    rw [howManyBits_eq, BitVec.toNat_ofNat]
    omega
  refine ⟨⟨?_, ?_⟩, ?_⟩
  · rw [value]
    exact ⟨Nat.le_add_left _ _, (fits_iff _ _).2 (Nat.lt_size_self _)⟩
  · rintro n ⟨pos, fits⟩
    have enough := Nat.size_le.2 ((fits_iff _ _).1 fits)
    rw [value]
    omega
  · have loop := @shiftLoop_eq 33 (if x.slt 0 then -x - 1 else x) 0 (by rw [abs_toNat]; omega)
    rw [abs_toNat] at loop
    unfold test_howManyBits
    simp only [loop, howManyBits_eq, BitVec.ofNat_add]
    simp

example : ([12, 298, -5, 0, -1, 0x80000000] : List (BitVec 32)).map howManyBits =
    [5, 10, 4, 1, 1, 32] := by decide

end CsappLab.Data
