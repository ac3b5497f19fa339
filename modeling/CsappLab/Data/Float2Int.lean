/-
# Data.Float2Int — `floatFloat2Int` truncates

The numbers below 1 give 0, those from 1 to 2 give 1 without a look at the fraction, and
those from 2³¹ on give `0x80000000`. In between the fraction is shifted, together with the
bit for the implicit 1. That bit is `1 << 24` where the fraction has 23 bits: the result
is too large by the power of two the bit stands for (`floatFloat2Int_middle`), so it is
wrong for every number in between (`floatFloat2Int_truncates_iff`).
-/
import CsappLab.Data.Bits
import CsappLab.Lib.Ieee

namespace CsappLab.Data

set_option autoImplicit false

open CsappLab.Lib

/-- `r` is the number `uf` cut off to an `int`, or `0x80000000` if that is none. -/
structure Truncates (uf r : BitVec 32) : Prop where
  inRange : single.Finite uf.toNat → -2 ^ 31 ≤ truncate (single.value uf.toNat) →
    truncate (single.value uf.toNat) ≤ 2 ^ 31 - 1 → r.toInt = truncate (single.value uf.toNat)
  outOfRange : ¬ (single.Finite uf.toNat ∧ -2 ^ 31 ≤ truncate (single.value uf.toNat) ∧
    truncate (single.value uf.toNat) ≤ 2 ^ 31 - 1) → r = 0x80000000

/-- The absolute value, cut off. -/
def whole (x : Nat) : Nat := single.units x / 2 ^ 149

theorem whole_of_le {x : Nat} (normal : x / 2 ^ 23 % 2 ^ 8 ≠ 0) (le : x / 2 ^ 23 % 2 ^ 8 ≤ 150) :
    whole x = (2 ^ 23 + x % 2 ^ 23) / 2 ^ (150 - x / 2 ^ 23 % 2 ^ 8) := by
  have power : 2 ^ 149 = 2 ^ (150 - x / 2 ^ 23 % 2 ^ 8) * 2 ^ (x / 2 ^ 23 % 2 ^ 8 - 1) := by
    rw [← Nat.pow_add]
    congr 1
    omega
  unfold whole Format.units
  rw [single_exponent, if_neg normal, power]
  exact Nat.mul_div_mul_right _ _ (Nat.two_pow_pos _)

theorem whole_of_ge {x : Nat} (ge : 150 ≤ x / 2 ^ 23 % 2 ^ 8) :
    whole x = (2 ^ 23 + x % 2 ^ 23) * 2 ^ (x / 2 ^ 23 % 2 ^ 8 - 150) := by
  have power : 2 ^ (x / 2 ^ 23 % 2 ^ 8 - 1) = 2 ^ (x / 2 ^ 23 % 2 ^ 8 - 150) * 2 ^ 149 := by
    rw [← Nat.pow_add]
    congr 1
    omega
  unfold whole Format.units
  rw [single_exponent, if_neg (by omega), power, ← Nat.mul_assoc]
  exact Nat.mul_div_cancel _ (Nat.two_pow_pos _)

/-- The values below 1. -/
theorem whole_eq_zero {x : Nat} (small : x / 2 ^ 23 % 2 ^ 8 < 127) : whole x = 0 := by
  have less := single.units_lt x
  have power : 2 ^ (23 + x / 2 ^ 23 % 2 ^ 8) ≤ 2 ^ 149 :=
    Nat.pow_le_pow_right (by decide) (by omega)
  exact Nat.div_eq_of_lt (Nat.lt_of_lt_of_le less power)

theorem whole_lt {x : Nat} (small : x / 2 ^ 23 % 2 ^ 8 < 158) : whole x < 2 ^ 31 := by
  have less := single.units_lt x
  have power : 2 ^ (23 + x / 2 ^ 23 % 2 ^ 8) ≤ 2 ^ 180 :=
    Nat.pow_le_pow_right (by decide) (by omega)
  unfold whole
  rw [Nat.div_lt_iff_lt_mul (Nat.two_pow_pos _), ← Nat.pow_add]
  exact Nat.lt_of_lt_of_le less power

theorem le_whole {x : Nat} (large : 158 ≤ x / 2 ^ 23 % 2 ^ 8) : 2 ^ 31 ≤ whole x := by
  have normal : single.exponent x ≠ 0 := by
    rw [single_exponent]
    omega
  have le := single.le_units normal
  have power : 2 ^ 180 ≤ 2 ^ (23 + x / 2 ^ 23 % 2 ^ 8 - 1) :=
    Nat.pow_le_pow_right (by decide) (by omega)
  unfold whole
  rw [Nat.le_div_iff_mul_le (Nat.two_pow_pos _), ← Nat.pow_add]
  exact Nat.le_trans power le

theorem truncate_single (x : Nat) :
    truncate (single.value x) =
      if x / 2 ^ 31 % 2 = 1 then -(whole x : Int) else (whole x : Int) := by
  rw [single.truncate_value, single_scale, single_negative]
  simp only [beq_iff_eq]
  rfl

/-- The last statement of `floatFloat2Int`: the sign of `uf` is given to `mantissa`. -/
def withSign (uf mantissa : BitVec 32) : BitVec 32 :=
  if uf &&& ((1 : BitVec 32) <<< 31) = 0 then mantissa else ~~~mantissa + 1

theorem complement_succ (m : BitVec 32) : ~~~m + 1 = -m :=
  (BitVec.neg_eq_not_add m).symm

theorem withSign_injective (uf : BitVec 32) : Function.Injective (withSign uf) := by
  intro a b same
  unfold withSign at same
  split_ifs at same
  · exact same
  · rw [complement_succ, complement_succ] at same
    exact BitVec.neg_inj.1 same

/-- The truncated number as an `int`. -/
theorem withSign_whole (uf : BitVec 32) :
    withSign uf (BitVec.ofNat 32 (whole uf.toNat)) =
      BitVec.ofInt 32 (truncate (single.value uf.toNat)) := by
  have word := uf.isLt
  have sign := sign_toNat uf
  have zero : uf &&& ((1 : BitVec 32) <<< 31) = 0 ↔ ¬ uf.toNat / 2 ^ 31 % 2 = 1 := by
    rw [← BitVec.toNat_inj, sign]
    show _ = 0 ↔ _
    omega
  unfold withSign
  rw [truncate_single]
  by_cases minus : uf.toNat / 2 ^ 31 % 2 = 1
  · rw [if_pos minus, if_neg fun plus => zero.1 plus minus, complement_succ,
      BitVec.ofInt_neg, BitVec.ofInt_natCast]
  · rw [if_neg minus, if_pos (zero.2 minus), BitVec.ofInt_natCast]

/-- The unbiased exponent. -/
theorem unbiased_toInt (uf : BitVec 32) :
    (((uf >>> 23) &&& 0xff) - 127 : BitVec 32).toInt = (uf.toNat / 2 ^ 23 % 2 ^ 8 : Nat) - 127 := by
  have byte := exp_toNat uf
  have bias : (127 : BitVec 32).toNat = 127 := rfl
  rw [BitVec.toInt_eq_toNat_cond, BitVec.toNat_sub, byte, bias]
  split_ifs <;> omega

/-- The fraction with the bit that stands for the implicit 1. -/
def extended (uf : BitVec 32) : BitVec 32 :=
  (uf &&& (0x7fffff : BitVec 32)) ||| ((1 : BitVec 32) <<< 24)

theorem extended_toNat (uf : BitVec 32) :
    (extended uf).toNat = 2 ^ 24 + uf.toNat % 2 ^ 23 := by
  have bit : ((1 : BitVec 32) <<< 24).toNat = 1 * 2 ^ 24 := by decide
  unfold extended
  rw [BitVec.toNat_or, mantissa_toNat, bit, Nat.or_comm, or_add 1 (by omega), Nat.one_mul]

/-- The branches of `floatFloat2Int`, by the exponent. -/
theorem floatFloat2Int_eq (uf : BitVec 32) :
    floatFloat2Int uf =
      if uf.toNat / 2 ^ 23 % 2 ^ 8 < 127 then 0
      else if uf.toNat / 2 ^ 23 % 2 ^ 8 = 127 then withSign uf 1
      else if 158 ≤ uf.toNat / 2 ^ 23 % 2 ^ 8 then 0x80000000
      else if uf.toNat / 2 ^ 23 % 2 ^ 8 ≤ 150 then
        withSign uf ((extended uf).sshiftRight (150 - uf.toNat / 2 ^ 23 % 2 ^ 8))
      else withSign uf (extended uf <<< (uf.toNat / 2 ^ 23 % 2 ^ 8 - 150)) := by
  have unbiased := unbiased_toInt uf
  have top := Nat.mod_lt (uf.toNat / 2 ^ 23) (show 0 < 2 ^ 8 by decide)
  generalize uf.toNat / 2 ^ 23 % 2 ^ 8 = e at unbiased top
  show (if (((uf >>> 23) &&& 0xff) - 127 : BitVec 32).slt 0 = true then (0 : BitVec 32)
    else if (((uf >>> 23) &&& 0xff) - 127 : BitVec 32) = 0 then withSign uf 1
    else if (31 : BitVec 32).sle (((uf >>> 23) &&& 0xff) - 127) = true then (1 : BitVec 32) <<< 31
    else if (0 : BitVec 32).slt (((uf >>> 23) &&& 0xff) - 127) = true ∧
        (((uf >>> 23) &&& 0xff) - 127 : BitVec 32).sle 23 = true then
      withSign uf
        ((extended uf).sshiftRight ((23 : BitVec 32) - (((uf >>> 23) &&& 0xff) - 127)).toNat)
    else withSign uf (extended uf <<< ((((uf >>> 23) &&& 0xff) - 127) - 23).toNat)) = _
  generalize (((uf >>> 23) &&& 0xff) - 127 : BitVec 32) = E at unbiased
  have isLess : E.slt 0 = true ↔ e < 127 := by
    rw [BitVec.slt_iff_toInt_lt, unbiased]
    show _ < 0 ↔ _
    omega
  have isZero : E = 0 ↔ e = 127 := by
    rw [← BitVec.toInt_inj, unbiased]
    show _ = 0 ↔ _
    omega
  have isLarge : (31 : BitVec 32).sle E = true ↔ 158 ≤ e := by
    rw [BitVec.sle_iff_toInt_le, unbiased]
    show 31 ≤ _ ↔ _
    omega
  have isMiddle : (0 : BitVec 32).slt E = true ∧ E.sle 23 = true ↔ 127 < e ∧ e ≤ 150 := by
    rw [BitVec.slt_iff_toInt_lt, BitVec.sle_iff_toInt_le, unbiased]
    show 0 < _ ∧ _ ≤ 23 ↔ _
    omega
  by_cases small : e < 127
  · rw [if_pos (isLess.2 small), if_pos small]
  rw [if_neg fun less => small (isLess.1 less), if_neg small]
  by_cases one : e = 127
  · rw [if_pos (isZero.2 one), if_pos one]
  rw [if_neg fun zero => one (isZero.1 zero), if_neg one]
  by_cases large : 158 ≤ e
  · rw [if_pos (isLarge.2 large), if_pos large]
    rfl
  rw [if_neg fun more => large (isLarge.1 more), if_neg large]
  have count : E.toNat = e - 127 := by
    have word := E.isLt
    rw [BitVec.toInt_eq_toNat_cond] at unbiased
    split_ifs at unbiased <;> omega
  have ofNat : (23 : BitVec 32).toNat = 23 := rfl
  by_cases right : e ≤ 150
  · have amount : ((23 : BitVec 32) - E).toNat = 150 - e := by
      rw [BitVec.toNat_sub, count, ofNat]
      omega
    rw [if_pos (isMiddle.2 ⟨by omega, right⟩), if_pos right, amount]
  · have amount : (E - 23).toNat = e - 150 := by
      rw [BitVec.toNat_sub, count, ofNat]
      omega
    rw [if_neg fun middle => right (isMiddle.1 middle).2, if_neg right, amount]

theorem floatFloat2Int_small {uf : BitVec 32} (small : uf.toNat / 2 ^ 23 % 2 ^ 8 ≤ 127) :
    floatFloat2Int uf = withSign uf (BitVec.ofNat 32 (whole uf.toNat)) := by
  rw [floatFloat2Int_eq]
  rcases Nat.lt_or_eq_of_le small with less | one
  · have zero : ~~~(0 : BitVec 32) + 1 = 0 := by decide
    rw [if_pos less, whole_eq_zero less]
    unfold withSign
    split_ifs
    · rfl
    · exact zero.symm
  · have unit : whole uf.toNat = 1 := by
      rw [whole_of_le (by omega) (by omega), one]
      omega
    rw [if_neg (by omega), if_pos one, unit]
    rfl

/-- From 2 on the implicit 1 stands one bit too high: the result is too large by the
power of two it stands for. -/
theorem floatFloat2Int_middle {uf : BitVec 32} (low : 127 < uf.toNat / 2 ^ 23 % 2 ^ 8)
    (high : uf.toNat / 2 ^ 23 % 2 ^ 8 < 158) :
    floatFloat2Int uf = withSign uf
      (BitVec.ofNat 32 (whole uf.toNat + 2 ^ (uf.toNat / 2 ^ 23 % 2 ^ 8 - 127))) := by
  have extend := extended_toNat uf
  rw [floatFloat2Int_eq, if_neg (by omega), if_neg (by omega), if_neg (by omega)]
  by_cases right : uf.toNat / 2 ^ 23 % 2 ^ 8 ≤ 150
  · have value := whole_of_le (by omega) right
    generalize uf.toNat / 2 ^ 23 % 2 ^ 8 = e at low high right value
    have positive : (extended uf).msb = false := by
      rw [BitVec.msb_eq_false_iff_two_mul_lt]
      omega
    have power : 2 ^ 23 = 2 ^ (e - 127) * 2 ^ (150 - e) := by
      rw [← Nat.pow_add, show e - 127 + (150 - e) = 23 by omega]
    have split_ : 2 ^ 24 + uf.toNat % 2 ^ 23 =
        (2 ^ 23 + uf.toNat % 2 ^ 23) + 2 ^ (e - 127) * 2 ^ (150 - e) := by
      rw [← power]
      omega
    have fits : (2 ^ 23 + uf.toNat % 2 ^ 23) / 2 ^ (150 - e) + 2 ^ (e - 127) < 2 ^ 32 := by
      have below : (2 ^ 23 + uf.toNat % 2 ^ 23) / 2 ^ (150 - e) ≤ 2 ^ 23 + uf.toNat % 2 ^ 23 :=
        Nat.div_le_self _ _
      have below' : 2 ^ (e - 127) ≤ 2 ^ 23 := Nat.pow_le_pow_right (by decide) (by omega)
      omega
    rw [if_pos right]
    apply congrArg (withSign uf)
    apply BitVec.eq_of_toNat_eq
    rw [BitVec.sshiftRight_eq_of_msb_false positive, BitVec.toNat_ushiftRight, extend,
      Nat.shiftRight_eq_div_pow, split_, Nat.add_mul_div_right _ _ (Nat.two_pow_pos _), value,
      BitVec.toNat_ofNat, Nat.mod_eq_of_lt fits]
  · have value := whole_of_ge (x := uf.toNat) (by omega)
    generalize uf.toNat / 2 ^ 23 % 2 ^ 8 = e at low high right value
    have power : 2 ^ (e - 127) = 2 ^ 23 * 2 ^ (e - 150) := by
      rw [← Nat.pow_add, show 23 + (e - 150) = e - 127 by omega]
    rw [if_neg right]
    apply congrArg (withSign uf)
    apply BitVec.eq_of_toNat_eq
    rw [BitVec.toNat_shiftLeft, extend, Nat.shiftLeft_eq, BitVec.toNat_ofNat, value, power,
      ← Nat.add_mul, show 2 ^ 23 + uf.toNat % 2 ^ 23 + 2 ^ 23 = 2 ^ 24 + uf.toNat % 2 ^ 23 by omega]

theorem single_finite_iff (uf : BitVec 32) :
    single.Finite uf.toNat ↔ uf.toNat / 2 ^ 23 % 2 ^ 8 < 255 := by
  unfold Format.Finite
  rw [single_expMax, single_exponent]

/-- Below 2^31 in absolute value the truncated number is an `int`. -/
theorem truncate_inRange {uf : BitVec 32} (small : uf.toNat / 2 ^ 23 % 2 ^ 8 < 158) :
    single.Finite uf.toNat ∧ -2 ^ 31 ≤ truncate (single.value uf.toNat) ∧
      truncate (single.value uf.toNat) ≤ 2 ^ 31 - 1 := by
  have bound := whole_lt small
  rw [single_finite_iff, truncate_single]
  refine ⟨by omega, ?_, ?_⟩
  · split_ifs <;> omega
  · split_ifs <;> omega

theorem truncates_small {uf : BitVec 32} (small : uf.toNat / 2 ^ 23 % 2 ^ 8 ≤ 127) :
    Truncates uf (floatFloat2Int uf) := by
  obtain ⟨finite, low, high⟩ := @truncate_inRange uf (by omega)
  constructor
  · intro _ _ _
    rw [floatFloat2Int_small small, withSign_whole, BitVec.toInt_ofInt]
    exact Int.bmod_eq_of_le (by omega) (by omega)
  · intro outside
    exact absurd ⟨finite, low, high⟩ outside

/-- From 2^31 on only -2^31 itself is an `int`, and that is what is returned. -/
theorem truncates_large {uf : BitVec 32} (large : 158 ≤ uf.toNat / 2 ^ 23 % 2 ^ 8) :
    Truncates uf (floatFloat2Int uf) := by
  have bound := le_whole large
  have result : floatFloat2Int uf = 0x80000000 := by
    rw [floatFloat2Int_eq, if_neg (by omega), if_neg (by omega), if_pos large]
  refine ⟨?_, fun _ => result⟩
  intro _ low high
  have least : truncate (single.value uf.toNat) = -2 ^ 31 := by
    rw [truncate_single] at low high ⊢
    split_ifs at low high ⊢ <;> omega
  rw [result, least]
  decide

/-- In between the bit that stands for the implicit 1 is one place too high. -/
theorem not_truncates_middle {uf : BitVec 32} (low : 127 < uf.toNat / 2 ^ 23 % 2 ^ 8)
    (high : uf.toNat / 2 ^ 23 % 2 ^ 8 < 158) : ¬ Truncates uf (floatFloat2Int uf) := by
  intro truncates
  have small := whole_lt high
  obtain ⟨finite, least, most⟩ := truncate_inRange high
  have result := truncates.inRange finite least most
  rw [floatFloat2Int_middle low high] at result
  have same : withSign uf (BitVec.ofNat 32
      (whole uf.toNat + 2 ^ (uf.toNat / 2 ^ 23 % 2 ^ 8 - 127))) =
      withSign uf (BitVec.ofNat 32 (whole uf.toNat)) := by
    rw [withSign_whole, ← result, BitVec.ofInt_toInt]
  have equal := congrArg BitVec.toNat (withSign_injective uf same)
  have power : 2 ^ (uf.toNat / 2 ^ 23 % 2 ^ 8 - 127) ≤ 2 ^ 30 :=
    Nat.pow_le_pow_right (by decide) (by omega)
  have pos : 0 < 2 ^ (uf.toNat / 2 ^ 23 % 2 ^ 8 - 127) := Nat.two_pow_pos _
  rw [BitVec.toNat_ofNat, BitVec.toNat_ofNat] at equal
  omega

/-- **`floatFloat2Int` truncates** the numbers below 2 in absolute value, and returns
`0x80000000` where it has to; in between it is wrong everywhere. -/
theorem floatFloat2Int_truncates_iff (uf : BitVec 32) :
    Truncates uf (floatFloat2Int uf) ↔
      single.exponent uf.toNat ≤ 127 ∨ 158 ≤ single.exponent uf.toNat := by
  rw [single_exponent]
  constructor
  · intro truncates
    by_contra between
    exact not_truncates_middle (by omega) (by omega) truncates
  · rintro (small | large)
    · exact truncates_small small
    · exact truncates_large large

/-- The number 2. -/
theorem floatFloat2Int_two : ¬ Truncates 0x40000000 (floatFloat2Int 0x40000000) := by
  intro truncates
  have cut : truncate (single.value (0x40000000 : BitVec 32).toNat) = 2 := by
    rw [truncate_single]
    decide
  have result := truncates.inRange (by unfold Format.Finite; decide) (by rw [cut]; decide)
    (by rw [cut]; decide)
  rw [cut] at result
  exact absurd result (by decide)

end CsappLab.Data
