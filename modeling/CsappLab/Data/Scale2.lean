/-
# Data.Scale2 — `floatScale2` doubles

With exponent 0 the fraction is doubled, and where its top bit is set it carries into
the exponent, which makes the subnormal number a normal one. Otherwise the exponent goes
up by 1. Where it reaches that of the infinities the fraction is kept, so the result is an
infinity only if the fraction is 0 (`floatScale2_doubles_iff`).
-/
import CsappLab.Data.Bits
import CsappLab.Lib.Ieee

namespace CsappLab.Data

set_option autoImplicit false

open CsappLab.Lib

theorem floatScale2_special {uf : BitVec 32} (special : uf.toNat / 2 ^ 23 % 2 ^ 8 = 255) :
    floatScale2 uf = uf := by
  have exp : (uf >>> 23) &&& 0xff = 0xff := by
    apply BitVec.eq_of_toNat_eq
    rw [exp_toNat, special]
    rfl
  simp only [floatScale2, exp, if_true]

/-- The bit that is looked at lies outside the fraction. -/
theorem implicitBit_clear (uf : BitVec 32) :
    ((1 : BitVec 32) <<< 23) &&& (uf &&& 0x7fffff) = 0 := by
  have outside : ((1 : BitVec 32) <<< 23) &&& 0x7fffff = 0 := by decide
  rw [BitVec.and_comm uf, ← BitVec.and_assoc, outside]
  exact BitVec.zero_and

/-- With exponent 0 the fraction is doubled, and may carry into the exponent. -/
theorem floatScale2_subnormal {uf : BitVec 32} (subnormal : uf.toNat / 2 ^ 23 % 2 ^ 8 = 0) :
    (floatScale2 uf).toNat = uf.toNat / 2 ^ 31 * 2 ^ 31 + 2 * (uf.toNat % 2 ^ 23) := by
  have exp : (uf >>> 23) &&& 0xff = 0 := by
    apply BitVec.eq_of_toNat_eq
    rw [exp_toNat, subnormal]
    rfl
  have doubled : ((uf &&& 0x7fffff) <<< 1).toNat = 2 * (uf.toNat % 2 ^ 23) := by
    rw [BitVec.toNat_shiftLeft, mantissa_toNat, Nat.shiftLeft_eq, Nat.mod_eq_of_lt (by omega),
      Nat.mul_comm]
  have result : floatScale2 uf =
      (uf &&& ((1 : BitVec 32) <<< 31)) ||| ((0 : BitVec 32) <<< 23) |||
        ((uf &&& 0x7fffff) <<< 1) := by
    have notMax : (0 : BitVec 32) ≠ 0xff := by decide
    simp only [floatScale2, exp, implicitBit_clear, if_neg notMax, if_true]
  have empty : ((0 : BitVec 32) <<< 23).toNat = 0 := by decide
  rw [result, BitVec.toNat_or, BitVec.toNat_or, empty, Nat.or_zero, sign_toNat, doubled,
    or_add _ (by omega)]

/-- Otherwise the exponent goes up by 1. -/
theorem floatScale2_normal {uf : BitVec 32} (normal : uf.toNat / 2 ^ 23 % 2 ^ 8 ≠ 0)
    (finite : uf.toNat / 2 ^ 23 % 2 ^ 8 ≠ 255) : (floatScale2 uf).toNat = uf.toNat + 2 ^ 23 := by
  have byte := exp_toNat uf
  have fraction := mantissa_toNat uf
  have notZero : (uf >>> 23) &&& 0xff ≠ 0 := by
    intro zero
    rw [zero] at byte
    exact normal byte.symm
  have notMax : (uf >>> 23) &&& 0xff ≠ 0xff := by
    intro max
    rw [max] at byte
    exact finite byte.symm
  have up : (((uf >>> 23) &&& 0xff) + 1).toNat = uf.toNat / 2 ^ 23 % 2 ^ 8 + 1 := by
    have one : (1 : BitVec 32).toNat = 1 := rfl
    rw [BitVec.toNat_add, byte, one, Nat.mod_eq_of_lt (by omega)]
  have result : floatScale2 uf = (uf &&& ((1 : BitVec 32) <<< 31)) |||
      ((((uf >>> 23) &&& 0xff) + 1) <<< 23) ||| (uf &&& 0x7fffff) := by
    simp only [floatScale2, if_neg notMax, if_neg notZero]
  rw [result, or_toNat (sign_toNat uf) (by omega) (by omega), up, fraction]
  have word := uf.isLt
  omega

/-- `r` is twice `uf`: `uf` itself if that is infinite or NaN, the exact double if there
is one, and otherwise the infinity of the same sign. -/
structure Doubles (uf r : BitVec 32) : Prop where
  special : single.exponent uf.toNat = 255 → r = uf
  double : single.exponent uf.toNat ≠ 255 → |2 * single.value uf.toNat| < 2 ^ 128 →
    single.Finite r.toNat ∧ single.negative r.toNat = single.negative uf.toNat ∧
      single.value r.toNat = 2 * single.value uf.toNat
  overflow : single.exponent uf.toNat ≠ 255 → 2 ^ 128 ≤ |2 * single.value uf.toNat| →
    r.toNat = single.infinity (single.negative uf.toNat)

theorem abs_two_mul_single_lt (x : Nat) :
    |2 * single.value x| < 2 ^ 128 ↔ single.exponent x < 254 := by
  have threshold := single.abs_two_mul_value_lt x
  rw [single_bias, single_expMax] at threshold
  rw [threshold]
  omega

/-- Below the greatest exponent of a finite number the double is exact. -/
theorem floatScale2_double {uf : BitVec 32} (below : single.exponent uf.toNat < 254) :
    single.Finite (floatScale2 uf).toNat ∧
      single.negative (floatScale2 uf).toNat = single.negative uf.toNat ∧
      single.value (floatScale2 uf).toNat = 2 * single.value uf.toNat := by
  have word := uf.isLt
  rw [single_exponent] at below
  by_cases subnormal : uf.toNat / 2 ^ 23 % 2 ^ 8 = 0
  · have result := floatScale2_subnormal subnormal
    have sign : single.negative (floatScale2 uf).toNat = single.negative uf.toNat := by
      apply single_negative_congr
      omega
    refine ⟨?_, sign, single.value_double sign ?_⟩
    · unfold Format.Finite
      rw [single_expMax, single_exponent, result]
      omega
    · unfold Format.units
      rw [single_exponent, single_exponent, single_fraction, single_fraction, if_pos subnormal,
        result]
      split_ifs with carry
      · omega
      · have one : (uf.toNat / 2 ^ 31 * 2 ^ 31 + 2 * (uf.toNat % 2 ^ 23)) / 2 ^ 23 % 2 ^ 8 = 1 := by
          omega
        rw [one]
        show (2 ^ 23 + _) * 2 ^ 0 = _
        omega
  · have result := floatScale2_normal subnormal (by omega)
    have exponent : (uf.toNat + 2 ^ 23) / 2 ^ 23 % 2 ^ 8 = uf.toNat / 2 ^ 23 % 2 ^ 8 + 1 := by omega
    have fraction : (uf.toNat + 2 ^ 23) % 2 ^ 23 = uf.toNat % 2 ^ 23 := by omega
    have sign : single.negative (floatScale2 uf).toNat = single.negative uf.toNat := by
      apply single_negative_congr
      omega
    refine ⟨?_, sign, single.value_double sign ?_⟩
    · unfold Format.Finite
      rw [single_expMax, single_exponent, result]
      omega
    · unfold Format.units
      rw [single_exponent, single_exponent, single_fraction, single_fraction, if_neg subnormal,
        result, exponent, fraction, if_neg (Nat.succ_ne_zero _)]
      obtain ⟨e, eq⟩ := Nat.exists_eq_succ_of_ne_zero subnormal
      rw [eq, Nat.succ_eq_add_one, Nat.add_sub_cancel, Nat.add_sub_cancel, Nat.pow_succ]
      ring

/-- **`floatScale2` doubles** every number except those from the last binade whose fraction
is not 0: there it returns a NaN instead of an infinity. -/
theorem floatScale2_doubles_iff (uf : BitVec 32) :
    Doubles uf (floatScale2 uf) ↔
      ¬ (single.exponent uf.toNat = 254 ∧ single.fraction uf.toNat ≠ 0) := by
  have word := uf.isLt
  have threshold := abs_two_mul_single_lt uf.toNat
  constructor
  · rintro doubles ⟨last, nonzero⟩
    have beyond : 2 ^ 128 ≤ |2 * single.value uf.toNat| := by
      rw [← not_lt, threshold, last]
      decide
    have infinite := doubles.overflow (by omega) beyond
    rw [single_exponent] at last
    rw [single_fraction] at nonzero
    rw [floatScale2_normal (by omega) (by omega)] at infinite
    have multiple : single.infinity (single.negative uf.toNat) % 2 ^ 23 = 0 := by
      cases single.negative uf.toNat <;> decide
    omega
  · intro right
    constructor
    · exact floatScale2_special
    · intro _ below
      exact floatScale2_double (threshold.1 below)
    · intro finite beyond
      rw [← not_lt, threshold] at beyond
      have top := Nat.mod_lt (uf.toNat / 2 ^ 23) (show 0 < 2 ^ 8 by decide)
      have last : single.exponent uf.toNat = 254 := by
        rw [single_exponent] at finite beyond ⊢
        omega
      have zero : single.fraction uf.toNat = 0 := by
        by_contra nonzero
        exact right ⟨last, nonzero⟩
      rw [single_exponent] at last
      rw [single_fraction] at zero
      rw [floatScale2_normal (by omega) (by omega), single_negative]
      rcases show uf.toNat / 2 ^ 31 % 2 = 0 ∨ uf.toNat / 2 ^ 31 % 2 = 1 by omega with plus | minus
      · rw [plus]
        show _ = 0 * 2 ^ 31 + 255 * 2 ^ 23 + 0
        omega
      · rw [minus]
        show _ = 1 * 2 ^ 31 + 255 * 2 ^ 23 + 0
        omega

/-- The double of 2¹²⁷ and a little more. -/
theorem floatScale2_last_binade : ¬ Doubles 0x7f000001 (floatScale2 0x7f000001) := by
  intro doubles
  have beyond : 2 ^ 128 ≤ |2 * single.value (0x7f000001 : BitVec 32).toNat| := by
    rw [← not_lt, abs_two_mul_single_lt]
    decide
  exact absurd (doubles.overflow (by decide) beyond) (by decide)

end CsappLab.Data
