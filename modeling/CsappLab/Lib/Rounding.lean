/-
# Lib.Rounding — products of floating-point numbers

The product of two numbers of a format is exact as a multiple of a power of two, and is
rounded once: to the nearest pattern, of two to the one whose last bit is 0, and to an
infinity from half a step past the greatest finite number on (`Format.round`). Patterns
without a sign are ordered as their values, so a carry out of the fraction goes into the
exponent without a case of its own.

A product that is a number of the format is not changed (`round_units`, `mul_exact`). So the
powers of two, cut off to infinity and to 0, multiply as their exponents add
(`mul_power`).
-/
import CsappLab.Lib.Ieee

namespace CsappLab.Lib

set_option autoImplicit false

/-- `n / d` to the nearest natural number, of two to the even one. -/
def roundEven (n d : Nat) : Nat :=
  if 2 * (n % d) < d then n / d
  else if d < 2 * (n % d) then n / d + 1
  else n / d + n / d % 2

theorem roundEven_mul (q : Nat) {d : Nat} (pos : 0 < d) : roundEven (q * d) d = q := by
  unfold roundEven
  rw [Nat.mul_mod_left, Nat.mul_zero, if_pos pos, Nat.mul_div_cancel _ pos]

/-- Up to a half. -/
theorem roundEven_eq_zero {n d : Nat} (pos : 0 < d) (half : 2 * n ≤ d) : roundEven n d = 0 := by
  have quotient : n / d = 0 := Nat.div_eq_of_lt (by omega)
  have remainder : n % d = n := Nat.mod_eq_of_lt (by omega)
  unfold roundEven
  rw [quotient, remainder]
  split_ifs <;> omega

theorem div_le_roundEven (n d : Nat) : n / d ≤ roundEven n d := by
  unfold roundEven
  split_ifs <;> omega

namespace Format

variable (F : Format)

/-- The pattern without a sign for `n / 2 ^ s` of the least positive number. -/
def round (n s : Nat) : Nat :=
  let k := Nat.log2 (n / 2 ^ s) - F.fracBits
  min (k * 2 ^ F.fracBits + roundEven n (2 ^ (k + s))) (F.infinity false)

def IsNan (x : Nat) : Prop := F.exponent x = F.expMax ∧ F.fraction x ≠ 0

instance (x : Nat) : Decidable (F.IsNan x) :=
  inferInstanceAs (Decidable (F.exponent x = F.expMax ∧ F.fraction x ≠ 0))

def nan : Nat := F.pattern false F.expMax (2 ^ (F.fracBits - 1))

/-- A pattern with a sign given to it. -/
def signed (neg : Bool) (x : Nat) : Nat := F.pattern neg 0 x

/-- `x * y`. -/
def mul (x y : Nat) : Nat :=
  let neg := F.negative x != F.negative y
  if F.IsNan x ∨ F.IsNan y then F.nan
  else if F.exponent x = F.expMax ∨ F.exponent y = F.expMax then
    if F.units x = 0 ∨ F.units y = 0 then F.nan else F.infinity neg
  else F.signed neg (F.round (F.units x * F.units y) F.scale)

/-! ## Patterns without a sign -/

theorem infinity_false : F.infinity false = F.expMax * 2 ^ F.fracBits := by
  simp [infinity, pattern]

theorem infinity_eq_signed (neg : Bool) : F.infinity neg = F.signed neg (F.infinity false) := by
  simp [infinity, signed, pattern]

variable {F}

theorem expMax_lt : F.expMax < 2 ^ F.expBits :=
  Nat.sub_lt (Nat.two_pow_pos _) Nat.one_pos

theorem infinity_lt : F.infinity false < 2 ^ (F.fracBits + F.expBits) := by
  rw [infinity_false, Nat.pow_add, Nat.mul_comm]
  exact Nat.mul_lt_mul_of_pos_left expMax_lt (Nat.two_pow_pos _)

section Positive

variable {z : Nat}

theorem exponent_of_le (le : z ≤ F.infinity false) : F.exponent z = z / 2 ^ F.fracBits := by
  have below : z / 2 ^ F.fracBits < 2 ^ F.expBits := by
    rw [Nat.div_lt_iff_lt_mul (Nat.two_pow_pos _), Nat.mul_comm, ← Nat.pow_add]
    exact Nat.lt_of_le_of_lt le infinity_lt
  exact Nat.mod_eq_of_lt below

theorem fields_of_le (le : z ≤ F.infinity false) :
    F.exponent z * 2 ^ F.fracBits + F.fraction z = z := by
  rw [exponent_of_le le, Nat.mul_comm]
  exact Nat.div_add_mod z _

theorem exponent_lt_of_lt (lt : z < F.infinity false) : F.exponent z < F.expMax := by
  rw [exponent_of_le (Nat.le_of_lt lt), Nat.div_lt_iff_lt_mul (Nat.two_pow_pos _),
    ← infinity_false]
  exact lt

theorem not_negative_of_le (le : z ≤ F.infinity false) : F.negative z = false := by
  unfold negative
  rw [Nat.div_eq_of_lt (Nat.lt_of_le_of_lt le infinity_lt)]
  rfl

end Positive

/-! ## Rounding -/

theorem round_of_le {n s : Nat}
    (le : (Nat.log2 (n / 2 ^ s) - F.fracBits) * 2 ^ F.fracBits +
      roundEven n (2 ^ (Nat.log2 (n / 2 ^ s) - F.fracBits + s)) ≤ F.infinity false) :
    F.round n s = (Nat.log2 (n / 2 ^ s) - F.fracBits) * 2 ^ F.fracBits +
      roundEven n (2 ^ (Nat.log2 (n / 2 ^ s) - F.fracBits + s)) :=
  Nat.min_eq_left le

/-- **A number of the format is not changed.** -/
theorem round_units {z : Nat} (finite : z < F.infinity false) (s : Nat) :
    F.round (F.units z * 2 ^ s) s = z := by
  have pos := Nat.two_pow_pos s
  have fields := fields_of_le (Nat.le_of_lt finite)
  have fraction := F.fraction_lt z
  have exact_ : ∀ k m, Nat.log2 (F.units z) - F.fracBits = k → F.units z = m * 2 ^ k →
      k * 2 ^ F.fracBits + m = z → F.round (F.units z * 2 ^ s) s = z := by
    intro k m quantum multiple whole
    have quotient : F.units z * 2 ^ s / 2 ^ s = F.units z := Nat.mul_div_cancel _ pos
    have rounded : roundEven (F.units z * 2 ^ s) (2 ^ (k + s)) = m := by
      rw [multiple, Nat.mul_assoc, ← Nat.pow_add]
      exact roundEven_mul m (Nat.two_pow_pos _)
    have value : (Nat.log2 (F.units z * 2 ^ s / 2 ^ s) - F.fracBits) * 2 ^ F.fracBits +
        roundEven (F.units z * 2 ^ s)
          (2 ^ (Nat.log2 (F.units z * 2 ^ s / 2 ^ s) - F.fracBits + s)) = z := by
      rw [quotient, quantum, rounded, whole]
    rw [round_of_le (by rw [value]; exact Nat.le_of_lt finite), value]
  by_cases subnormal : F.exponent z = 0
  · have units : F.units z = F.fraction z := if_pos subnormal
    have whole : 0 * 2 ^ F.fracBits + F.fraction z = z := by
      rw [subnormal] at fields
      exact fields
    refine exact_ 0 (F.fraction z) ?_ (by rw [units, Nat.pow_zero, Nat.mul_one]) whole
    rw [units]
    by_cases zero : F.fraction z = 0
    · rw [zero]
      simp
    · have small : Nat.log2 (F.fraction z) < F.fracBits := (Nat.log2_lt zero).2 fraction
      omega
  · obtain ⟨e, eq⟩ := Nat.exists_eq_succ_of_ne_zero subnormal
    have units : F.units z = (2 ^ F.fracBits + F.fraction z) * 2 ^ e := by
      unfold Format.units
      rw [if_neg subnormal, eq, Nat.succ_sub_one]
    refine exact_ e (2 ^ F.fracBits + F.fraction z) ?_ units ?_
    · have log : Nat.log2 (F.units z) = F.fracBits + e := by
        have nonzero : F.units z ≠ 0 := by
          rw [units]
          positivity
        rw [Nat.log2_eq_iff nonzero, units]
        constructor
        · rw [Nat.pow_add]
          exact Nat.mul_le_mul_right _ (Nat.le_add_right _ _)
        · rw [show F.fracBits + e + 1 = (F.fracBits + 1) + e by omega, Nat.pow_add, Nat.pow_succ]
          exact Nat.mul_lt_mul_of_pos_right (by omega) (Nat.two_pow_pos e)
      rw [log, Nat.add_sub_cancel_left]
    · rw [eq, Nat.succ_mul] at fields
      omega

/-- Past the greatest finite number. -/
theorem round_eq_infinity {n s : Nat}
    (beyond : 2 ^ (F.fracBits + F.expMax - 1) * 2 ^ s ≤ n) : F.round n s = F.infinity false := by
  have bias := F.bias_pos
  have expMax := F.expMax_eq
  have quotient : 2 ^ (F.fracBits + F.expMax - 1) ≤ n / 2 ^ s := by
    rw [Nat.le_div_iff_mul_le (Nat.two_pow_pos s)]
    exact beyond
  have nonzero : n / 2 ^ s ≠ 0 := by
    have pos := Nat.two_pow_pos (F.fracBits + F.expMax - 1)
    omega
  have log : F.fracBits + F.expMax - 1 ≤ Nat.log2 (n / 2 ^ s) :=
    (Nat.le_log2 nonzero).2 quotient
  unfold round
  generalize shift : Nat.log2 (n / 2 ^ s) - F.fracBits = k
  have leading : 2 ^ F.fracBits ≤ roundEven n (2 ^ (k + s)) := by
    refine Nat.le_trans ?_ (div_le_roundEven n _)
    have exponent : F.fracBits + k = Nat.log2 (n / 2 ^ s) := by omega
    rw [Nat.le_div_iff_mul_le (Nat.two_pow_pos _), ← Nat.pow_add, ← Nat.add_assoc, exponent,
      Nat.pow_add, ← Nat.le_div_iff_mul_le (Nat.two_pow_pos s)]
    exact Nat.log2_self_le nonzero
  have many : (F.expMax - 1) * 2 ^ F.fracBits ≤ k * 2 ^ F.fracBits :=
    Nat.mul_le_mul_right _ (by omega)
  have split_ : F.expMax * 2 ^ F.fracBits =
      (F.expMax - 1) * 2 ^ F.fracBits + 2 ^ F.fracBits := by
    rw [← Nat.succ_mul, Nat.succ_eq_add_one, Nat.sub_add_cancel (by omega)]
  apply Nat.min_eq_right
  rw [infinity_false]
  omega

/-- Up to half of the least positive number. -/
theorem round_eq_zero {n s : Nat} (half : 2 * n ≤ 2 ^ s) : F.round n s = 0 := by
  have pos := Nat.two_pow_pos s
  have quotient : n / 2 ^ s = 0 := Nat.div_eq_of_lt (by omega)
  have quantum : Nat.log2 0 - F.fracBits = 0 := by simp
  unfold round
  dsimp only
  rw [quotient, quantum, Nat.zero_mul, Nat.zero_add, Nat.zero_add,
    roundEven_eq_zero pos half]
  exact Nat.zero_min _

/-! ## Products -/

section Product

variable {x y : Nat}

theorem mul_finite (finiteX : F.exponent x ≠ F.expMax) (finiteY : F.exponent y ≠ F.expMax) :
    F.mul x y =
      F.signed (F.negative x != F.negative y) (F.round (F.units x * F.units y) F.scale) := by
  unfold mul
  rw [if_neg (by rintro (⟨infinite, -⟩ | ⟨infinite, -⟩) <;> contradiction),
    if_neg (by rintro (infinite | infinite) <;> contradiction)]

/-- **A product that is a number of the format is exact.** -/
theorem mul_exact (finiteX : F.exponent x ≠ F.expMax) (finiteY : F.exponent y ≠ F.expMax)
    {z : Nat} (finite : z < F.infinity false)
    (product : F.units x * F.units y = F.units z * 2 ^ F.scale) :
    F.mul x y = F.signed (F.negative x != F.negative y) z := by
  rw [mul_finite finiteX finiteY, product, round_units finite]

/-- A product with an infinity. -/
theorem mul_infinite (notNanX : ¬ F.IsNan x) (notNanY : ¬ F.IsNan y)
    (infinite : F.exponent x = F.expMax ∨ F.exponent y = F.expMax)
    (nonzeroX : F.units x ≠ 0) (nonzeroY : F.units y ≠ 0) :
    F.mul x y = F.infinity (F.negative x != F.negative y) := by
  unfold mul
  rw [if_neg (by tauto), if_pos infinite, if_neg (by tauto)]

end Product

/-! ## Powers of two -/

section Power

variable (F) in
/-- The pattern of `2 ^ e`, cut off to infinity and to 0. -/
def power (e : Int) : Nat :=
  if F.bias < e then F.infinity false
  else if 1 - F.bias ≤ e then (e + F.bias).toNat * 2 ^ F.fracBits
  else if -F.scale ≤ e then 2 ^ (e + F.scale).toNat
  else 0

variable {e a b : Int}

theorem power_overflow (large : F.bias < e) : F.power e = F.infinity false :=
  if_pos large

theorem power_underflow (small : e < -F.scale) : F.power e = 0 := by
  have bias := F.bias_pos
  have scale : F.scale = F.bias + F.fracBits - 1 := rfl
  unfold power
  rw [if_neg (by omega), if_neg (by omega), if_neg (by omega)]

theorem infinity_pos : 0 < F.infinity false := by
  have expMax := F.expMax_eq
  rw [infinity_false]
  exact Nat.mul_pos (by omega) (Nat.two_pow_pos _)

theorem power_lt (small : e ≤ F.bias) : F.power e < F.infinity false := by
  have bias := F.bias_pos
  have expMax := F.expMax_eq
  have scale : F.scale = F.bias + F.fracBits - 1 := rfl
  unfold power
  rw [if_neg (by omega)]
  split_ifs with normal subnormal
  · rw [infinity_false]
    exact Nat.mul_lt_mul_of_pos_right (by omega) (Nat.two_pow_pos _)
  · have less : 2 ^ (e + F.scale).toNat < 2 ^ F.fracBits :=
      Nat.pow_lt_pow_right (by decide) (by omega)
    have le : 1 * 2 ^ F.fracBits ≤ F.expMax * 2 ^ F.fracBits :=
      Nat.mul_le_mul_right _ (by omega)
    rw [infinity_false]
    omega
  · exact infinity_pos

theorem units_power (low : -F.scale ≤ e) (high : e ≤ F.bias) :
    F.units (F.power e) = 2 ^ (e + F.scale).toNat := by
  have bias := F.bias_pos
  have scale : F.scale = F.bias + F.fracBits - 1 := rfl
  have exponent := exponent_of_le (Nat.le_of_lt (power_lt high))
  by_cases normal : 1 - F.bias ≤ e
  · have pattern : F.power e = (e + F.bias).toNat * 2 ^ F.fracBits := by
      unfold power
      rw [if_neg (by omega), if_pos normal]
    rw [pattern, Nat.mul_div_cancel _ (Nat.two_pow_pos _)] at exponent
    have fraction : F.fraction (F.power e) = 0 := by
      unfold Format.fraction
      rw [pattern, Nat.mul_mod_left]
    unfold units
    rw [pattern, exponent, if_neg (by omega), ← pattern, fraction, Nat.add_zero, ← Nat.pow_add]
    congr 1
    omega
  · have pattern : F.power e = 2 ^ (e + F.scale).toNat := by
      unfold power
      rw [if_neg (by omega), if_neg normal, if_pos low]
    have less : 2 ^ (e + F.scale).toNat < 2 ^ F.fracBits :=
      Nat.pow_lt_pow_right (by decide) (by omega)
    rw [pattern, Nat.div_eq_of_lt less] at exponent
    unfold units
    rw [pattern, if_pos exponent]
    exact Nat.mod_eq_of_lt less

theorem units_infinity : F.units (F.infinity false) ≠ 0 := by
  have bias := F.bias_pos
  have expMax := F.expMax_eq
  have exponent := exponent_of_le (Nat.le_refl (F.infinity false))
  rw [infinity_false, Nat.mul_div_cancel _ (Nat.two_pow_pos _), ← infinity_false] at exponent
  have pos := Nat.two_pow_pos F.fracBits
  unfold units
  rw [exponent, if_neg (by omega)]
  exact Nat.mul_ne_zero (by omega) (Nat.two_pow_pos _).ne'

theorem units_power_ne_zero (nonneg : 0 ≤ e) : F.units (F.power e) ≠ 0 := by
  by_cases large : F.bias < e
  · rw [power_overflow large]
    exact units_infinity
  · rw [units_power (by omega) (by omega)]
    exact (Nat.two_pow_pos _).ne'

theorem power_le (e : Int) : F.power e ≤ F.infinity false := by
  by_cases large : F.bias < e
  · exact (power_overflow large).le
  · exact Nat.le_of_lt (power_lt (by omega))

theorem not_isNan_power (e : Int) : ¬ F.IsNan (F.power e) := by
  rintro ⟨infinite, nonzero⟩
  have fields := fields_of_le (F.power_le e)
  have le := F.power_le e
  rw [infinite, infinity_false] at *
  omega

/-- **Powers of two multiply**, where not one of them is above 1 and the other below. -/
theorem mul_power (same : 0 ≤ a ∧ 0 ≤ b ∨ a ≤ 0 ∧ b ≤ 0) :
    F.mul (F.power a) (F.power b) = F.power (a + b) := by
  have bias := F.bias_pos
  have expMax := F.expMax_eq
  have scale : F.scale = F.bias + F.fracBits - 1 := rfl
  have positive (e : Int) : F.negative (F.power e) = false := not_negative_of_le (power_le e)
  have unsigned (z : Nat) : F.signed false z = z := by simp [signed, pattern]
  by_cases infinite : F.bias < a ∨ F.bias < b
  · have large : F.bias < a + b := by omega
    have special : F.exponent (F.power a) = F.expMax ∨ F.exponent (F.power b) = F.expMax := by
      have top : F.exponent (F.infinity false) = F.expMax := by
        rw [exponent_of_le (Nat.le_refl _), infinity_false,
          Nat.mul_div_cancel _ (Nat.two_pow_pos _)]
      rcases infinite with large | large
      · rw [power_overflow large]
        exact .inl top
      · rw [power_overflow large]
        exact .inr top
    rw [mul_infinite (not_isNan_power a) (not_isNan_power b) special
      (units_power_ne_zero (by omega)) (units_power_ne_zero (by omega)), positive, positive,
      power_overflow large]
    rfl
  · have finiteA := (exponent_lt_of_lt (power_lt (F := F) (by omega : a ≤ F.bias))).ne
    have finiteB := (exponent_lt_of_lt (power_lt (F := F) (by omega : b ≤ F.bias))).ne
    rw [mul_finite finiteA finiteB, positive, positive]
    show F.signed false _ = _
    rw [unsigned]
    by_cases zero : a < -F.scale ∨ b < -F.scale
    · have product : F.units (F.power a) * F.units (F.power b) = 0 := by
        have none_ : F.units 0 = 0 := by simp [units, exponent, fraction]
        rcases zero with small | small
        · rw [power_underflow small, none_, Nat.zero_mul]
        · rw [power_underflow small, none_, Nat.mul_zero]
      rw [product, round_eq_zero (Nat.zero_le _), power_underflow (by omega)]
    · have product : F.units (F.power a) * F.units (F.power b) =
          2 ^ (a + b + 2 * F.scale).toNat := by
        rw [units_power (by omega) (by omega), units_power (by omega) (by omega), ← Nat.pow_add]
        congr 1
        omega
      rw [product]
      by_cases large : F.bias < a + b
      · rw [power_overflow large]
        apply round_eq_infinity
        rw [← Nat.pow_add]
        exact Nat.pow_le_pow_right (by decide) (by omega)
      · by_cases small : a + b < -F.scale
        · rw [power_underflow small]
          apply round_eq_zero
          rw [← Nat.pow_succ']
          exact Nat.pow_le_pow_right (by decide) (by omega)
        · have units : 2 ^ (a + b + 2 * F.scale).toNat =
              F.units (F.power (a + b)) * 2 ^ F.scale := by
            rw [units_power (by omega) (by omega), ← Nat.pow_add]
            congr 1
            omega
          rw [units, round_units (power_lt (by omega))]

end Power

end Format

end CsappLab.Lib
