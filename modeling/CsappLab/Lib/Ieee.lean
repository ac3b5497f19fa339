/-
# Lib.Ieee — binary floating-point formats

A format has a sign bit, `expBits` bits of exponent and `fracBits` bits of fraction.
`value` is the exact rational number that a pattern stands for, unless its exponent
has all bits set.

All values are multiples of the least positive one, `F.ulp`, and `units` says which
multiple: a natural number, so that statements about values come down to statements
about numbers (`value_eq`, `abs_two_mul_value_lt`, `truncate_value`).
-/
import Mathlib.Data.Rat.Floor
import Mathlib.Algebra.Order.Field.Power
import Mathlib.Tactic.FieldSimp
import Mathlib.Tactic.Linarith
import Mathlib.Tactic.Positivity
import Mathlib.Tactic.Ring

namespace CsappLab.Lib

set_option autoImplicit false

/-- A binary interchange format. -/
structure Format where
  expBits : Nat
  fracBits : Nat
  wide : 2 ≤ expBits

/-- Towards zero. -/
def truncate (q : ℚ) : Int :=
  if 0 ≤ q then ⌊q⌋ else ⌈q⌉

namespace Format

variable (F : Format)

/-- The exponent of the infinities and NaNs. -/
def expMax : Nat := 2 ^ F.expBits - 1

def bias : Nat := 2 ^ (F.expBits - 1) - 1

def negative (x : Nat) : Bool := x / 2 ^ (F.fracBits + F.expBits) % 2 == 1

def exponent (x : Nat) : Nat := x / 2 ^ F.fracBits % 2 ^ F.expBits

def fraction (x : Nat) : Nat := x % 2 ^ F.fracBits

/-- The pattern with these fields. -/
def pattern (neg : Bool) (exponent fraction : Nat) : Nat :=
  neg.toNat * 2 ^ (F.fracBits + F.expBits) + exponent * 2 ^ F.fracBits + fraction

def infinity (neg : Bool) : Nat := F.pattern neg F.expMax 0

/-- Neither infinite nor NaN. -/
def Finite (x : Nat) : Prop := F.exponent x < F.expMax

def sign (x : Nat) : ℚ := if F.negative x then -1 else 1

/-- What a pattern stands for: a subnormal number if the exponent is 0, and otherwise a
normal one, with the implicit leading 1. -/
def value (x : Nat) : ℚ :=
  if F.exponent x = 0 then
    F.sign x * (F.fraction x / 2 ^ F.fracBits) * 2 ^ (1 - F.bias : Int)
  else F.sign x * (1 + F.fraction x / 2 ^ F.fracBits) * 2 ^ (F.exponent x - F.bias : Int)

/-! ## Values as multiples of the least one -/

/-- How many of the least positive number the absolute value is. -/
def units (x : Nat) : Nat :=
  if F.exponent x = 0 then F.fraction x
  else (2 ^ F.fracBits + F.fraction x) * 2 ^ (F.exponent x - 1)

/-- Of the least positive number there are `2 ^ F.scale` to 1. -/
def scale : Nat := F.bias + F.fracBits - 1

theorem bias_pos : 1 ≤ F.bias := by
  have le : 2 ^ 1 ≤ 2 ^ (F.expBits - 1) :=
    Nat.pow_le_pow_right (by decide) (Nat.le_sub_one_of_lt F.wide)
  unfold bias
  omega

theorem expMax_eq : F.expMax = 2 * F.bias + 1 := by
  have wide := F.wide
  have pos : 0 < 2 ^ (F.expBits - 1) := Nat.two_pow_pos _
  have double : 2 ^ F.expBits = 2 * 2 ^ (F.expBits - 1) := by
    rw [← Nat.pow_succ', Nat.succ_eq_add_one, Nat.sub_add_cancel (by omega)]
  unfold expMax bias
  omega

theorem fraction_lt (x : Nat) : F.fraction x < 2 ^ F.fracBits :=
  Nat.mod_lt x (Nat.two_pow_pos _)

theorem value_eq (x : Nat) : F.value x = F.sign x * (F.units x / 2 ^ F.scale) := by
  have two : (2 : ℚ) ≠ 0 := two_ne_zero
  have bias := F.bias_pos
  have scale : (2 : ℚ) ^ F.scale = 2 ^ F.fracBits * 2 ^ (F.bias - 1 : Int) := by
    rw [← zpow_natCast, ← zpow_natCast, ← zpow_add₀ two]
    congr 1
    unfold Format.scale
    omega
  unfold value units
  by_cases subnormal : F.exponent x = 0
  · rw [if_pos subnormal, if_pos subnormal, scale, show (1 - F.bias : Int) = -(F.bias - 1) by ring,
      zpow_neg, mul_assoc, div_mul_eq_div_div, div_eq_mul_inv (_ / _)]
  · rw [if_neg subnormal, if_neg subnormal, scale]
    have power : (2 : ℚ) ^ (F.exponent x - F.bias : Int) =
        2 ^ (F.exponent x - 1) / 2 ^ (F.bias - 1 : Int) := by
      rw [← zpow_natCast, ← zpow_sub₀ two]
      congr 1
      omega
    have nonzero : (2 : ℚ) ^ F.fracBits ≠ 0 := pow_ne_zero _ two
    have nonzero' : (2 : ℚ) ^ (F.bias - 1 : Int) ≠ 0 := zpow_ne_zero _ two
    rw [power]
    push_cast
    field_simp

theorem sign_cases (x : Nat) :
    F.negative x = true ∧ F.sign x = -1 ∨ F.negative x = false ∧ F.sign x = 1 := by
  unfold sign
  cases F.negative x <;> simp

theorem abs_value (x : Nat) : |F.value x| = F.units x / 2 ^ F.scale := by
  have nonneg : (0 : ℚ) ≤ F.units x / 2 ^ F.scale := by positivity
  have unit : |F.sign x| = 1 := by
    rcases F.sign_cases x with ⟨-, sign⟩ | ⟨-, sign⟩ <;> simp [sign]
  rw [F.value_eq, abs_mul, unit, one_mul, abs_of_nonneg nonneg]

theorem units_lt (x : Nat) : F.units x < 2 ^ (F.fracBits + F.exponent x) := by
  have fraction := F.fraction_lt x
  unfold units
  by_cases subnormal : F.exponent x = 0
  · rw [if_pos subnormal, subnormal, Nat.add_zero]
    exact fraction
  · obtain ⟨e, eq⟩ := Nat.exists_eq_succ_of_ne_zero subnormal
    have split_ : 2 ^ (F.fracBits + (e + 1)) = (2 ^ F.fracBits + 2 ^ F.fracBits) * 2 ^ e := by
      ring
    rw [if_neg subnormal, eq, Nat.succ_eq_add_one, Nat.add_sub_cancel, split_]
    exact Nat.mul_lt_mul_of_pos_right (by omega) (Nat.two_pow_pos e)

theorem le_units {x : Nat} (normal : F.exponent x ≠ 0) :
    2 ^ (F.fracBits + F.exponent x - 1) ≤ F.units x := by
  unfold units
  rw [if_neg normal, Nat.add_sub_assoc (Nat.pos_of_ne_zero normal), Nat.pow_add]
  exact Nat.mul_le_mul_right _ (Nat.le_add_right _ _)

/-- Twice a value is below the overflow threshold unless the exponent is the greatest
one of a finite number, or that of the infinities. -/
theorem abs_two_mul_value_lt (x : Nat) :
    |2 * F.value x| < 2 ^ (F.bias + 1) ↔ F.exponent x + 1 < F.expMax := by
  have bias := F.bias_pos
  have threshold : |2 * F.value x| < 2 ^ (F.bias + 1) ↔
      F.units x < 2 ^ (F.fracBits + 2 * F.bias - 1) := by
    have pos : (0 : ℚ) < 2 ^ F.scale := by positivity
    have powers : (2 : ℚ) ^ (F.bias + 1) * 2 ^ F.scale =
        2 * 2 ^ (F.fracBits + 2 * F.bias - 1) := by
      rw [← pow_add, ← pow_succ']
      congr 1
      unfold scale
      omega
    rw [abs_mul, F.abs_value, abs_two, mul_div_assoc', div_lt_iff₀ pos, powers,
      mul_lt_mul_iff_right₀ two_pos]
    exact_mod_cast Iff.rfl
  rw [threshold, F.expMax_eq]
  constructor
  · intro below
    by_contra beyond
    have normal : F.exponent x ≠ 0 := by omega
    have le := F.le_units normal
    have powers : 2 ^ (F.fracBits + 2 * F.bias - 1) ≤ 2 ^ (F.fracBits + F.exponent x - 1) :=
      Nat.pow_le_pow_right (by decide) (by omega)
    omega
  · intro below
    have less := F.units_lt x
    have powers : 2 ^ (F.fracBits + F.exponent x) ≤ 2 ^ (F.fracBits + 2 * F.bias - 1) :=
      Nat.pow_le_pow_right (by decide) (by omega)
    omega

/-- The double. -/
theorem value_double {x y : Nat} (sign : F.negative y = F.negative x)
    (units : F.units y = 2 * F.units x) : F.value y = 2 * F.value x := by
  have same : F.sign y = F.sign x := by
    unfold Format.sign
    rw [sign]
  rw [F.value_eq, F.value_eq, same, units]
  push_cast
  ring

theorem truncate_value (x : Nat) :
    truncate (F.value x) =
      if F.negative x then -((F.units x / 2 ^ F.scale : Nat) : Int)
      else ((F.units x / 2 ^ F.scale : Nat) : Int) := by
  have floor : ⌊(F.units x / 2 ^ F.scale : ℚ)⌋ = ((F.units x / 2 ^ F.scale : Nat) : Int) := by
    have cast : (F.units x / 2 ^ F.scale : ℚ) = (F.units x : ℚ) / ((2 ^ F.scale : Nat) : ℚ) := by
      push_cast
      rfl
    rw [cast, Rat.floor_natCast_div_natCast, Int.natCast_ediv]
  have nonneg : (0 : ℚ) ≤ F.units x / 2 ^ F.scale := by positivity
  rw [F.value_eq]
  unfold truncate
  rcases F.sign_cases x with ⟨negative, sign⟩ | ⟨positive, sign⟩
  · rw [negative, sign, if_pos rfl, neg_one_mul]
    split_ifs with zero
    · have none_ : (F.units x / 2 ^ F.scale : ℚ) = 0 := le_antisymm (by linarith) nonneg
      rw [none_, ← floor, none_]
      rfl
    · rw [Int.ceil_neg, floor]
  · rw [positive, sign, one_mul, if_pos nonneg, floor]
    rfl

/-! ## Powers of two -/

theorem value_normal_power {x e : Nat} (positive : F.negative x = false) (normal : e ≠ 0)
    (exponent : F.exponent x = e) (fraction : F.fraction x = 0) :
    F.value x = 2 ^ (e - F.bias : Int) := by
  unfold value sign
  rw [exponent, if_neg normal, positive, fraction]
  simp

theorem value_subnormal_power {x k : Nat} (positive : F.negative x = false)
    (exponent : F.exponent x = 0) (fraction : F.fraction x = 2 ^ k) :
    F.value x = 2 ^ (k - F.scale : Int) := by
  have sign : F.sign x = 1 := by
    unfold Format.sign
    rw [positive]
    rfl
  rw [F.value_eq, sign, one_mul]
  unfold units
  rw [if_pos exponent, fraction, zpow_sub₀ two_ne_zero, zpow_natCast, zpow_natCast]
  push_cast
  rfl

end Format

/-! ## Single precision -/

def single : Format := ⟨8, 23, by decide⟩

theorem single_exponent (x : Nat) : single.exponent x = x / 2 ^ 23 % 2 ^ 8 := rfl

theorem single_fraction (x : Nat) : single.fraction x = x % 2 ^ 23 := rfl

theorem single_negative (x : Nat) : single.negative x = (x / 2 ^ 31 % 2 == 1) := rfl

theorem single_negative_congr {x y : Nat} (same : x / 2 ^ 31 % 2 = y / 2 ^ 31 % 2) :
    single.negative x = single.negative y := by
  rw [single_negative, single_negative, same]

theorem single_bias : single.bias = 127 := by decide

theorem single_expMax : single.expMax = 255 := by decide

theorem single_scale : single.scale = 149 := by decide

end CsappLab.Lib
