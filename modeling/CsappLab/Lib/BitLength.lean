/-
# Lib.BitLength — the number of bits of a number

`Nat.size a` is the number of binary digits of `a`, the least `k` with `a < 2 ^ k`. A
binary search finds it in few steps: if `a` has at most `2 ^ (n + 1)` digits, the first
step tells whether it has more than `2 ^ n` of them, and drops `2 ^ n` if so
(`searchBits_eq_size`). With an integer `v` taken as `magnitude v`, it is also the number
of bits `v` needs beside its sign (`fits_iff`).
-/
import Mathlib.Data.Nat.Size
import Mathlib.Order.Basic
import Mathlib.Tactic.NormNum.Basic

namespace CsappLab.Lib

set_option autoImplicit false

/-- Dropping the lowest `k` digits. -/
theorem size_div_two_pow (a k : Nat) : Nat.size (a / 2 ^ k) = Nat.size a - k := by
  apply eq_of_forall_ge_iff
  intro m
  rw [Nat.size_le, Nat.sub_le_iff_le_add, Nat.size_le, Nat.div_lt_iff_lt_mul (Nat.two_pow_pos k),
    Nat.pow_add]

theorem size_half {a : Nat} (pos : 0 < a) : Nat.size a = Nat.size (a / 2) + 1 := by
  have half := size_div_two_pow a 1
  have digits : 0 < Nat.size a := Nat.size_pos.2 pos
  rw [Nat.pow_one] at half
  omega

/-- Binary search for the number of digits, of which there are at most `2 ^ n`. -/
def searchBits : Nat → Nat → Nat
  | 0, a => a
  | n + 1, a =>
      let b := if a / 2 ^ 2 ^ n = 0 then 0 else 2 ^ n
      b + searchBits n (a / 2 ^ b)

/-- **The search finds the number of digits.** -/
theorem searchBits_eq_size {n a : Nat} (below : a < 2 ^ 2 ^ n) :
    searchBits n a = Nat.size a := by
  induction n generalizing a with
  | zero =>
      have small : a = 0 ∨ a = 1 := by
        change a < 2 at below
        omega
      rcases small with rfl | rfl <;> rfl
  | succ n ih =>
      have pos : 0 < 2 ^ 2 ^ n := Nat.two_pow_pos _
      unfold searchBits
      by_cases short : a / 2 ^ 2 ^ n = 0
      · have below' : a < 2 ^ 2 ^ n := (Nat.div_eq_zero_iff_lt pos).1 short
        simp only [if_pos short, Nat.pow_zero, Nat.div_one, Nat.zero_add]
        exact ih below'
      · have above : 2 ^ 2 ^ n ≤ a := by
          rw [Nat.div_eq_zero_iff_lt pos] at short
          omega
        have rest : a / 2 ^ 2 ^ n < 2 ^ 2 ^ n := by
          rw [Nat.div_lt_iff_lt_mul pos, ← Nat.pow_add, ← Nat.two_mul, ← Nat.pow_succ']
          exact below
        have long : 2 ^ n < Nat.size a := Nat.lt_size.2 above
        simp only [if_neg short]
        rw [ih rest, size_div_two_pow]
        omega

/-- The distance of an integer from the nearer end of the numbers with its sign. -/
def magnitude (v : Int) : Nat :=
  if 0 ≤ v then v.toNat else (-v - 1).toNat

/-- An integer fits beside a sign bit if its magnitude does. -/
theorem fits_iff (v : Int) (k : Nat) : -2 ^ k ≤ v ∧ v < 2 ^ k ↔ magnitude v < 2 ^ k := by
  have cast : ((2 ^ k : Nat) : Int) = 2 ^ k := by norm_num
  rw [← cast]
  generalize 2 ^ k = p
  unfold magnitude
  by_cases nonneg : 0 ≤ v
  · rw [if_pos nonneg]
    omega
  · rw [if_neg nonneg]
    omega

end CsappLab.Lib
