/-
# Lib.Numeral — numbers written into text and read back

`Nat.toDigits` writes a number as `printf` does for `%u` and `%x`, and `formatInt` as it does
for `%d`. What they write, `strtol` and `strtoul` read back.
-/
import CsappLab.Lib.CString

namespace CsappLab.Lib

set_option autoImplicit false

section Digits

variable {base : Nat}

theorem digitVal_digitChar {d : Nat} (upTo16 : base ≤ 16) (small : d < base) :
    digitVal base d.digitChar = some d := by
  have table : ∀ base ≤ 16, ∀ d < base, digitVal base d.digitChar = some d := by decide +kernel
  exact table base upTo16 d small

theorem isDigits_toDigits (pos : 1 < base) (upTo16 : base ≤ 16) (n : Nat) :
    IsDigits base (Nat.toDigits base n) := by
  induction n using Nat.strongRecOn with
  | _ n ih =>
      rw [Nat.toDigits_eq_if pos]
      split
      next small =>
        intro c member
        rw [List.mem_singleton.1 member, digitVal_digitChar upTo16 small]
        rfl
      next large =>
        have less : n / base < n := Nat.div_lt_self (by omega) pos
        have last : n % base < base := Nat.mod_lt n (by omega)
        intro c member
        rcases List.mem_append.1 member with before | here
        · exact ih _ less c before
        · rw [List.mem_singleton.1 here, digitVal_digitChar upTo16 last]
          rfl

theorem digitsVal_append (ds : List Char) (c : Char) :
    digitsVal base (ds ++ [c]) = base * digitsVal base ds + (digitVal base c).getD 0 := by
  simp [digitsVal]

/-- The digits of a number have its value. -/
theorem digitsVal_toDigits (pos : 1 < base) (upTo16 : base ≤ 16) (n : Nat) :
    digitsVal base (Nat.toDigits base n) = n := by
  induction n using Nat.strongRecOn with
  | _ n ih =>
      rw [Nat.toDigits_eq_if pos]
      split
      next small => simp [digitsVal, digitVal_digitChar upTo16 small]
      next large =>
        have less : n / base < n := Nat.div_lt_self (by omega) pos
        have last : n % base < base := Nat.mod_lt n (by omega)
        rw [digitsVal_append, ih _ less, digitVal_digitChar upTo16 last]
        exact Nat.div_add_mod n base

end Digits

/-! ## `%d` -/

def formatInt (v : Int) : List Char :=
  signOf (v < 0) ++ Nat.toDigits 10 v.natAbs

theorem scanNumber_formatInt {tail : List Char} (ends : EndsNumber tail) (v : Int) :
    scanNumber 10 (formatInt v ++ tail) =
      some (decide (v < 0), v.natAbs, (formatInt v).length) := by
  unfold formatInt
  rw [List.append_assoc, scanNumber_word (by decide) (isDigits_toDigits (by decide) (by decide) _)
    Nat.toDigits_ne_nil (ends.not_goesOn (by decide)),
    digitsVal_toDigits (by decide) (by decide), List.length_append]

end CsappLab.Lib
