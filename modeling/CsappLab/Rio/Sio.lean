/-
# Rio.Sio — signal-safe output

`sio_reverse`, `sio_ltoa`, `sio_strlen`, `sio_puts` and `sio_putl` of `csapp.c`. An array is
the list of what has been stored in it, of `size` characters at most; `none` is undefined
behaviour: a store behind the end of the array, a division by zero, and `-v` for the least
`long`, which has no counterpart.

The text of a number in a base up to 16 is its sign and its digits (`sioLtoa_eq`), it fits in
65 characters whatever the number, and `strtol` reads the number back (`sioLtoa_strtol`).
-/
import CsappLab.Lib.Delivery
import CsappLab.Lib.Numeral

namespace CsappLab.Rio

set_option autoImplicit false

open CsappLab.Lib

def LONG_MIN : Int := -2 ^ 63

def LONG_MAX : Int := 2 ^ 63 - 1

/-! ## The functions -/

/-- The loop of `sio_reverse`. -/
def reverseLoop : Nat → Nat → Int → List Char → Option (List Char)
  | 0, _, _, _ => none
  | rounds + 1, i, j, s =>
      if (i : Int) < j then do
        let c ← s[i]?
        let d ← s[j.toNat]?
        reverseLoop rounds (i + 1) (j - 1) ((s.set i d).set j.toNat c)
      else some s

def sioReverse (s : List Char) : Option (List Char) :=
  let s := cString s
  reverseLoop (s.length + 1) 0 ((s.length : Int) - 1) s

/-- `s[i++] = c`, where `i` characters have been stored. -/
def store (size : Nat) (s : List Char) (c : Char) : Option (List Char) :=
  if s.length < size then some (s ++ [c]) else none

/-- A `char` from an `int`. -/
def toChar (n : Int) : Char := Char.ofNat (n % 256).toNat

/-- `(c < 10) ? c + '0' : c - 10 + 'a'`. -/
def digitOf (c : Int) : Char :=
  if c < 10 then toChar (c + 48) else toChar (c - 10 + 97)

/-- The loop of `sio_ltoa`, which stores a character each time. -/
def ltoaLoop (size : Nat) (b : Int) : Nat → Int → List Char → Option (List Char)
  | 0, _, _ => none
  | rounds + 1, v, s =>
      if b = 0 then none
      else do
        let s ← store size s (digitOf (v.tmod b))
        let v := v.tdiv b
        if 0 < v then ltoaLoop size b rounds v s else some s

/-- `if (neg) v = -v`. -/
def negate (neg : Bool) (v : Int) : Option Int :=
  if neg then (if v = LONG_MIN then none else some (-v)) else some v

/-- `if (neg) s[i++] = '-'`. -/
def storeSign (size : Nat) (neg : Bool) (s : List Char) : Option (List Char) :=
  if neg then store size s '-' else some s

/-- `sio_ltoa(v, s, b)` on an array of `size` characters. -/
def sioLtoa (size : Nat) (v b : Int) : Option (List Char) := do
  let neg : Bool := v < 0
  let v ← negate neg v
  let s ← ltoaLoop size b (size + 1) v []
  let s ← storeSign size neg s
  let _ ← store size s NUL
  sioReverse s

def sioStrlen : List Char → Nat
  | [] => 0
  | c :: s => if c ≠ NUL then sioStrlen s + 1 else 0

/-- `sio_puts`, to a descriptor. -/
def sioPuts (s : List Char) (stdout : Sink Char) : Int × Sink Char :=
  write (s.take (sioStrlen s)) stdout

def sioPutl (v : Int) (stdout : Sink Char) : Option (Int × Sink Char) := do
  let s ← sioLtoa 128 v 10
  some (sioPuts s stdout)

/-! ## `sio_reverse` -/

/-- What is between the two counts is reversed, and the rest stays. -/
theorem reverseLoop_eq {rounds : Nat} {before between after : List Char}
    (enough : between.length < 2 * rounds) :
    reverseLoop rounds before.length ((before.length : Int) + between.length - 1)
      (before ++ between ++ after) = some (before ++ between.reverse ++ after) := by
  induction rounds generalizing before between after with
  | zero => omega
  | succ rounds ih =>
      unfold reverseLoop
      by_cases two : between.length < 2
      · rw [if_neg (by omega)]
        match between, two with
        | [], _ => rfl
        | [c], _ => rfl
      · -- the two ends are exchanged
        obtain ⟨c, inner, rfl⟩ := List.exists_cons_of_length_pos (by omega : 0 < between.length)
        have nonempty : inner ≠ [] := by
          rintro rfl
          exact two (Nat.lt_succ_self 1)
        obtain ⟨middle, d, rfl⟩ := (List.eq_nil_or_concat inner).resolve_left nonempty
        simp only [List.concat_eq_append, List.length_cons, List.length_append, List.length_nil,
          Nat.zero_add] at enough ⊢
        have whole : before ++ c :: (middle ++ [d]) ++ after =
            before ++ c :: (middle ++ d :: after) := by simp
        have last : ((before.length : Int) + (middle.length + 1 + 1 : Nat) - 1).toNat =
            before.length + (middle.length + 1) := by omega
        have first : (before ++ c :: (middle ++ d :: after))[before.length]? = some c := by simp
        have second : (before ++ c :: (middle ++ d :: after))[
            before.length + (middle.length + 1)]? = some d := by simp
        have exchanged : ((before ++ c :: (middle ++ d :: after)).set before.length d).set
            (before.length + (middle.length + 1)) c = (before ++ [d]) ++ middle ++ c :: after := by
          simp
        have next : (before.length : Int) + (middle.length + 1 + 1 : Nat) - 1 - 1 =
            ((before ++ [d]).length : Int) + middle.length - 1 := by
          simp only [List.length_append, List.length_singleton]
          omega
        rw [if_pos (by omega), whole, last, first, second, next]
        show reverseLoop rounds (before.length + 1) _ _ = _
        have up : before.length + 1 = (before ++ [d]).length := by simp
        rw [exchanged, up, ih (by omega)]
        simp

theorem sioReverse_eq {s : List Char} (noNul : NUL ∉ s) : sioReverse s = some s.reverse := by
  have loop : reverseLoop (s.length + 1) ([] : List Char).length
      ((([] : List Char).length : Int) + s.length - 1) ([] ++ s ++ []) =
      some ([] ++ s.reverse ++ []) :=
    reverseLoop_eq (by omega)
  unfold sioReverse
  rw [cString_eq noNul]
  simpa using loop

/-! ## `sio_ltoa` -/

theorem digitOf_eq {d : Nat} (less : d < 16) : digitOf d = d.digitChar := by
  have table : ∀ d < 16, digitOf (d : Nat) = d.digitChar := by decide +kernel
  exact table d less

section

variable {b : Nat} (two : 2 ≤ b) (upTo16 : b ≤ 16)

include two upTo16

/-- The digits are stored from the last on, if there is room for all. -/
theorem ltoaLoop_eq {size rounds n : Nat} {s : List Char} (enough : size < s.length + rounds) :
    ltoaLoop size b rounds n s =
      if s.length + (Nat.toDigits b n).length ≤ size then some (s ++ (Nat.toDigits b n).reverse)
      else none := by
  have positive : ∀ n, 0 < (Nat.toDigits b n).length := fun _ => Nat.length_toDigits_pos
  induction rounds generalizing n s with
  | zero =>
      have some_ := positive n
      rw [if_neg (by omega)]
      rfl
  | succ rounds ih =>
      have nonzero : (b : Int) ≠ 0 := by omega
      have less : n % b < b := Nat.mod_lt n (by omega)
      unfold ltoaLoop
      rw [if_neg nonzero, ← Int.ofNat_tmod, ← Int.ofNat_tdiv, digitOf_eq (by omega)]
      by_cases room : s.length < size
      · have stored : store size s (n % b).digitChar = some (s ++ [(n % b).digitChar]) :=
          if_pos room
        rw [stored]
        show (if 0 < ((n / b : Nat) : Int) then _ else _) = _
        by_cases more : b ≤ n
        · have left : 0 < n / b := Nat.div_pos more (by omega)
          rw [if_pos (by omega), ih (by simp; omega), Nat.toDigits_of_base_le (by omega) more]
          simp only [List.length_append, List.length_singleton, List.reverse_append,
            List.reverse_singleton, List.append_assoc]
          exact if_congr (by omega) rfl rfl
        · have none_ : n / b = 0 := Nat.div_eq_of_lt (by omega)
          have same : n % b = n := Nat.mod_eq_of_lt (by omega)
          rw [none_, same, Nat.toDigits_of_lt_base (by omega), if_neg (by omega)]
          exact (if_pos room).symm
      · have full : store size s (n % b).digitChar = none := if_neg room
        have some_ := positive n
        rw [full, if_neg (by omega)]
        rfl

omit two upTo16 in
theorem store_bind {β : Type} (size : Nat) (s : List Char) (c : Char)
    (next : List Char → Option β) :
    (store size s c).bind next = if s.length < size then next (s ++ [c]) else none := by
  unfold store
  split <;> rfl

theorem digits_noNul (n : Nat) : NUL ∉ Nat.toDigits b n := by
  intro member
  have digits := (isDigits_toDigits (by omega) upTo16 n).mono upTo16
  exact digit_ne (digits NUL member) rfl rfl

/-- **The text of a number**: its sign and its digits, where they and the NUL have room. -/
theorem sioLtoa_eq (size : Nat) {v : Int} (least : v ≠ LONG_MIN) :
    sioLtoa size v b =
      let text := signOf (v < 0) ++ Nat.toDigits b v.natAbs
      if text.length < size then some text else none := by
  have noNul := digits_noNul two upTo16 v.natAbs
  have magnitude : negate (v < 0) v = some (v.natAbs : Int) := by
    unfold negate
    by_cases neg : v < 0
    · rw [if_pos (by simpa using neg), if_neg least]
      exact congrArg some (by omega)
    · rw [if_neg (by simpa using neg)]
      exact congrArg some (by omega)
  have steps : sioLtoa size v b =
      (ltoaLoop size b (size + 1) (v.natAbs : Nat) []).bind fun s =>
        (storeSign size (v < 0) s).bind fun s =>
          (store size s NUL).bind fun _ => sioReverse s := by
    show (negate (v < 0) v).bind _ = _
    rw [magnitude]
    rfl
  have loop := ltoaLoop_eq two upTo16 (by simp : size < ([] : List Char).length + (size + 1))
    (n := v.natAbs)
  rw [steps, loop]
  simp only [List.length_nil, Nat.zero_add, List.nil_append]
  by_cases room : (Nat.toDigits b v.natAbs).length ≤ size
  · rw [if_pos room, Option.bind_some]
    by_cases neg : v < 0
    · have noMinus : NUL ≠ '-' := by decide
      have reversed : sioReverse ((Nat.toDigits b v.natAbs).reverse ++ ['-']) =
          some ('-' :: Nat.toDigits b v.natAbs) := by
        rw [sioReverse_eq (by simp [noNul, noMinus])]
        simp
      rw [storeSign, if_pos (by simpa using neg), store_bind]
      simp only [store_bind, reversed, neg, decide_true, signOf, if_true, List.length_append,
        List.length_reverse, List.singleton_append, List.length_cons, List.length_nil]
      by_cases sign : (Nat.toDigits b v.natAbs).length < size
      · rw [if_pos sign]
      · rw [if_neg sign, if_neg (by omega)]
    · have reversed : sioReverse (Nat.toDigits b v.natAbs).reverse =
          some (Nat.toDigits b v.natAbs) := by
        rw [sioReverse_eq (by simp [noNul]), List.reverse_reverse]
      rw [storeSign, if_neg (by simpa using neg), Option.bind_some, store_bind, reversed]
      simp [neg, signOf]
  · rw [if_neg room, if_neg (by simp; omega)]
    rfl

omit two upTo16 in
/-- The least `long` has no text. -/
theorem sioLtoa_least (size : Nat) (b : Int) : sioLtoa size LONG_MIN b = none := by
  have undefined : negate (LONG_MIN < 0) LONG_MIN = none := by
    rw [negate, if_pos (by decide), if_pos rfl]
  unfold sioLtoa
  simp only [undefined]
  rfl

theorem length_digits_le {v : Int} (low : LONG_MIN < v) (high : v ≤ LONG_MAX) :
    (Nat.toDigits b v.natAbs).length ≤ 63 := by
  have bound : v.natAbs < 2 ^ 63 := by
    simp only [LONG_MIN, LONG_MAX] at low high
    omega
  rw [Nat.length_toDigits_le_iff (by omega) (by decide)]
  exact Nat.lt_of_lt_of_le bound (Nat.pow_le_pow_left two 63)

/-- **`sio_ltoa` and `strtol` fit together.** In every base up to 16 and for every `long` but
the least, whose negation overflows, an array of 65 characters has room for the text, and
`strtol` in the same base reads the number back from it, whatever stands behind the text without
going on with the number. -/
theorem sioLtoa_strtol (size : Nat) (room : 65 ≤ size) (v : Int) (low : LONG_MIN ≤ v)
    (high : v ≤ LONG_MAX) :
    (v = LONG_MIN → sioLtoa size v b = none) ∧
    (v ≠ LONG_MIN → ∃ text, sioLtoa size v b = some text ∧ text.length ≤ 64 ∧
      ∀ tail, ¬ GoesOn b (Nat.toDigits b v.natAbs) tail →
        strtol b (text ++ tail) = (v, text.length)) := by
  constructor
  · rintro rfl
    exact sioLtoa_least size b
  · intro least
    have digits := length_digits_le two upTo16 (by omega : LONG_MIN < v) high
    have sign : (signOf (v < 0)).length ≤ 1 := by
      unfold signOf
      split <;> decide
    refine ⟨signOf (v < 0) ++ Nat.toDigits b v.natAbs, ?_, ?_, ?_⟩
    · rw [sioLtoa_eq two upTo16 size least]
      exact if_pos (by rw [List.length_append]; omega)
    · rw [List.length_append]
      omega
    · intro tail ends
      have word := scanNumber_word upTo16 (isDigits_toDigits (by omega) upTo16 v.natAbs)
        Nat.toDigits_ne_nil ends (v < 0)
      rw [digitsVal_toDigits (by omega) upTo16] at word
      unfold strtol
      rw [List.append_assoc, word, List.length_append]
      simp only [LONG_MIN, LONG_MAX] at low high
      refine Prod.ext ?_ rfl
      show (if decide (v < 0) then max (-(v.natAbs : Int)) (-2 ^ 63)
        else min (v.natAbs : Int) (2 ^ 63 - 1)) = v
      split
      next neg =>
        have neg' : v < 0 := by simpa using neg
        omega
      next pos =>
        have pos' : ¬ v < 0 := by simpa using pos
        omega

end

/-- In base 8, with a digit of larger bases behind the number. -/
theorem sioLtoa_strtol_octal :
    ∃ text, sioLtoa 128 (-48879) 8 = some text ∧
      strtol 8 (text ++ ['9', 'a']) = (-48879, text.length) := by
  obtain ⟨text, stored, -, reads⟩ := (sioLtoa_strtol (by decide : 2 ≤ 8) (by decide) 128
    (by decide) (-48879) (by decide) (by decide)).2 (by decide)
  refine ⟨text, stored, reads _ ?_⟩
  rintro (⟨c, here, digit⟩ | ⟨hex, -⟩)
  · obtain rfl : '9' = c := Option.some.inj here
    exact absurd digit (by decide)
  · exact absurd hex (by decide)

/-! ## `sio_putl` -/

theorem sioStrlen_eq {s : List Char} (noNul : NUL ∉ s) : sioStrlen s = s.length := by
  induction s with
  | nil => rfl
  | cons c s ih =>
      have other : c ≠ NUL := fun same => noNul (same ▸ List.mem_cons_self)
      rw [sioStrlen, if_pos other, ih fun member => noNul (List.mem_cons_of_mem _ member)]
      rfl

/-- `sio_putl` makes one call of `write`, with the number as `%d` prints it. -/
theorem sioPutl_eq {v : Int} (low : LONG_MIN < v) (high : v ≤ LONG_MAX) (stdout : Sink Char) :
    sioPutl v stdout = some (write (formatInt v) stdout) := by
  have least : v ≠ LONG_MIN := by omega
  have digits := length_digits_le (by decide : 2 ≤ 10) (by decide) low high
  have sign : (signOf (v < 0)).length ≤ 1 := by
    unfold signOf
    split <;> decide
  have text : sioLtoa 128 v 10 = some (formatInt v) := by
    refine (sioLtoa_eq (b := 10) (by decide) (by decide) 128 least).trans (if_pos ?_)
    rw [List.length_append]
    omega
  have noNul : NUL ∉ formatInt v := by
    have noMinus : NUL ≠ '-' := by decide
    have noDigit := digits_noNul (by decide : 2 ≤ 10) (by decide) v.natAbs
    unfold formatInt signOf
    split <;> simp [noMinus, noDigit]
  unfold sioPutl sioPuts
  rw [text]
  show some (write ((formatInt v).take (sioStrlen (formatInt v))) stdout) = _
  rw [sioStrlen_eq noNul, List.take_length]

end CsappLab.Rio
