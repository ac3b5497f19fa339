/-
# Data.Bits — the puzzles

`isLessOrEqual`, `howManyBits`, `floatScale2`, `floatFloat2Int` and `floatPower2` of
`bits.c`, and the references for the first two of them in `tests.c`. `int` and `unsigned`
are words of 32 bits and arithmetic wraps, shifts included: `1 << 31` is the word with the
top bit. An `int` is compared as a signed number, and shifted to the right with copies of
its sign.

A floating-point puzzle takes its argument apart with masks and shifts and puts the result
together with bitwise or; `sign_toNat`, `exp_toNat`, `mantissa_toNat` and `or_toNat` say
what that is on numbers.
-/
import Mathlib.Data.Nat.Bitwise
import Mathlib.Tactic.Ring

namespace CsappLab.Data

set_option autoImplicit false

/-- `!v`. -/
def logNot (v : BitVec 32) : BitVec 32 :=
  if v = 0 then 1 else 0

/-- `isLessOrEqual`. -/
def isLessOrEqual (x y : BitVec 32) : BitVec 32 :=
  let signMask := (1 : BitVec 32) <<< 31
  let is_YminusX_pos := logNot ((y + (~~~x + 1)) &&& signMask)
  let isYposXneg := logNot (y &&& signMask) &&& logNot (~~~x &&& signMask)
  let isYnegXpos := logNot (~~~y &&& signMask) &&& logNot (x &&& signMask)
  logNot isYnegXpos &&& (is_YminusX_pos ||| isYposXneg)

/-- `test_isLessOrEqual`. -/
def test_isLessOrEqual (x y : BitVec 32) : BitVec 32 :=
  if x.sle y then 1 else 0

/-- `!!v`. -/
def notNot (v : BitVec 32) : BitVec 32 :=
  if v = 0 then 0 else 1

/-- `howManyBits`. -/
def howManyBits (x : BitVec 32) : BitVec 32 :=
  let A := x.sshiftRight 31
  let absX := x ^^^ A
  let b5 := notNot (absX.sshiftRight 16) <<< 4
  let absX := absX.sshiftRight b5.toNat
  let b4 := notNot (absX.sshiftRight 8) <<< 3
  let absX := absX.sshiftRight b4.toNat
  let b3 := notNot (absX.sshiftRight 4) <<< 2
  let absX := absX.sshiftRight b3.toNat
  let b2 := notNot (absX.sshiftRight 2) <<< 1
  let absX := absX.sshiftRight b2.toNat
  let b1 := notNot (absX.sshiftRight 1)
  let absX := absX.sshiftRight b1.toNat
  let b0 := absX
  b5 + b4 + b3 + b2 + b1 + b0 + 1

/-- `for (cnt=0; a; a>>=1, cnt++)`, in at most `rounds` tests of `a`. -/
def shiftLoop : Nat → BitVec 32 → BitVec 32 → Option (BitVec 32)
  | 0, _, _ => none
  | rounds + 1, a, cnt => if a = 0 then some cnt else shiftLoop rounds (a >>> 1) (cnt + 1)

/-- `test_howManyBits`. -/
def test_howManyBits (x : BitVec 32) : Option (BitVec 32) := do
  let a := if x.slt 0 then -x - 1 else x
  let cnt ← shiftLoop 33 a 0
  some (cnt + 1)

/-- `floatScale2`. -/
def floatScale2 (uf : BitVec 32) : BitVec 32 :=
  let sign := uf &&& ((1 : BitVec 32) <<< 31)
  let exp := (uf >>> 23) &&& 0xff
  let mantissa := uf &&& 0x7fffff
  if exp = 0xff then uf
  else
    let (exp, mantissa) :=
      if exp = 0 then
        if ((1 : BitVec 32) <<< 23) &&& mantissa = 0 then (exp, mantissa <<< 1)
        else (exp + 1, mantissa)
      else (exp + 1, mantissa)
    sign ||| (exp <<< 23) ||| mantissa

/-- `floatFloat2Int`. -/
def floatFloat2Int (uf : BitVec 32) : BitVec 32 :=
  let signMask := (1 : BitVec 32) <<< 31
  let sign := uf &&& signMask
  let exp := (uf >>> 23) &&& 0xff
  let E := exp - 127
  let mantissa := uf &&& 0x7fffff
  let mantissaExtend := (1 : BitVec 32) <<< 24
  let mantissa := mantissa ||| mantissaExtend
  let signed := fun mantissa : BitVec 32 => if sign = 0 then mantissa else ~~~mantissa + 1
  if E.slt 0 then 0
  else if E = 0 then signed 1
  else if (31 : BitVec 32).sle E then (1 : BitVec 32) <<< 31
  else if (0 : BitVec 32).slt E ∧ E.sle 23 then
    signed (mantissa.sshiftRight ((23 : BitVec 32) - E).toNat)
  else signed (mantissa <<< (E - 23).toNat)

/-- `floatPower2`. -/
def floatPower2 (x : BitVec 32) : BitVec 32 :=
  let sign := x &&& ((1 : BitVec 32) <<< 31)
  let exp := x + 127
  let mantissa : BitVec 32 := 0
  let (sign, exp) :=
    if (255 : BitVec 32).sle exp then (sign, 0xff)
    else if exp.slt 0 then (0, 0)
    else (sign, exp)
  sign ||| (exp <<< 23) ||| mantissa

/-! ## Fields of a word -/

theorem sign_toNat (uf : BitVec 32) :
    (uf &&& ((1 : BitVec 32) <<< 31)).toNat = uf.toNat / 2 ^ 31 * 2 ^ 31 := by
  have top : ((1 : BitVec 32) <<< 31).toNat = 2 ^ 31 := by decide
  have word := uf.isLt
  rw [BitVec.toNat_and, top, Nat.and_two_pow, Nat.toNat_testBit,
    Nat.mod_eq_of_lt (by omega : uf.toNat / 2 ^ 31 < 2)]

theorem exp_toNat (uf : BitVec 32) :
    ((uf >>> 23) &&& 0xff).toNat = uf.toNat / 2 ^ 23 % 2 ^ 8 := by
  have ones : (0xff : BitVec 32).toNat = 2 ^ 8 - 1 := by decide
  rw [BitVec.toNat_and, ones, BitVec.toNat_ushiftRight, Nat.and_two_pow_sub_one_eq_mod,
    Nat.shiftRight_eq_div_pow]

theorem mantissa_toNat (uf : BitVec 32) : (uf &&& 0x7fffff).toNat = uf.toNat % 2 ^ 23 := by
  have ones : (0x7fffff : BitVec 32).toNat = 2 ^ 23 - 1 := by decide
  rw [BitVec.toNat_and, ones, Nat.and_two_pow_sub_one_eq_mod]

/-- Bitwise or where no two bits meet. -/
theorem or_add (a : Nat) {b n : Nat} (below : b < 2 ^ n) : a * 2 ^ n ||| b = a * 2 ^ n + b := by
  rw [Nat.mul_comm, Nat.two_pow_add_eq_or_of_lt below]

/-- A word from its fields. -/
theorem or_toNat {sign exp mantissa : BitVec 32} {s : Nat} (top : sign.toNat = s * 2 ^ 31)
    (byte : exp.toNat < 2 ^ 8) (low : mantissa.toNat < 2 ^ 23) :
    (sign ||| (exp <<< 23) ||| mantissa).toNat =
      s * 2 ^ 31 + exp.toNat * 2 ^ 23 + mantissa.toNat := by
  have shifted : (exp <<< 23).toNat = exp.toNat * 2 ^ 23 := by
    rw [BitVec.toNat_shiftLeft, Nat.shiftLeft_eq, Nat.mod_eq_of_lt (by omega)]
  have upper : s * 2 ^ 31 + exp.toNat * 2 ^ 23 = (s * 2 ^ 8 + exp.toNat) * 2 ^ 23 := by ring
  rw [BitVec.toNat_or, BitVec.toNat_or, top, shifted, or_add s (by omega), upper, or_add _ low]

end CsappLab.Data
