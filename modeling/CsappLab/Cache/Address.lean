/-
# Cache.Address — set index and tag of an address

The masks of `cacheInitialize` as numbers, and what they cut out of an address
(`setIdx_toNat`, `tagOf_toNat`). `setIndexMask` is computed in 32 bits: as long as
`s + b ≤ 32` it has its `s` ones from bit `b` on; beyond that the ones from bit 32
on are shifted out, and the bits of the address they stand for are neither in the
set index nor in the tag (`splits_iff`).
-/
import CsappLab.Cache.Cache
import Mathlib.Algebra.Group.Nat.Defs
import Mathlib.Tactic.Ring

namespace CsappLab.Cache

set_option autoImplicit false

/-- The parameters for which the shifts of `cacheInitialize` are defined. -/
structure Widths (param_s param_b : BitVec 32) : Prop where
  s_pos : 1 ≤ param_s.toNat
  s_le : param_s.toNat ≤ 30
  b_pos : 1 ≤ param_b.toNat
  b_le : param_b.toNat ≤ 30

/-- The parameters for which the shifts of `cacheInitialize` stay within a word. -/
structure InRange (param_s param_b : BitVec 32) : Prop where
  s_pos : 1 ≤ param_s.toNat
  s_le : param_s.toNat ≤ 30
  b_pos : 1 ≤ param_b.toNat
  b_le : param_b.toNat ≤ 30
  sum_le : param_s.toNat + param_b.toNat ≤ 32

variable {param_s param_b : BitVec 32} (paramE : BitVec 32)

theorem InRange.widths (range : InRange param_s param_b) : Widths param_s param_b :=
  ⟨range.s_pos, range.s_le, range.b_pos, range.b_le⟩

/-- Two sets, and blocks of two bytes. -/
theorem inRange_one : InRange 1 1 :=
  ⟨by decide, by decide, by decide, by decide, by decide⟩

theorem one_shiftLeft_toNat {k : BitVec 32} (small : k.toNat < 32) :
    ((1 : BitVec 32) <<< k).toNat = 2 ^ k.toNat := by
  have one : (1 : BitVec 32).toNat = 1 := rfl
  have fits : 2 ^ k.toNat < 2 ^ 32 := Nat.pow_lt_pow_right (by decide) small
  rw [BitVec.shiftLeft_eq', BitVec.toNat_shiftLeft, one, Nat.one_shiftLeft,
    Nat.mod_eq_of_lt fits]

theorem one_shiftLeft_sub_one_toNat {k : BitVec 32} (small : k.toNat < 32) :
    ((1 : BitVec 32) <<< k - 1).toNat = 2 ^ k.toNat - 1 := by
  have one : (1 : BitVec 32).toNat = 1 := rfl
  have pos : 0 < 2 ^ k.toNat := Nat.two_pow_pos _
  rw [BitVec.toNat_sub_of_le, one_shiftLeft_toNat small, one]
  rw [BitVec.le_def, one_shiftLeft_toNat small, one]
  exact pos

theorem paramS_toNat (widths : Widths param_s param_b) :
    (cacheParams param_s paramE param_b).paramS.toNat = 2 ^ param_s.toNat :=
  one_shiftLeft_toNat (Nat.lt_of_le_of_lt widths.s_le (by decide))

theorem blockOffsetMask_toNat (widths : Widths param_s param_b) :
    (cacheParams param_s paramE param_b).blockOffsetMask.toNat = 2 ^ param_b.toNat - 1 := by
  have small : param_b.toNat < 32 := Nat.lt_of_le_of_lt widths.b_le (by decide)
  show BitVec.toNat (((1 : BitVec 32) <<< param_b - 1).setWidth 64) = _
  rw [BitVec.toNat_setWidth_of_le (by decide), one_shiftLeft_sub_one_toNat small]

/-- Ones cut off from above. -/
theorem ones_mod_two_pow (n k : Nat) : (2 ^ n - 1) % 2 ^ k = 2 ^ min n k - 1 := by
  apply Nat.eq_of_testBit_eq
  intro i
  rw [Nat.testBit_mod_two_pow, Nat.testBit_two_pow_sub_one, Nat.testBit_two_pow_sub_one]
  by_cases inside : i < k
  · simp [inside]
  · simp [inside]

/-- The complement of a mask of `n` bits, shifted to bit 0. -/
theorem not_mask_div {mask n w : Nat} (below : mask < 2 ^ n) (le : n ≤ w) :
    (2 ^ w - 1 - mask) / 2 ^ n = 2 ^ (w - n) - 1 := by
  obtain ⟨k, rfl⟩ := Nat.exists_eq_add_of_le' le
  have pos : 0 < 2 ^ k := Nat.two_pow_pos _
  obtain ⟨q, same⟩ : ∃ q, 2 ^ k = q + 1 := ⟨2 ^ k - 1, by omega⟩
  rw [Nat.add_sub_cancel, Nat.pow_add, same, Nat.add_sub_cancel, Nat.succ_mul]
  have split_ : q * 2 ^ n + 2 ^ n - 1 - mask = 2 ^ n * q + (2 ^ n - 1 - mask) := by
    rw [Nat.mul_comm q]
    omega
  rw [split_, Nat.mul_add_div (Nat.two_pow_pos n), Nat.div_eq_of_lt (by omega), Nat.add_zero]

/-- How many of the ones of `setIndexMask` are left in 32 bits. -/
def indexBits (param_s param_b : BitVec 32) : Nat :=
  min param_s.toNat (32 - param_b.toNat)

theorem setIndexMask_toNat (widths : Widths param_s param_b) :
    (cacheParams param_s paramE param_b).setIndexMask.toNat =
      (2 ^ indexBits param_s param_b - 1) * 2 ^ param_b.toNat := by
  have small : param_s.toNat < 32 := Nat.lt_of_le_of_lt widths.s_le (by decide)
  have word : 2 ^ 32 = 2 ^ (32 - param_b.toNat) * 2 ^ param_b.toNat := by
    rw [← Nat.pow_add, Nat.sub_add_cancel (Nat.le_trans widths.b_le (by decide))]
  show BitVec.toNat ((((1 : BitVec 32) <<< param_s - 1) <<< param_b).setWidth 64) = _
  rw [BitVec.toNat_setWidth_of_le (by decide), BitVec.shiftLeft_eq', BitVec.toNat_shiftLeft,
    one_shiftLeft_sub_one_toNat small, Nat.shiftLeft_eq, word, Nat.mul_mod_mul_right,
    ones_mod_two_pow]
  rfl

/-- The set index is made of the bits of the address from bit `b` on, as far as the mask
reaches. -/
theorem setIdx_toNat (widths : Widths param_s param_b) (addr : BitVec 64) :
    (setIdx (cacheParams param_s paramE param_b) addr).toNat =
      addr.toNat / 2 ^ param_b.toNat % 2 ^ indexBits param_s param_b := by
  have posB : 0 < 2 ^ param_b.toNat := Nat.two_pow_pos _
  unfold setIdx
  rw [BitVec.ushiftRight_eq', BitVec.toNat_ushiftRight, BitVec.toNat_and,
    setIndexMask_toNat paramE widths]
  show (addr.toNat &&& _) >>> param_b.toNat = _
  rw [Nat.shiftRight_and_distrib, Nat.shiftRight_eq_div_pow, Nat.shiftRight_eq_div_pow,
    Nat.mul_div_cancel _ posB, Nat.and_two_pow_sub_one_eq_mod]

/-- Every set index is in the array. -/
theorem setIdx_lt (widths : Widths param_s param_b) (addr : BitVec 64) :
    (setIdx (cacheParams param_s paramE param_b) addr).toNat < 2 ^ param_s.toNat := by
  rw [setIdx_toNat paramE widths]
  calc _ < 2 ^ indexBits param_s param_b := Nat.mod_lt _ (Nat.two_pow_pos _)
    _ ≤ 2 ^ param_s.toNat := Nat.pow_le_pow_right (by decide) (Nat.min_le_left _ _)

theorem setIdx_inArray (widths : Widths param_s param_b) (addr : BitVec 64) :
    (setIdx (cacheParams param_s paramE param_b) addr).toNat <
      (cacheParams param_s paramE param_b).paramS.toNat := by
  rw [paramS_toNat paramE widths]
  exact setIdx_lt paramE widths addr

/-- The tag is made of the bits from bit `s + b` on. -/
theorem tagOf_toNat (widths : Widths param_s param_b) (addr : BitVec 64) :
    (tagOf (cacheParams param_s paramE param_b) addr).toNat =
      addr.toNat / 2 ^ (param_s.toNat + param_b.toNat) := by
  have sLe := widths.s_le
  have bLe := widths.b_le
  have fits : param_s.toNat + param_b.toNat ≤ 64 := by omega
  have sum : (param_b + param_s).toNat = param_s.toNat + param_b.toNat := by
    rw [BitVec.toNat_add, Nat.mod_eq_of_lt (by omega), Nat.add_comm]
  -- the bits that are masked out are below the tag
  have offset : (cacheParams param_s paramE param_b).blockOffsetMask.toNat <
      2 ^ (param_s.toNat + param_b.toNat) := by
    rw [blockOffsetMask_toNat paramE widths]
    calc 2 ^ param_b.toNat - 1 < 2 ^ param_b.toNat := Nat.sub_lt (Nat.two_pow_pos _) Nat.one_pos
      _ ≤ _ := Nat.pow_le_pow_right (by decide) (Nat.le_add_left _ _)
  have index : (cacheParams param_s paramE param_b).setIndexMask.toNat <
      2 ^ (param_s.toNat + param_b.toNat) := by
    have ones : 2 ^ indexBits param_s param_b ≤ 2 ^ param_s.toNat :=
      Nat.pow_le_pow_right (by decide) (Nat.min_le_left _ _)
    rw [setIndexMask_toNat paramE widths, Nat.pow_add]
    apply Nat.mul_lt_mul_of_pos_right _ (Nat.two_pow_pos _)
    exact Nat.lt_of_lt_of_le (Nat.sub_lt (Nat.two_pow_pos _) Nat.one_pos) ones
  have below := Nat.or_lt_two_pow offset index
  have mask : (cacheParams param_s paramE param_b).tagMask.toNat = 2 ^ 64 - 1 -
      ((cacheParams param_s paramE param_b).blockOffsetMask.toNat |||
        (cacheParams param_s paramE param_b).setIndexMask.toNat) := by
    rw [← BitVec.toNat_or, ← BitVec.toNat_not]
    rfl
  unfold tagOf
  rw [BitVec.ushiftRight_eq', BitVec.toNat_ushiftRight, BitVec.toNat_and, mask]
  show (addr.toNat &&& _) >>> (param_b + param_s).toNat = _
  rw [sum, Nat.shiftRight_and_distrib, Nat.shiftRight_eq_div_pow, Nat.shiftRight_eq_div_pow,
    not_mask_div below fits, Nat.and_two_pow_sub_one_eq_mod, Nat.mod_eq_of_lt]
  rw [Nat.div_lt_iff_lt_mul (Nat.two_pow_pos _), ← Nat.pow_add, Nat.sub_add_cancel fits]
  exact addr.isLt

/-! ## An address from its parts -/

/-- The set index is in the array, and the address is put together from tag, set index and
block offset. -/
structure Splits (pCache : CacheParams) (addr : BitVec 64) : Prop where
  inArray : (setIdx pCache addr).toNat < pCache.paramS.toNat
  whole : addr.toNat =
    (tagOf pCache addr).toNat * 2 ^ (pCache.param_s.toNat + pCache.param_b.toNat) +
      (setIdx pCache addr).toNat * 2 ^ pCache.param_b.toNat + addr.toNat % 2 ^ pCache.param_b.toNat

/-- The two addresses are looked for in the same set under the same tag. -/
def SamePlace (pCache : CacheParams) (addr₁ addr₂ : BitVec 64) : Prop :=
  setIdx pCache addr₁ = setIdx pCache addr₂ ∧ tagOf pCache addr₁ = tagOf pCache addr₂

/-- The bits of the address from bit 32 up to the tag; there are none if `s + b ≤ 32`. -/
def lostBits (param_s param_b : BitVec 32) (addr : BitVec 64) : Nat :=
  addr.toNat / 2 ^ 32 % 2 ^ (param_s.toNat + param_b.toNat - 32)

/-- A block's number: the tag, the lost bits and the set index. -/
theorem block_eq (widths : Widths param_s param_b) (addr : BitVec 64) :
    addr.toNat / 2 ^ param_b.toNat =
      2 ^ param_s.toNat * (tagOf (cacheParams param_s paramE param_b) addr).toNat +
        ((setIdx (cacheParams param_s paramE param_b) addr).toNat +
          2 ^ indexBits param_s param_b * lostBits param_s param_b addr) := by
  have tag : (tagOf (cacheParams param_s paramE param_b) addr).toNat =
      addr.toNat / 2 ^ param_b.toNat / 2 ^ param_s.toNat := by
    rw [tagOf_toNat paramE widths, Nat.div_div_eq_div_mul, ← Nat.pow_add, Nat.add_comm]
  have low : addr.toNat / 2 ^ param_b.toNat % 2 ^ param_s.toNat =
      (setIdx (cacheParams param_s paramE param_b) addr).toNat +
        2 ^ indexBits param_s param_b * lostBits param_s param_b addr := by
    have bLe := widths.b_le
    rw [setIdx_toNat paramE widths]
    unfold lostBits indexBits
    by_cases fits : param_s.toNat + param_b.toNat ≤ 32
    · rw [Nat.min_eq_left (by omega), Nat.sub_eq_zero_of_le fits, Nat.pow_zero, Nat.mod_one,
        Nat.mul_zero, Nat.add_zero]
    · have cut : 2 ^ param_s.toNat =
          2 ^ (32 - param_b.toNat) * 2 ^ (param_s.toNat + param_b.toNat - 32) := by
        rw [← Nat.pow_add]
        congr 1
        omega
      have word : 2 ^ param_b.toNat * 2 ^ (32 - param_b.toNat) = 2 ^ 32 := by
        rw [← Nat.pow_add]
        congr 1
        omega
      rw [Nat.min_eq_right (by omega), cut, Nat.mod_mul, Nat.div_div_eq_div_mul, word]
  rw [← low, tag]
  exact (Nat.div_add_mod _ _).symm

/-- An address from its parts: what is missing are the lost bits. -/
theorem address_eq (widths : Widths param_s param_b) (addr : BitVec 64) :
    addr.toNat =
      (tagOf (cacheParams param_s paramE param_b) addr).toNat *
          2 ^ (param_s.toNat + param_b.toNat) +
        (setIdx (cacheParams param_s paramE param_b) addr).toNat * 2 ^ param_b.toNat +
        addr.toNat % 2 ^ param_b.toNat +
        2 ^ param_b.toNat * 2 ^ indexBits param_s param_b * lostBits param_s param_b addr := by
  have address := Nat.div_add_mod addr.toNat (2 ^ param_b.toNat)
  rw [block_eq paramE widths addr] at address
  rw [Nat.pow_add]
  generalize 2 ^ param_b.toNat = B at address ⊢
  calc addr.toNat = _ := address.symm
    _ = _ := by ring

theorem splits_iff (widths : Widths param_s param_b) (addr : BitVec 64) :
    Splits (cacheParams param_s paramE param_b) addr ↔ lostBits param_s param_b addr = 0 := by
  have address := address_eq paramE widths addr
  have pos : 0 < 2 ^ param_b.toNat * 2 ^ indexBits param_s param_b :=
    Nat.mul_pos (Nat.two_pow_pos _) (Nat.two_pow_pos _)
  constructor
  · intro splits
    have none_ := Nat.left_eq_add.1 (splits.whole.symm.trans address)
    exact (Nat.mul_eq_zero.1 none_).resolve_left (Nat.ne_of_gt pos)
  · intro none_
    rw [none_, Nat.mul_zero, Nat.add_zero] at address
    exact ⟨setIdx_inArray paramE widths addr, address⟩

/-- Without lost bits the place of an address is its block. -/
theorem samePlace_iff (widths : Widths param_s param_b) {addr₁ addr₂ : BitVec 64}
    (none₁ : lostBits param_s param_b addr₁ = 0) (none₂ : lostBits param_s param_b addr₂ = 0) :
    SamePlace (cacheParams param_s paramE param_b) addr₁ addr₂ ↔
      addr₁.toNat / 2 ^ param_b.toNat = addr₂.toNat / 2 ^ param_b.toNat := by
  constructor
  · rintro ⟨sets, tags⟩
    rw [block_eq paramE widths addr₁, block_eq paramE widths addr₂, sets, tags, none₁, none₂]
  · intro blocks
    constructor <;> apply BitVec.eq_of_toNat_eq
    · rw [setIdx_toNat paramE widths, setIdx_toNat paramE widths, blocks]
    · rw [tagOf_toNat paramE widths, tagOf_toNat paramE widths, Nat.add_comm, Nat.pow_add,
        ← Nat.div_div_eq_div_mul, ← Nat.div_div_eq_div_mul, blocks]

/-- **Set index and tag take an address apart** exactly if it has no bits between bit 32
and the tag. -/
theorem takeApart_iff (widths : Widths param_s param_b) (addr₁ addr₂ : BitVec 64) :
    let pCache := (cacheInitialize true param_s paramE param_b).1
    (Splits pCache addr₁ ∧ Splits pCache addr₂ ∧
        (SamePlace pCache addr₁ addr₂ ↔
          addr₁.toNat / 2 ^ param_b.toNat = addr₂.toNat / 2 ^ param_b.toNat)) ↔
      lostBits param_s param_b addr₁ = 0 ∧ lostBits param_s param_b addr₂ = 0 := by
  intro pCache
  constructor
  · rintro ⟨splits₁, splits₂, -⟩
    exact ⟨(splits_iff paramE widths addr₁).1 splits₁, (splits_iff paramE widths addr₂).1 splits₂⟩
  · rintro ⟨none₁, none₂⟩
    exact ⟨(splits_iff paramE widths addr₁).2 none₁, (splits_iff paramE widths addr₂).2 none₂,
      samePlace_iff paramE widths none₁ none₂⟩

/-- 32 sets of 32-byte blocks: the first and the last byte of a block. -/
theorem takeApart_iff_five :
    Splits (cacheInitialize true 5 1 5).1 0x1220 ∧
      SamePlace (cacheInitialize true 5 1 5).1 0x1220 0x123f := by
  have widths : Widths 5 5 := ⟨by decide, by decide, by decide, by decide⟩
  obtain ⟨splits, -, same⟩ := (takeApart_iff 1 widths 0x1220 0x123f).2 ⟨by decide, by decide⟩
  exact ⟨splits, same.2 (by decide)⟩

/-- Two addresses 2³² apart, with 2²⁰ sets of 2²⁰-byte blocks. -/
theorem samePlace_of_lost_bits :
    Widths 20 20 ∧
      ¬ (Splits (cacheInitialize true 20 1 20).1 0 ∧
        Splits (cacheInitialize true 20 1 20).1 0x100000000 ∧
        (SamePlace (cacheInitialize true 20 1 20).1 0 0x100000000 ↔
          (0 : BitVec 64).toNat / 2 ^ 20 = (0x100000000 : BitVec 64).toNat / 2 ^ 20)) := by
  have widths : Widths 20 20 := ⟨by decide, by decide, by decide, by decide⟩
  refine ⟨widths, ?_⟩
  rintro ⟨-, -, same⟩
  have place : SamePlace (cacheInitialize true 20 1 20).1 0 0x100000000 := ⟨by decide, by decide⟩
  exact absurd (same.1 place) (by decide)

end CsappLab.Cache
