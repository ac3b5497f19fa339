/-
# Trans.Blocks — `my_trans` transposes

From the inside out: a row pass writes one column of a block, the passes of a block
write the block, the blocks of a row of blocks write a band, and the bands are the
matrix. A block at the right or the bottom edge is cut off where a loop breaks.
-/
import CsappLab.Trans.Fill

namespace CsappLab.Trans

set_option autoImplicit false

open CsappLab.Lib

variable {α : Type} {M N : Nat}

/-- The values a transpose of `m.A` gives to `B`. -/
def Mem.transposed (m : Mem α) : Nat → Nat → α :=
  fun r c => m.A c r

theorem transposed_eq {m m' : Mem α} (same : m'.A = m.A) : m'.transposed = m.transposed := by
  unfold Mem.transposed
  rw [same]

section Block

variable {baseRowIdx baseColIdx i j : Nat} {m : Mem α}

theorem loadRow_ends (sizes : Sizes M N) (row : baseRowIdx + i < N) (col : baseColIdx + j < M)
    (inTmp : j < 8) :
    ∃ m', loadRow M N baseRowIdx baseColIdx i j m = some (.next m') ∧
      Loads j (m.A (baseRowIdx + i) (baseColIdx + j)) m m' := by
  obtain ⟨rowsFit, colsFit⟩ := sizes
  obtain ⟨m₁, read, reads⟩ := readA_ends (m := m) row col
  obtain ⟨m₂, wrote, loads⟩ := writeTmp_ends (m := m₁) inTmp (m.A (baseRowIdx + i) (baseColIdx + j))
  refine ⟨m₂, ?_, reads.loads loads⟩
  unfold loadRow
  rw [addInt_eq (by omega), addInt_eq (by omega)]
  simp only [Option.bind_eq_bind, Option.bind_some, if_pos col, read, wrote]

theorem loadRow_stops (col : M ≤ baseColIdx + j) (fits : baseColIdx + j ≤ INT_MAX) :
    loadRow M N baseRowIdx baseColIdx i j m = some (.stop m) := by
  unfold loadRow
  rw [addInt_eq fits]
  simp only [Option.bind_eq_bind, Option.bind_some, if_neg (Nat.not_lt.2 col)]

theorem storeColumn_ends (sizes : Sizes M N) (row : baseRowIdx + i < N)
    (col : baseColIdx + j < M) {x : α} (loaded : m.readTmp j = some x) :
    ∃ m', storeColumn M N baseRowIdx baseColIdx i j m = some (.next m') ∧
      Stores (baseColIdx + j) (baseRowIdx + i) x m m' := by
  obtain ⟨rowsFit, colsFit⟩ := sizes
  obtain ⟨m', wrote, stores⟩ := writeB_ends (m := m) col row x
  refine ⟨m', ?_, stores⟩
  unfold storeColumn
  rw [addInt_eq (by omega), addInt_eq (by omega)]
  simp only [Option.bind_eq_bind, Option.bind_some, if_pos col, loaded, wrote]

theorem storeColumn_stops (col : M ≤ baseColIdx + j) (fits : baseColIdx + j ≤ INT_MAX) :
    storeColumn M N baseRowIdx baseColIdx i j m = some (.stop m) := by
  unfold storeColumn
  rw [addInt_eq fits]
  simp only [Option.bind_eq_bind, Option.bind_some, if_neg (Nat.not_lt.2 col)]

/-- Column `row` of `B`, as far as the block reaches. -/
def ColumnPart (M baseColIdx row r c : Nat) : Prop :=
  baseColIdx ≤ r ∧ r < baseColIdx + 8 ∧ r < M ∧ c = row

/-- The first loop of a pass. -/
theorem loadLoop_ends (sizes : Sizes M N) (row : baseRowIdx + i < N) (inCols : baseColIdx < M)
    (f : Nat → Nat → α) :
    Ends (forInt 0 splitBlockColElemNum 1 (loadRow M N baseRowIdx baseColIdx i) m) fun m' =>
      Loaded (fun k => m.A (baseRowIdx + i) (baseColIdx + k)) 0 (min 8 (M - baseColIdx)) m' ∧
        Writes (fun _ _ => False) f m m' := by
  have colsFit := sizes.cols
  let v : Nat → α := fun k => m.A (baseRowIdx + i) (baseColIdx + k)
  refine (forInt_writes (f := f) (P := Loaded v 0) (Q := Loaded v 0 (min 8 (M - baseColIdx)))
    (R := fun _ _ _ => False) (Room.of_le (by decide)) Nat.one_pos ?_ ?_
    (loaded_nothing _ _ _)).mono ?_
  · intro j m' _ inTmp _ a loaded
    by_cases col : baseColIdx + j < M
    · obtain ⟨m'', ran, loads⟩ := loadRow_ends (m := m') sizes row col inTmp
      rw [a] at loads
      exact ⟨_, ran, loaded.load loads, loads.writes⟩
    · have edge := Nat.not_lt.1 col
      have inTmp' : j < 8 := inTmp
      refine ⟨_, loadRow_stops edge (by omega), loaded.mono (by omega), rfl, rfl, ?_⟩
      intro _ _ _ _ _ away
      exact away
  · intro j m' done loaded
    exact loaded.mono (Nat.le_trans (Nat.min_le_left _ _) done)
  · rintro m' ⟨loaded, writes⟩
    refine ⟨loaded, writes.congr ?_ fun _ _ _ => rfl⟩
    intro r c
    simp

/-- The second loop of a pass. -/
theorem storeLoop_ends (sizes : Sizes M N) (row : baseRowIdx + i < N) (inCols : baseColIdx < M)
    {f : Nat → Nat → α}
    (loaded : Loaded (fun k => f (baseColIdx + k) (baseRowIdx + i)) 0 (min 8 (M - baseColIdx)) m) :
    Ends (forInt 0 splitBlockColElemNum 1 (storeColumn M N baseRowIdx baseColIdx i) m)
      (Writes (ColumnPart M baseColIdx (baseRowIdx + i)) f m) := by
  have colsFit := sizes.cols
  let v : Nat → α := fun k => f (baseColIdx + k) (baseRowIdx + i)
  refine (forInt_writes (f := f) (P := fun _ => Loaded v 0 (min 8 (M - baseColIdx)))
    (Q := fun _ => True)
    (R := fun j r c => baseColIdx + j < M ∧ r = baseColIdx + j ∧ c = baseRowIdx + i)
    (Room.of_le (by decide)) Nat.one_pos ?_ ?_ loaded).mono ?_
  · intro j m' _ inTmp _ _ loaded
    by_cases col : baseColIdx + j < M
    · have inTmp' : j < 8 := inTmp
      have value := readTmp_eq loaded (Nat.zero_le j) (by omega) inTmp
      obtain ⟨m'', ran, stores⟩ := storeColumn_ends (m := m') sizes row col value
      refine ⟨_, ran, loaded.store stores, (stores.writes rfl).congr ?_ fun _ _ _ => rfl⟩
      intro r c
      simp [col]
    · have edge := Nat.not_lt.1 col
      have inTmp' : j < 8 := inTmp
      refine ⟨_, storeColumn_stops edge (by omega), trivial, rfl, rfl, ?_⟩
      rintro k after _ r c ⟨inside, -⟩
      omega
  · intro _ _ _ _
    trivial
  · rintro m' ⟨-, writes⟩
    refine writes.congr ?_ fun _ _ _ => rfl
    intro r c
    unfold ColumnPart splitBlockColElemNum
    constructor
    · rintro ⟨low, high, inside, same⟩
      exact ⟨r - baseColIdx, by omega, by omega, by simp, by omega, by omega, same⟩
    · rintro ⟨j, low, high, -, inside, rfl, same⟩
      exact ⟨by omega, by omega, inside, same⟩

/-- The pass of a row transposes what the block holds of it. -/
theorem rowPass_ends (sizes : Sizes M N) (row : baseRowIdx + i < N) (inCols : baseColIdx < M) :
    ∃ m', rowPass M N baseRowIdx baseColIdx i m = some (.next m') ∧
      Writes (ColumnPart M baseColIdx (baseRowIdx + i)) m.transposed m m' := by
  have rowsFit := sizes.rows
  obtain ⟨m₁, ran₁, loaded, writes₁⟩ :=
    loadLoop_ends (m := m.beginPass) sizes row inCols m.transposed
  obtain ⟨m₂, ran₂, writes₂⟩ := storeLoop_ends sizes row inCols (f := m.transposed) loaded
  refine ⟨m₂, ?_, (writes₁.trans writes₂).pass.congr ?_ fun _ _ _ => rfl⟩
  · unfold rowPass
    rw [addInt_eq (by omega)]
    simp only [Option.bind_eq_bind, Option.bind_some, if_pos row, ran₁, ran₂]
  · intro r c
    simp

theorem rowPass_stops (row : N ≤ baseRowIdx + i) (fits : baseRowIdx + i ≤ INT_MAX) :
    rowPass M N baseRowIdx baseColIdx i m = some (.stop m) := by
  unfold rowPass
  rw [addInt_eq fits]
  simp only [Option.bind_eq_bind, Option.bind_some, if_neg (Nat.not_lt.2 row)]

/-- The block of `B`, as far as `B` reaches. -/
def InBlock (M N baseRowIdx baseColIdx r c : Nat) : Prop :=
  (baseColIdx ≤ r ∧ r < baseColIdx + 8 ∧ r < M) ∧ baseRowIdx ≤ c ∧ c < baseRowIdx + 8 ∧ c < N

theorem transBlock_ends (sizes : Sizes M N) (inRows : baseRowIdx < N) (inCols : baseColIdx < M) :
    Ends (transBlock M N baseRowIdx baseColIdx m)
      (Writes (InBlock M N baseRowIdx baseColIdx) m.transposed m) := by
  have rowsFit := sizes.rows
  refine (forInt_writes (f := m.transposed) (P := fun _ _ => True) (Q := fun _ => True)
    (R := fun i r c => baseRowIdx + i < N ∧ ColumnPart M baseColIdx (baseRowIdx + i) r c)
    (Room.of_le (by decide)) Nat.one_pos ?_ ?_ trivial).mono ?_
  · intro i m' _ inBlock _ a _
    have inBlock' : i < 8 := inBlock
    by_cases row : baseRowIdx + i < N
    · obtain ⟨m'', ran, writes⟩ := rowPass_ends (m := m') sizes row inCols
      rw [transposed_eq a] at writes
      refine ⟨_, ran, trivial, writes.congr ?_ fun _ _ _ => rfl⟩
      intro r c
      simp [row]
    · have edge := Nat.not_lt.1 row
      refine ⟨_, rowPass_stops edge (by omega), trivial, rfl, rfl, ?_⟩
      rintro k after _ r c ⟨inside, -⟩
      omega
  · intro _ _ _ _
    trivial
  · rintro m' ⟨-, writes⟩
    refine writes.congr ?_ fun _ _ _ => rfl
    intro r c
    unfold InBlock ColumnPart splitBlockRowNum
    constructor
    · rintro ⟨rows, low, high, inside⟩
      exact ⟨c - baseRowIdx, by omega, by omega, by simp, by omega, rows.1, rows.2.1, rows.2.2,
        by omega⟩
    · rintro ⟨i, low, high, -, inside, first, last, inRows, rfl⟩
      exact ⟨⟨first, last, inRows⟩, by omega, by omega, inside⟩

end Block

/-- The two outer loops, which `my_trans` and `my_trans64x64` share: if each block is
transposed, everything is. -/
theorem blocks_end (rowsRoom : Room 0 N splitBlockRowNum)
    (colsRoom : Room 0 M splitBlockColElemNum) {block : Nat → Nat → Mem α → Option (Mem α)}
    (each : ∀ baseRowIdx baseColIdx m, baseRowIdx < N → baseColIdx < M → 8 ∣ baseRowIdx →
      8 ∣ baseColIdx → Ends (block baseRowIdx baseColIdx m)
        (Writes (InBlock M N baseRowIdx baseColIdx) m.transposed m)) (m : Mem α) :
    Ends (forInt 0 N splitBlockRowNum (always fun baseRowIdx =>
        forInt 0 M splitBlockColElemNum (always fun baseColIdx => block baseRowIdx baseColIdx)) m)
      (Writes (fun r c => r < M ∧ c < N) m.transposed m) := by
  refine (forInt_always_writes (f := m.transposed) (P := fun _ _ => True) (Q := fun _ => True)
    (R := fun baseRowIdx r c => r < M ∧ baseRowIdx ≤ c ∧ c < baseRowIdx + 8 ∧ c < N)
    rowsRoom (by decide) ?_ (fun _ _ _ _ => trivial) trivial).mono ?_
  · intro baseRowIdx m₁ _ inRows aligned a _
    refine (forInt_always_writes (f := m.transposed) (P := fun _ _ => True) (Q := fun _ => True)
      (R := fun baseColIdx r c => InBlock M N baseRowIdx baseColIdx r c)
      colsRoom (by decide) ?_ (fun _ _ _ _ => trivial)
      trivial).mono ?_
    · intro baseColIdx m₂ _ inCols aligned' a' _
      refine (each baseRowIdx baseColIdx m₂ inRows inCols aligned aligned').mono ?_
      intro m₃ writes
      rw [transposed_eq (a'.trans a)] at writes
      exact ⟨trivial, writes⟩
    · rintro m₂ ⟨-, writes⟩
      refine ⟨trivial, writes.congr ?_ fun _ _ _ => rfl⟩
      intro r c
      unfold InBlock splitBlockColElemNum
      constructor
      · rintro ⟨inside, rows⟩
        exact ⟨r / 8 * 8, by omega, by omega, by omega, by omega, rows⟩
      · rintro ⟨baseColIdx, -, -, -, ⟨low, high, inside⟩, rows⟩
        exact ⟨inside, rows⟩
  · rintro m' ⟨-, writes⟩
    refine writes.congr ?_ fun _ _ _ => rfl
    intro r c
    unfold splitBlockRowNum
    constructor
    · rintro ⟨rows, cols⟩
      exact ⟨c / 8 * 8, by omega, by omega, by omega, by omega, by omega, by omega, cols⟩
    · rintro ⟨baseRowIdx, -, -, -, rows, low, high, cols⟩
      exact ⟨rows, cols⟩

/-- **`my_trans` transposes** a matrix of any size. -/
theorem myTrans_ends (sizes : Sizes M N) (m : Mem α) :
    Ends (myTrans M N m) (Writes (fun r c => r < M ∧ c < N) m.transposed m) := by
  have max : INT_MAX = 2147483647 := rfl
  have rowsFit := sizes.rows
  have colsFit := sizes.cols
  exact blocks_end (Room.of_le (by unfold splitBlockRowNum; omega))
    (Room.of_le (by unfold splitBlockColElemNum; omega))
    (fun _ _ _ inRows inCols _ _ => transBlock_ends sizes inRows inCols) m

end CsappLab.Trans
