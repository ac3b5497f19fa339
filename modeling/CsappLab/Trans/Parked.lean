/-
# Trans.Parked — `my_trans64x64` transposes

A block is transposed in three steps. The upper half of `A`'s block is written to
the upper half of `B`'s, which is right for its left quarter and parks the other
one (`parkedValues`). Then, row by row, the parked quarter is read into
`tmpDiagData`, overwritten with what belongs there, and moved below. The lower right
quarter comes last.
-/
import CsappLab.Trans.Blocks

namespace CsappLab.Trans

set_option autoImplicit false

open CsappLab.Lib

variable {α : Type} {M N : Nat}

/-! ## The loops of a pass -/

section Loops

variable {lo hi : Nat} {m : Mem α} {v : Nat → α} {body : Nat → Mem α → Option (Mem α)}

/-- A loop that fills `tmpDiagData`. -/
theorem loadCells_end (inTmp : hi ≤ 8) (f : Nat → Nat → α)
    (each : ∀ k m', lo ≤ k → k < hi → m'.A = m.A → Ends (body k m') (Loads k (v k) m')) :
    Ends (forInt lo hi 1 (always body) m) fun m' =>
      Loaded v lo hi m' ∧ Writes (fun _ _ => False) f m m' := by
  have max : INT_MAX = 2147483647 := rfl
  refine (forInt_always_writes (f := f) (P := Loaded v lo) (Q := Loaded v lo hi)
    (R := fun _ _ _ => False) (Room.of_le (by omega)) Nat.one_pos ?_ ?_
    (loaded_nothing _ _ _)).mono ?_
  · intro k m' low high _ a loaded
    refine (each k m' low high a).mono ?_
    intro m'' loads
    exact ⟨loaded.load loads, loads.writes⟩
  · intro k m' done loaded
    exact loaded.mono done
  · rintro m' ⟨loaded, writes⟩
    refine ⟨loaded, writes.congr ?_ fun _ _ _ => rfl⟩
    intro r c
    simp

/-- A loop that uses `tmpDiagData` up. -/
theorem storeCells_end {f : Nat → Nat → α} {p q : Nat → Nat} (inTmp : hi ≤ 8)
    (loaded : Loaded v lo hi m) (value : ∀ k, lo ≤ k → k < hi → v k = f (p k) (q k))
    (each : ∀ k m', lo ≤ k → k < hi → m'.readTmp k = some (v k) →
      Ends (body k m') (Stores (p k) (q k) (v k) m')) :
    Ends (forInt lo hi 1 (always body) m)
      (Writes (fun r c => ∃ k, lo ≤ k ∧ k < hi ∧ r = p k ∧ c = q k) f m) := by
  have max : INT_MAX = 2147483647 := rfl
  refine (forInt_always_writes (f := f) (P := fun _ => Loaded v lo hi) (Q := fun _ => True)
    (R := fun k r c => r = p k ∧ c = q k) (Room.of_le (by omega)) Nat.one_pos ?_
    (fun _ _ _ _ => trivial) loaded).mono ?_
  · intro k m' low high _ _ loaded
    have read := readTmp_eq loaded low high (Nat.lt_of_lt_of_le high inTmp)
    refine (each k m' low high read).mono ?_
    intro m'' stores
    exact ⟨loaded.store stores, stores.writes (value k low high)⟩
  · rintro m' ⟨-, writes⟩
    refine writes.congr ?_ fun _ _ _ => rfl
    intro r c
    constructor
    · rintro ⟨k, low, high, here⟩
      exact ⟨k, low, high, by simp, here⟩
    · rintro ⟨k, low, high, -, here⟩
      exact ⟨k, low, high, here⟩

end Loops

/-- A block that lies within the matrix. -/
structure Within (M N baseRowIdx baseColIdx : Nat) : Prop where
  rows : baseRowIdx + 8 ≤ N
  cols : baseColIdx + 8 ≤ M
  colsFit : M ≤ INT_MAX
  rowsFit : N ≤ INT_MAX

section Block

variable {baseRowIdx baseColIdx i j k : Nat} {m : Mem α}

/-! ## The statements -/

theorem loadA_ends (within : Within M N baseRowIdx baseColIdx) (i8 : i < 8) (j8 : j < 8)
    (k8 : k < 8) :
    Ends (loadA M N baseRowIdx baseColIdx i j k m)
      (Loads k (m.A (baseRowIdx + i) (baseColIdx + j)) m) := by
  obtain ⟨rows, cols, colsFit, rowsFit⟩ := within
  obtain ⟨m₁, read, reads⟩ := readA_ends (m := m) (show baseRowIdx + i < N by omega)
    (show baseColIdx + j < M by omega)
  obtain ⟨m₂, wrote, loads⟩ := writeTmp_ends (m := m₁) k8 (m.A (baseRowIdx + i) (baseColIdx + j))
  refine ⟨m₂, ?_, reads.loads loads⟩
  unfold loadA
  rw [addInt_eq (by omega), addInt_eq (by omega)]
  simp only [Option.bind_eq_bind, Option.bind_some, read, wrote]

theorem storeB_ends (within : Within M N baseRowIdx baseColIdx) (i8 : i < 8) (j8 : j < 8) {x : α}
    (value : m.readTmp k = some x) :
    Ends (storeB M N baseRowIdx baseColIdx i j k m)
      (Stores (baseColIdx + j) (baseRowIdx + i) x m) := by
  obtain ⟨rows, cols, colsFit, rowsFit⟩ := within
  obtain ⟨m₁, wrote, stores⟩ := writeB_ends (m := m) (show baseColIdx + j < M by omega)
    (show baseRowIdx + i < N by omega) x
  refine ⟨m₁, ?_, stores⟩
  unfold storeB
  rw [addInt_eq (by omega), addInt_eq (by omega)]
  simp only [Option.bind_eq_bind, Option.bind_some, value, wrote]

theorem park_ends (within : Within M N baseRowIdx baseColIdx) (i4 : i < 4) (low : 4 ≤ j)
    (j8 : j < 8) {x : α} (value : m.readTmp j = some x) :
    Ends (park M N baseRowIdx baseColIdx i j m)
      (Stores (baseColIdx + j - 4) (baseRowIdx + i + 4) x m) := by
  obtain ⟨rows, cols, colsFit, rowsFit⟩ := within
  obtain ⟨m₁, wrote, stores⟩ := writeB_ends (m := m) (show baseColIdx + j - 4 < M by omega)
    (show baseRowIdx + i + 4 < N by omega) x
  refine ⟨m₁, ?_, stores⟩
  unfold park
  rw [addInt_eq (by omega), addInt_eq (by omega)]
  simp only [Option.bind_eq_bind, Option.bind_some, subInt_eq (show 4 ≤ baseColIdx + j by omega),
    addInt_eq (show baseRowIdx + i + 4 ≤ INT_MAX by omega), value, wrote]

theorem unpark_ends (within : Within M N baseRowIdx baseColIdx) (j4 : j < 4) (low : 4 ≤ i)
    (i8 : i < 8) {x : α} (value : m.readTmp i = some x) :
    Ends (unpark M N baseRowIdx baseColIdx j i m)
      (Stores (baseColIdx + j + 4) (baseRowIdx + i - 4) x m) := by
  obtain ⟨rows, cols, colsFit, rowsFit⟩ := within
  obtain ⟨m₁, wrote, stores⟩ := writeB_ends (m := m) (show baseColIdx + j + 4 < M by omega)
    (show baseRowIdx + i - 4 < N by omega) x
  refine ⟨m₁, ?_, stores⟩
  unfold unpark
  rw [addInt_eq (by omega), addInt_eq (by omega)]
  simp only [Option.bind_eq_bind, Option.bind_some, subInt_eq (show 4 ≤ baseRowIdx + i by omega),
    addInt_eq (show baseColIdx + j + 4 ≤ INT_MAX by omega), value, wrote]

/-- What was in `B` goes to `tmpDiagData`, and `A`'s element in its place. -/
theorem exchange_ends (within : Within M N baseRowIdx baseColIdx) (j8 : j < 8) (i8 : i < 8) :
    ∃ m₁, Ends (exchange M N baseRowIdx baseColIdx j i m)
        (Stores (baseColIdx + j) (baseRowIdx + i) (m.A (baseRowIdx + i) (baseColIdx + j)) m₁) ∧
      Loads i (m.B (baseColIdx + j) (baseRowIdx + i)) m m₁ := by
  obtain ⟨rows, cols, colsFit, rowsFit⟩ := within
  have inB : baseColIdx + j < M := by omega
  have inA : baseRowIdx + i < N := by omega
  obtain ⟨m₁, read₁, reads₁⟩ := readB_ends (m := m) inB inA
  obtain ⟨m₂, wrote₂, loads₂⟩ :=
    writeTmp_ends (m := m₁) i8 (m.B (baseColIdx + j) (baseRowIdx + i))
  obtain ⟨m₃, read₃, reads₃⟩ := readA_ends (m := m₂) inA inB
  obtain ⟨m₄, wrote₄, stores₄⟩ :=
    writeB_ends (m := m₃) inB inA (m₂.A (baseRowIdx + i) (baseColIdx + j))
  have loads := reads₁.loads loads₂
  refine ⟨m₂, ⟨m₄, ?_, ?_⟩, loads⟩
  · unfold exchange
    rw [addInt_eq (by omega), addInt_eq (by omega)]
    simp only [Option.bind_eq_bind, Option.bind_some, read₁, wrote₂, read₃, wrote₄]
  · rw [← loads.a]
    exact reads₃.stores stores₄

/-! ## The three steps -/

/-- What the first step writes: the right quarter belongs four rows below and four
columns to the left. -/
def parkedValues (m : Mem α) (baseRowIdx r c : Nat) : α :=
  if c < baseRowIdx + 4 then m.A c r else m.A (c - 4) (r + 4)

theorem upperPass_ends (within : Within M N baseRowIdx baseColIdx) (i4 : i < 4) :
    Ends (upperPass M N baseRowIdx baseColIdx i m)
      (Writes (fun r c => (baseColIdx ≤ r ∧ r < baseColIdx + 4) ∧
        (c = baseRowIdx + i ∨ c = baseRowIdx + i + 4)) (parkedValues m baseRowIdx) m) := by
  let v : Nat → α := fun j => m.A (baseRowIdx + i) (baseColIdx + j)
  have i8 : i < 8 := by omega
  unfold upperPass
  -- the left quarter
  refine (loadCells_end (v := v) (by decide) (parkedValues m baseRowIdx) ?_).bind ?_
  · intro j m' _ j4 a
    have loads := loadA_ends (m := m') within i8 (show j < 8 by omega) (show j < 8 by omega)
    rw [a] at loads
    exact loads
  rintro m₁ ⟨loaded₁, writes₁⟩
  refine (storeCells_end (f := parkedValues m baseRowIdx) (p := fun j => baseColIdx + j)
    (q := fun _ => baseRowIdx + i) (by decide) loaded₁ ?_ ?_).bind ?_
  · intro j _ j4
    unfold parkedValues
    rw [if_pos (by omega)]
  · intro j m' _ j4 value
    exact storeB_ends within i8 (by omega) value
  intro m₂ writes₂
  -- the right quarter
  have a₂ : m₂.A = m.A := writes₂.a.trans writes₁.a
  refine (loadCells_end (v := v) (by decide) (parkedValues m baseRowIdx) ?_).bind ?_
  · intro j m' _ j8 a
    have loads := loadA_ends (m := m') within i8 j8 j8
    rw [a, a₂] at loads
    exact loads
  rintro m₃ ⟨loaded₃, writes₃⟩
  refine (storeCells_end (f := parkedValues m baseRowIdx) (p := fun j => baseColIdx + j - 4)
    (q := fun _ => baseRowIdx + i + 4) (by decide) loaded₃ ?_ ?_).mono ?_
  · intro j low j8
    unfold parkedValues
    rw [if_neg (by omega), show baseColIdx + j - 4 + 4 = baseColIdx + j by omega]
    rfl
  · intro j m' low j8 value
    exact park_ends within i4 low j8 value
  intro m₄ writes₄
  refine (((writes₁.trans writes₂).trans writes₃).trans writes₄).pass.congr ?_ fun _ _ _ => rfl
  intro r c
  constructor
  · rintro ⟨rows, left | right⟩
    · exact .inl (.inl (.inr ⟨r - baseColIdx, by omega, by omega, by omega, left⟩))
    · exact .inr ⟨r - baseColIdx + 4, by omega, by omega, by omega, right⟩
  · rintro (((⟨⟨⟩⟩ | ⟨j, low, high, rfl, here⟩) | ⟨⟨⟩⟩) | ⟨j, low, high, rfl, here⟩)
    · exact ⟨by omega, .inl here⟩
    · exact ⟨by omega, .inr here⟩

/-- Row `baseColIdx + j` of the quarter is still parked. -/
def Parked (m : Mem α) (B : Nat → Nat → α) (baseRowIdx baseColIdx j : Nat) : Prop :=
  ∀ i, 4 ≤ i → i < 8 →
    B (baseColIdx + j) (baseRowIdx + i) = m.transposed (baseColIdx + j + 4) (baseRowIdx + i - 4)

/-- The parked row goes to `tmpDiagData`, and what belongs there takes its place. -/
theorem exchangeLoop_ends (within : Within M N baseRowIdx baseColIdx) (j8 : j < 8)
    (parked : Parked m m.B baseRowIdx baseColIdx j) :
    Ends (forInt 4 8 1 (always (exchange M N baseRowIdx baseColIdx j)) m) fun m' =>
      Loaded (fun i => m.transposed (baseColIdx + j + 4) (baseRowIdx + i - 4)) 4 8 m' ∧
        Writes (fun r c => r = baseColIdx + j ∧ baseRowIdx + 4 ≤ c ∧ c < baseRowIdx + 8)
          m.transposed m m' := by
  let v : Nat → α := fun i => m.transposed (baseColIdx + j + 4) (baseRowIdx + i - 4)
  refine (forInt_always_writes (f := m.transposed)
    (P := fun i m' => Loaded v 4 i m' ∧
      ∀ k, i ≤ k → k < 8 → m'.B (baseColIdx + j) (baseRowIdx + k) = v k)
    (Q := Loaded v 4 8) (R := fun i r c => r = baseColIdx + j ∧ c = baseRowIdx + i)
    (Room.of_le (by decide)) Nat.one_pos ?_ ?_ ⟨loaded_nothing _ _ _, parked⟩).mono ?_
  · rintro i m' low i8 - a ⟨loaded, rest⟩
    obtain ⟨m₁, ends, loads⟩ := exchange_ends (m := m') within j8 i8
    refine ends.mono ?_
    intro m'' stores
    rw [rest i (Nat.le_refl i) i8] at loads
    refine ⟨⟨(loaded.load loads).store stores, ?_⟩, ?_⟩
    · intro k later k8
      have other : ¬ (baseColIdx + j = baseColIdx + j ∧ baseRowIdx + k = baseRowIdx + i) := by
        omega
      rw [stores.b, loads.b]
      unfold Grid.set
      rw [if_neg other]
      exact rest k (by omega) k8
    · rw [a] at stores
      refine (loads.writes.trans (stores.writes rfl)).congr ?_ fun _ _ _ => rfl
      intro r c
      simp
  · rintro i m' done ⟨loaded, -⟩
    exact loaded.mono done
  · rintro m' ⟨loaded, writes⟩
    refine ⟨loaded, writes.congr ?_ fun _ _ _ => rfl⟩
    intro r c
    constructor
    · rintro ⟨rfl, low, high⟩
      exact ⟨c - baseRowIdx, by omega, by omega, by simp, rfl, by omega⟩
    · rintro ⟨i, low, high, -, rfl, rfl⟩
      exact ⟨rfl, by omega, by omega⟩

/-- The pass of column `j` takes `m` to `m'`: it finds row `j` of the quarter parked, has
it in `tmpDiagData` when `A`'s elements have taken its place, and moves it below. -/
structure MovesRow (M N baseRowIdx baseColIdx j : Nat) (m m' : Mem α) : Prop where
  parked : Parked m m.B baseRowIdx baseColIdx j
  saved : ∃ saved,
    forInt 4 8 1 (always (exchange M N baseRowIdx baseColIdx j)) m.beginPass = some saved ∧
    forInt 4 8 1 (always (unpark M N baseRowIdx baseColIdx j)) saved = some m' ∧
    Loaded (fun i => m.transposed (baseColIdx + j + 4) (baseRowIdx + i - 4)) 4 8 saved ∧
    ∀ i, 4 ≤ i → i < 8 → saved.B (baseColIdx + j) (baseRowIdx + i) =
      m.transposed (baseColIdx + j) (baseRowIdx + i)
  moved : ∀ i, 4 ≤ i → i < 8 → m'.B (baseColIdx + j + 4) (baseRowIdx + i - 4) =
    m.transposed (baseColIdx + j + 4) (baseRowIdx + i - 4)

/-- The pass moves a parked row below. -/
theorem lowerLeftPass_ends (within : Within M N baseRowIdx baseColIdx) (j4 : j < 4)
    (parked : Parked m m.B baseRowIdx baseColIdx j) :
    Ends (lowerLeftPass M N baseRowIdx baseColIdx j m) fun m' =>
      MovesRow M N baseRowIdx baseColIdx j m m' ∧
      Writes (fun r c => r = baseColIdx + j ∧ baseRowIdx + 4 ≤ c ∧ c < baseRowIdx + 8 ∨
        r = baseColIdx + j + 4 ∧ baseRowIdx ≤ c ∧ c < baseRowIdx + 4) m.transposed m m' := by
  obtain ⟨m₁, ran₁, loaded, writes₁⟩ :=
    exchangeLoop_ends (m := m.beginPass) within (show j < 8 by omega) parked
  have below : Ends (forInt 4 8 1 (always (unpark M N baseRowIdx baseColIdx j)) m₁)
      (Writes (fun r c => ∃ i, 4 ≤ i ∧ i < 8 ∧ r = baseColIdx + j + 4 ∧ c = baseRowIdx + i - 4)
        m.transposed m₁) := by
    apply storeCells_end (by decide) loaded (fun _ _ _ => rfl)
    intro i m' low i8 value
    exact unpark_ends within j4 low i8 value
  obtain ⟨m₂, ran₂, writes₂⟩ := below
  refine ⟨m₂, ?_, ⟨parked, ⟨m₁, ran₁, ran₂, loaded, ?_⟩, ?_⟩, ?_⟩
  · unfold lowerLeftPass
    simp only [Option.bind_eq_bind, Option.bind_some, ran₁, ran₂]
  · intro i low i8
    exact writes₁.b.inside _ _ (by omega)
  · intro i low i8
    exact writes₂.b.inside _ _ ⟨i, low, i8, rfl, rfl⟩
  refine (writes₁.pass.trans writes₂).congr ?_ fun _ _ _ => rfl
  intro r c
  constructor
  · rintro (here | ⟨rfl, low, high⟩)
    · exact .inl here
    · exact .inr ⟨c + 4 - baseRowIdx, by omega, by omega, rfl, by omega⟩
  · rintro (here | ⟨i, low, high, rfl, rfl⟩)
    · exact .inl here
    · exact .inr ⟨rfl, by omega, by omega⟩

theorem lowerRightPass_ends (within : Within M N baseRowIdx baseColIdx) (j8 : j < 8) :
    Ends (lowerRightPass M N baseRowIdx baseColIdx j m)
      (Writes (fun r c => r = baseColIdx + j ∧ baseRowIdx + 4 ≤ c ∧ c < baseRowIdx + 8)
        m.transposed m) := by
  unfold lowerRightPass
  refine (loadCells_end (v := fun i => m.A (baseRowIdx + i) (baseColIdx + j)) (by decide)
    m.transposed ?_).bind ?_
  · intro i m' _ i8 a
    have loads := loadA_ends (m := m') within i8 j8 i8
    rw [a] at loads
    exact loads
  rintro m₁ ⟨loaded, writes₁⟩
  refine (storeCells_end (f := m.transposed) (p := fun _ => baseColIdx + j)
    (q := fun i => baseRowIdx + i) (by decide) loaded (fun _ _ _ => rfl) ?_).mono ?_
  · intro i m' _ i8 value
    exact storeB_ends within i8 j8 value
  intro m₂ writes₂
  refine (writes₁.trans writes₂).pass.congr ?_ fun _ _ _ => rfl
  intro r c
  constructor
  · rintro ⟨rfl, low, high⟩
    exact .inr ⟨c - baseRowIdx, by omega, by omega, rfl, by omega⟩
  · rintro (⟨⟨⟩⟩ | ⟨i, low, high, rfl, rfl⟩)
    exact ⟨rfl, by omega, by omega⟩

/-! ## The block -/

theorem upperLoop_ends (within : Within M N baseRowIdx baseColIdx) :
    Ends (forInt 0 4 1 (always (upperPass M N baseRowIdx baseColIdx)) m)
      (Writes (fun r c => (baseColIdx ≤ r ∧ r < baseColIdx + 4) ∧ baseRowIdx ≤ c ∧
        c < baseRowIdx + 8) (parkedValues m baseRowIdx) m) := by
  refine (forInt_always_writes (f := parkedValues m baseRowIdx) (P := fun _ _ => True)
    (Q := fun _ => True) (R := fun i r c => (baseColIdx ≤ r ∧ r < baseColIdx + 4) ∧
      (c = baseRowIdx + i ∨ c = baseRowIdx + i + 4)) (Room.of_le (by decide)) Nat.one_pos ?_
    (fun _ _ _ _ => trivial) trivial).mono ?_
  · intro i m' _ i4 _ a _
    refine (upperPass_ends (m := m') within i4).mono ?_
    intro m'' writes
    refine ⟨trivial, writes.congr (fun _ _ => Iff.rfl) fun r c _ => ?_⟩
    unfold parkedValues
    rw [a]
  · rintro m' ⟨-, writes⟩
    refine writes.congr ?_ fun _ _ _ => rfl
    intro r c
    constructor
    · rintro ⟨rows, low, high⟩
      by_cases left : c < baseRowIdx + 4
      · exact ⟨c - baseRowIdx, by omega, by omega, by simp, rows, .inl (by omega)⟩
      · exact ⟨c - baseRowIdx - 4, by omega, by omega, by simp, rows, .inr (by omega)⟩
    · rintro ⟨i, -, i4, -, rows, here⟩
      exact ⟨rows, by omega, by omega⟩

/-- After the first step every row of the quarter is parked. -/
theorem upperLoop_parked {m₁ : Mem α}
    (writes : Writes (fun r c => (baseColIdx ≤ r ∧ r < baseColIdx + 4) ∧ baseRowIdx ≤ c ∧
      c < baseRowIdx + 8) (parkedValues m baseRowIdx) m m₁) (j4 : j < 4) :
    Parked m₁ m₁.B baseRowIdx baseColIdx j := by
  intro i low i8
  rw [writes.b.inside _ _ (by omega), transposed_eq writes.a]
  unfold parkedValues
  rw [if_neg (by omega)]
  rfl

theorem lowerLeftLoop_ends (within : Within M N baseRowIdx baseColIdx)
    (parked : ∀ j < 4, Parked m m.B baseRowIdx baseColIdx j) :
    Ends (forInt 0 4 1 (always (lowerLeftPass M N baseRowIdx baseColIdx)) m)
      (Writes (fun r c =>
        (baseColIdx ≤ r ∧ r < baseColIdx + 4) ∧ baseRowIdx + 4 ≤ c ∧ c < baseRowIdx + 8 ∨
        (baseColIdx + 4 ≤ r ∧ r < baseColIdx + 8) ∧ baseRowIdx ≤ c ∧ c < baseRowIdx + 4)
        m.transposed m) := by
  -- the rows from `j` on are still parked
  refine (forInt_always_writes (f := m.transposed)
    (P := fun j m' => ∀ k, j ≤ k → k < 4 → Parked m m'.B baseRowIdx baseColIdx k)
    (Q := fun _ => True)
    (R := fun j r c => r = baseColIdx + j ∧ baseRowIdx + 4 ≤ c ∧ c < baseRowIdx + 8 ∨
        r = baseColIdx + j + 4 ∧ baseRowIdx ≤ c ∧ c < baseRowIdx + 4)
    (Room.of_le (by decide)) Nat.one_pos ?_ (fun _ _ _ _ => trivial)
    fun k _ k4 => parked k k4).mono ?_
  · intro j m' _ j4 _ a rest
    have same := transposed_eq a
    have parked' : Parked m' m'.B baseRowIdx baseColIdx j := by
      unfold Parked
      rw [same]
      exact rest j (Nat.le_refl j) j4
    refine (lowerLeftPass_ends within j4 parked').mono ?_
    rintro m'' ⟨-, writes⟩
    rw [same] at writes
    refine ⟨?_, writes⟩
    intro k later k4 i low i8
    rw [writes.b.outside _ _ (by omega)]
    exact rest k (by omega) k4 i low i8
  · rintro m' ⟨-, writes⟩
    refine writes.congr ?_ fun _ _ _ => rfl
    intro r c
    constructor
    · rintro (⟨⟨low, high⟩, cols⟩ | ⟨⟨low, high⟩, cols⟩)
      · exact ⟨r - baseColIdx, by omega, by omega, by simp, .inl ⟨by omega, cols⟩⟩
      · exact ⟨r - baseColIdx - 4, by omega, by omega, by simp, .inr ⟨by omega, cols⟩⟩
    · rintro ⟨j, -, j4, -, here⟩
      omega

theorem lowerRightLoop_ends (within : Within M N baseRowIdx baseColIdx) :
    Ends (forInt 4 8 1 (always (lowerRightPass M N baseRowIdx baseColIdx)) m)
      (Writes (fun r c => (baseColIdx + 4 ≤ r ∧ r < baseColIdx + 8) ∧ baseRowIdx + 4 ≤ c ∧
        c < baseRowIdx + 8) m.transposed m) := by
  refine (forInt_always_writes (f := m.transposed) (P := fun _ _ => True) (Q := fun _ => True)
    (R := fun j r c => r = baseColIdx + j ∧ baseRowIdx + 4 ≤ c ∧ c < baseRowIdx + 8)
    (Room.of_le (by decide)) Nat.one_pos ?_ (fun _ _ _ _ => trivial) trivial).mono ?_
  · intro j m' _ j8 _ a _
    refine (lowerRightPass_ends (m := m') within j8).mono ?_
    intro m'' writes
    rw [transposed_eq a] at writes
    exact ⟨trivial, writes⟩
  · rintro m' ⟨-, writes⟩
    refine writes.congr ?_ fun _ _ _ => rfl
    intro r c
    constructor
    · rintro ⟨⟨low, high⟩, cols⟩
      exact ⟨r - baseColIdx, by omega, by omega, by simp, by omega, cols⟩
    · rintro ⟨j, low, high, -, here⟩
      omega

/-- **A block of `my_trans64x64` is transposed**, and the rest of `B` stays as it is. -/
theorem trans64Block_ends (within : Within M N baseRowIdx baseColIdx) :
    Ends (trans64Block M N baseRowIdx baseColIdx m)
      (Writes (InBlock M N baseRowIdx baseColIdx) m.transposed m) := by
  have rowsFit := within.rows
  have colsFit := within.cols
  unfold trans64Block
  refine (upperLoop_ends within).bind ?_
  intro m₁ writes₁
  have same₁ := transposed_eq writes₁.a
  have parked : ∀ j < 4, Parked m₁ m₁.B baseRowIdx baseColIdx j :=
    fun _ j4 => upperLoop_parked writes₁ j4
  refine (lowerLeftLoop_ends within parked).bind ?_
  intro m₂ writes₂
  have same₂ := transposed_eq (writes₂.a.trans writes₁.a)
  rw [same₁] at writes₂
  refine (lowerRightLoop_ends within).mono ?_
  intro m₃ writes₃
  rw [same₂] at writes₃
  -- only the parked quarter was given other values, and it has been overwritten
  have agree : ∀ r c, ((baseColIdx ≤ r ∧ r < baseColIdx + 4) ∧ baseRowIdx ≤ c ∧
      c < baseRowIdx + 8) → ¬ ((baseColIdx ≤ r ∧ r < baseColIdx + 4) ∧ baseRowIdx + 4 ≤ c ∧
        c < baseRowIdx + 8 ∨ (baseColIdx + 4 ≤ r ∧ r < baseColIdx + 8) ∧ baseRowIdx ≤ c ∧
        c < baseRowIdx + 4) → parkedValues m baseRowIdx r c = m.transposed r c := by
    intro r c inUpper notLeft
    unfold parkedValues
    rw [if_pos (by omega)]
    rfl
  refine ((writes₁.over writes₂ agree).trans writes₃).congr ?_ fun _ _ _ => rfl
  intro r c
  unfold InBlock
  constructor
  · rintro ⟨⟨low, high, -⟩, low', high', -⟩
    omega
  · intro here
    exact ⟨⟨by omega, by omega, by omega⟩, by omega, by omega, by omega⟩

end Block

/-- **`my_trans64x64` transposes** where blocks fit exactly. -/
theorem myTrans64x64_ends (rows : 8 ∣ N) (cols : 8 ∣ M) (rowsFit : N ≤ INT_MAX)
    (colsFit : M ≤ INT_MAX) (m : Mem α) :
    Ends (myTrans64x64 M N m) (Writes (fun r c => r < M ∧ c < N) m.transposed m) := by
  refine blocks_end (Room.of_dvd rows rowsFit) (Room.of_dvd cols colsFit) ?_ m
  intro baseRowIdx baseColIdx m' inRows inCols aligned aligned'
  exact trans64Block_ends ⟨by omega, by omega, colsFit, rowsFit⟩

end CsappLab.Trans
