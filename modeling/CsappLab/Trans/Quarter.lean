/-
# Trans.Quarter — how `my_trans64x64` moves the parked quarter

The second step of a block, state by state: each of its four passes finds its row of
the quarter still parked, has it in `tmpDiagData` before the row is overwritten, and
writes it four rows below. `B` is its own scratch space, so the order matters; what
the whole function does with it is `myTrans64x64_correct`.
-/
import CsappLab.Trans.Parked

namespace CsappLab.Trans

set_option autoImplicit false

open CsappLab.Lib

variable {α : Type} {M N baseRowIdx baseColIdx : Nat} {m : Mem α}

/-- The first `n` passes of the second step. -/
structure Moved (M N baseRowIdx baseColIdx : Nat) (m : Mem α) (s : Nat → Mem α) (n : Nat) :
    Prop where
  a : ∀ j ≤ n, (s j).A = m.A
  pass : ∀ j < n, lowerLeftPass M N baseRowIdx baseColIdx j (s j) = some (s (j + 1))
  moves : ∀ j < n, MovesRow M N baseRowIdx baseColIdx j (s j) (s (j + 1))
  rest : ∀ j, n ≤ j → j < 4 → Parked (s n) (s n).B baseRowIdx baseColIdx j

theorem Moved.next (within : Within M N baseRowIdx baseColIdx) {s : Nat → Mem α} {n : Nat}
    (moved : Moved M N baseRowIdx baseColIdx m s n) (n4 : n < 4) :
    ∃ m', Moved M N baseRowIdx baseColIdx m (Function.update s (n + 1) m') (n + 1) := by
  obtain ⟨m', ran, moves, writes⟩ :=
    lowerLeftPass_ends within n4 (moved.rest n (Nat.le_refl n) n4)
  have old : ∀ j ≤ n, Function.update s (n + 1) m' j = s j := by
    intro j le
    exact Function.update_of_ne (by omega) _ _
  have new : Function.update s (n + 1) m' (n + 1) = m' := Function.update_self _ _ _
  have same : m'.A = m.A := writes.a.trans (moved.a n (Nat.le_refl n))
  refine ⟨m', ?_, ?_, ?_, ?_⟩
  · intro j le
    by_cases last : j = n + 1
    · subst last
      rw [new]
      exact same
    · rw [old j (by omega)]
      exact moved.a j (by omega)
  · intro j less
    by_cases last : j = n
    · subst last
      rw [new, old j (Nat.le_refl j)]
      exact ran
    · rw [old j (by omega), old (j + 1) (by omega)]
      exact moved.pass j (by omega)
  · intro j less
    by_cases last : j = n
    · subst last
      rw [new, old j (Nat.le_refl j)]
      exact moves
    · rw [old j (by omega), old (j + 1) (by omega)]
      exact moved.moves j (by omega)
  · -- the pass writes to no row that is still parked
    intro j later j4 i low i8
    rw [new, writes.b.outside _ _ (by omega), transposed_eq writes.a]
    exact moved.rest j (by omega) j4 i low i8

theorem moved_upTo (within : Within M N baseRowIdx baseColIdx) {m₁ : Mem α} (a : m₁.A = m.A)
    (parked : ∀ j < 4, Parked m₁ m₁.B baseRowIdx baseColIdx j) (n : Nat) (n4 : n ≤ 4) :
    ∃ s, s 0 = m₁ ∧ Moved M N baseRowIdx baseColIdx m s n := by
  induction n with
  | zero =>
      refine ⟨fun _ => m₁, rfl, fun _ _ => a, ?_, ?_, fun j _ j4 => parked j j4⟩
      · intro j less
        exact absurd less (Nat.not_lt_zero j)
      · intro j less
        exact absurd less (Nat.not_lt_zero j)
  | succ n ih =>
      obtain ⟨s, start, moved⟩ := ih (by omega)
      obtain ⟨m', moved'⟩ := moved.next within (by omega)
      exact ⟨_, by rw [Function.update_of_ne (by omega)]; exact start, moved'⟩

/-- A block, with the states between the passes of its second step. -/
theorem trans64Block_moves (within : Within M N baseRowIdx baseColIdx) (m : Mem α) :
    ∃ s : Nat → Mem α, ∃ m',
      forInt 0 4 1 (always (upperPass M N baseRowIdx baseColIdx)) m = some (s 0) ∧
      (∀ j < 4, Parked (s 0) (s 0).B baseRowIdx baseColIdx j) ∧
      Moved M N baseRowIdx baseColIdx m s 4 ∧
      forInt 4 8 1 (always (lowerRightPass M N baseRowIdx baseColIdx)) (s 4) = some m' ∧
      trans64Block M N baseRowIdx baseColIdx m = some m' := by
  obtain ⟨m₁, ran₁, writes₁⟩ := upperLoop_ends (m := m) within
  have parked : ∀ j < 4, Parked m₁ m₁.B baseRowIdx baseColIdx j :=
    fun _ j4 => upperLoop_parked writes₁ j4
  obtain ⟨s, rfl, moved⟩ := moved_upTo within writes₁.a parked 4 (Nat.le_refl 4)
  obtain ⟨m', ran₃, -⟩ := lowerRightLoop_ends (m := s 4) within
  have ran₂ : forInt 0 4 1 (always (lowerLeftPass M N baseRowIdx baseColIdx)) (s 0) =
      some (s 4) := by
    apply forLoop_states (by decide)
    · intro j _ j4
      exact addInt_eq (show j + 1 ≤ INT_MAX by unfold INT_MAX; omega)
    · exact fun j _ j4 => moved.pass j j4
  refine ⟨s, m', ran₁, parked, moved, ran₃, ?_⟩
  unfold trans64Block
  simp only [Option.bind_eq_bind, Option.bind_some, ran₁, ran₂, ran₃]

/-- **`my_trans64x64` transposes** matrices whose sizes are multiples of 8, within their
bounds. In each block the quarter that was parked is moved row by row, and no element of
`B` outside the block changes. -/
theorem myTrans64x64_correct (M N : Nat) (cols : 8 ∣ M) (rows : 8 ∣ N) (colsFit : M ≤ INT_MAX)
    (rowsFit : N ≤ INT_MAX) :
    (∀ m : Mem α, ∃ m', myTrans64x64 M N m = some m' ∧ m'.A = m.A ∧
      ∀ i < N, ∀ j < M, m'.B j i = m.A i j) ∧
    ∀ baseRowIdx baseColIdx, baseRowIdx + 8 ≤ N → baseColIdx + 8 ≤ M → ∀ m : Mem α,
      ∃ s : Nat → Mem α, ∃ m',
        forInt 0 4 1 (always (upperPass M N baseRowIdx baseColIdx)) m = some (s 0) ∧
        (∀ j < 4, Parked (s 0) (s 0).B baseRowIdx baseColIdx j) ∧
        (∀ j < 4, (s j).A = m.A ∧
          lowerLeftPass M N baseRowIdx baseColIdx j (s j) = some (s (j + 1)) ∧
          MovesRow M N baseRowIdx baseColIdx j (s j) (s (j + 1))) ∧
        forInt 4 8 1 (always (lowerRightPass M N baseRowIdx baseColIdx)) (s 4) = some m' ∧
        trans64Block M N baseRowIdx baseColIdx m = some m' ∧ m'.A = m.A ∧
        (∀ i < 8, ∀ j < 8, m'.B (baseColIdx + j) (baseRowIdx + i) =
          m.A (baseRowIdx + i) (baseColIdx + j)) ∧
        ∀ r c, ¬ ((baseColIdx ≤ r ∧ r < baseColIdx + 8) ∧ baseRowIdx ≤ c ∧ c < baseRowIdx + 8) →
          m'.B r c = m.B r c := by
  constructor
  · intro m
    obtain ⟨m', ran, writes⟩ := myTrans64x64_ends rows cols rowsFit colsFit m
    exact ⟨m', ran, writes.a, fun i inRows j inCols => writes.b.inside j i ⟨inCols, inRows⟩⟩
  · intro baseRowIdx baseColIdx inRows inCols m
    have within : Within M N baseRowIdx baseColIdx := ⟨inRows, inCols, colsFit, rowsFit⟩
    obtain ⟨s, m', upper, parked, moved, lower, ran⟩ := trans64Block_moves within m
    obtain ⟨m'', ran', writes⟩ := trans64Block_ends (m := m) within
    have same : m'' = m' := Option.some.inj (ran'.symm.trans ran)
    subst same
    refine ⟨s, m'', upper, parked, ?_, lower, ran, writes.a, ?_, ?_⟩
    · intro j j4
      exact ⟨moved.a j (Nat.le_of_lt j4), moved.pass j j4, moved.moves j j4⟩
    · intro i i8 j j8
      apply writes.b.inside
      exact ⟨⟨by omega, by omega, by omega⟩, by omega, by omega, by omega⟩
    · intro r c outside
      apply writes.b.outside
      rintro ⟨⟨low, high, -⟩, low', high', -⟩
      exact outside ⟨⟨low, high⟩, low', high'⟩

/-- 16 rows and 24 columns. -/
theorem myTrans64x64_correct_rectangle :
    ∃ m', myTrans64x64 24 16
        (⟨fun i j => 100 * i + j, fun _ _ => 7, fun _ => 7, fun _ => false, []⟩ : Mem Nat) =
        some m' ∧
      m'.B 23 15 = 1523 := by
  obtain ⟨m', ran, -, transposed⟩ :=
    (myTrans64x64_correct 24 16 (by decide) (by decide) (by decide) (by decide)).1
      (⟨fun i j => 100 * i + j, fun _ _ => 7, fun _ => 7, fun _ => false, []⟩ : Mem Nat)
  exact ⟨m', ran, transposed 15 (by decide) 23 (by decide)⟩

end CsappLab.Trans
