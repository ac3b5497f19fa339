/-
# Trans.Submit — `transpose_submit` agrees with `correctTrans`

Whichever of the two functions `transpose_submit` calls, and whatever the sizes are,
the run is defined, `B` ends as the transpose of `A`, and `A` as it was.
-/
import CsappLab.Trans.Parked

namespace CsappLab.Trans

set_option autoImplicit false

open CsappLab.Lib

variable {α : Type} {M N : Nat}

theorem transposeSubmit_ends (sizes : Sizes M N) (m : Mem α) :
    Ends (transposeSubmit M N m) (Writes (fun r c => r < M ∧ c < N) m.transposed m) := by
  unfold transposeSubmit
  by_cases square : M = 64 ∧ N = 64
  · rw [if_pos square]
    obtain ⟨rfl, rfl⟩ := square
    exact myTrans64x64_ends (by decide) (by decide) (by decide) (by decide) m
  · rw [if_neg square]
    exact myTrans_ends sizes m

theorem copyElement_ends {i j : Nat} (inRows : i < N) (inCols : j < M) (m : Mem α) :
    Ends (copyElement M N i j m) (Writes (fun r c => r = j ∧ c = i) m.transposed m) := by
  obtain ⟨m₁, read, reads⟩ := readA_ends (m := m) inRows inCols
  obtain ⟨m₂, wrote, stores⟩ := writeB_ends (m := m₁) inCols inRows (m.A i j)
  refine ⟨m₂, ?_, (reads.stores stores).writes rfl⟩
  unfold copyElement
  simp only [Option.bind_eq_bind, Option.bind_some, read, wrote]

/-- `correctTrans` transposes, element by element. -/
theorem correctTrans_ends (sizes : Sizes M N) (m : Mem α) :
    Ends (correctTrans M N m) (Writes (fun r c => r < M ∧ c < N) m.transposed m) := by
  obtain ⟨colsFit, rowsFit⟩ := sizes
  have max : INT_MAX = 2147483647 := rfl
  refine (forInt_always_writes (f := m.transposed) (P := fun _ _ => True) (Q := fun _ => True)
    (R := fun i r c => r < M ∧ c = i) (Room.of_le (by omega)) Nat.one_pos ?_
    (fun _ _ _ _ => trivial) trivial).mono ?_
  · intro i m₁ _ inRows _ a _
    refine (forInt_always_writes (f := m.transposed) (P := fun _ _ => True) (Q := fun _ => True)
      (R := fun j r c => r = j ∧ c = i) (Room.of_le (by omega)) Nat.one_pos ?_
      (fun _ _ _ _ => trivial) trivial).mono ?_
    · intro j m₂ _ inCols _ a' _
      refine (copyElement_ends inRows inCols m₂).mono ?_
      intro m₃ writes
      rw [transposed_eq (a'.trans a)] at writes
      exact ⟨trivial, writes⟩
    · rintro m₂ ⟨-, writes⟩
      refine ⟨trivial, writes.congr ?_ fun _ _ _ => rfl⟩
      intro r c
      constructor
      · rintro ⟨inCols, rfl⟩
        exact ⟨r, Nat.zero_le r, inCols, by simp, rfl, rfl⟩
      · rintro ⟨j, -, inCols, -, rfl, same⟩
        exact ⟨inCols, same⟩
  · rintro m' ⟨-, writes⟩
    refine writes.congr ?_ fun _ _ _ => rfl
    intro r c
    constructor
    · rintro ⟨rows, cols⟩
      exact ⟨c, Nat.zero_le c, cols, by simp, rows, rfl⟩
    · rintro ⟨i, -, inRows, -, rows, rfl⟩
      exact ⟨rows, inRows⟩

/-- **`transpose_submit` transposes** matrices of every size, inside their bounds, and
with no cell of `tmpDiagData` used before its pass has written it; `correctTrans` gives
the same `B`. -/
theorem transposeSubmit_correct (M N : Nat) (cols : M ≤ INT_MAX - 8) (rows : N ≤ INT_MAX - 8)
    (m : Mem α) :
    ∃ m' correct, transposeSubmit M N m = some m' ∧ correctTrans M N m = some correct ∧
      m'.A = m.A ∧ (∀ i < N, ∀ j < M, m'.B j i = m.A i j) ∧
      (∀ j i, m'.B j i = correct.B j i) := by
  have sizes : Sizes M N := ⟨cols, rows⟩
  obtain ⟨m', ran, writes⟩ := transposeSubmit_ends sizes m
  obtain ⟨correct, ran', writes'⟩ := correctTrans_ends sizes m
  refine ⟨m', correct, ran, ran', writes.a, ?_, ?_⟩
  · intro i inRows j inCols
    exact writes.b.inside j i ⟨inCols, inRows⟩
  · intro j i
    by_cases here : j < M ∧ i < N
    · rw [writes.b.inside j i here, writes'.b.inside j i here]
    · rw [writes.b.outside j i here, writes'.b.outside j i here]

/-- A matrix of 9 rows and 11 columns, with ragged blocks on both edges. -/
theorem transposeSubmit_correct_ragged :
    ∃ m', transposeSubmit 11 9
        (⟨fun i j => 100 * i + j, fun _ _ => 7, fun _ => 7, fun _ => false, []⟩ : Mem Nat) =
        some m' ∧
      m'.B 10 8 = 810 := by
  obtain ⟨m', _, ran, -, -, transposed, -⟩ := transposeSubmit_correct 11 9 (by decide) (by decide)
    (⟨fun i j => 100 * i + j, fun _ _ => 7, fun _ => 7, fun _ => false, []⟩ : Mem Nat)
  exact ⟨m', ran, transposed 8 (by decide) 10 (by decide)⟩

end CsappLab.Trans
