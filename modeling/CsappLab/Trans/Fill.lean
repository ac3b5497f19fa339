/-
# Trans.Fill — what the statements and loops of a transpose do

`Writes D f m m'`: the cells of `B` in the region `D` have been given the values of
`f`, the rest of `B` and all of `A` are as before. Every loop has the rule
`forInt_writes`: what its iterations write makes up what it writes, and an
invariant `P` goes along for what is in `tmpDiagData`.
-/
import CsappLab.Trans.Trans

namespace CsappLab.Trans

set_option autoImplicit false

open CsappLab.Lib

structure Writes {α : Type} (D : Nat → Nat → Prop) (f : Nat → Nat → α) (m m' : Mem α) : Prop where
  a : m'.A = m.A
  b : Grid.Fills D f m.B m'.B

section

variable {α : Type} {D D' : Nat → Nat → Prop} {f f' : Nat → Nat → α} {m m' m'' : Mem α}

theorem Writes.nothing (a : m'.A = m.A) (b : m'.B = m.B) (empty : ∀ r c, ¬ D r c) :
    Writes D f m m' := by
  refine ⟨a, ?_⟩
  rw [b]
  exact .nothing empty

theorem Writes.congr (writes : Writes D f m m') (same : ∀ r c, D' r c ↔ D r c)
    (values : ∀ r c, D r c → f' r c = f r c) : Writes D' f' m m' :=
  ⟨writes.a, writes.b.congr same values⟩

theorem Writes.over (first : Writes D f m m') (second : Writes D' f' m' m'')
    (agree : ∀ r c, D r c → ¬ D' r c → f r c = f' r c) :
    Writes (fun r c => D r c ∨ D' r c) f' m m'' :=
  ⟨second.a.trans first.a, first.b.over second.b agree⟩

theorem Writes.trans (first : Writes D f m m') (second : Writes D' f m' m'') :
    Writes (fun r c => D r c ∨ D' r c) f m m'' :=
  first.over second fun _ _ _ _ => rfl

theorem Writes.pass (writes : Writes D f m.beginPass m') : Writes D f m m' :=
  ⟨writes.a, writes.b⟩

/-- Matrices whose row and column counts leave room for the loops' increments. -/
structure Sizes (M N : Nat) : Prop where
  cols : M ≤ INT_MAX - 8
  rows : N ≤ INT_MAX - 8

theorem addInt_eq {a b : Nat} (fits : a + b ≤ INT_MAX) : addInt a b = some (a + b) :=
  if_pos fits

theorem subInt_eq {a b : Nat} (le : b ≤ a) : subInt a b = some (a - b) :=
  if_pos le

/-! ## The rule of loops -/

/-- A count from `lo` on in steps of `step`: between two counts there is none. -/
theorem count_eq {lo step i k : Nat} (above : lo ≤ i) (aligned : step ∣ i - lo) (low : i ≤ k)
    (high : k < i + step) (aligned' : step ∣ k - lo) : k = i := by
  obtain ⟨n, eq⟩ := aligned
  obtain ⟨n', eq'⟩ := aligned'
  have less : step * n' < step * (n + 1) := by rw [Nat.mul_add]; omega
  have le := Nat.le_of_lt_succ (Nat.lt_of_mul_lt_mul_left less)
  have mono := Nat.mul_le_mul_left step le
  omega

/-- The count is an `int` after every iteration. -/
def Room (lo hi step : Nat) : Prop :=
  ∀ i, lo ≤ i → i < hi → step ∣ i - lo → i + step ≤ INT_MAX

theorem Room.of_le {lo hi step : Nat} (fits : hi + step ≤ INT_MAX) : Room lo hi step := by
  intro i _ less _
  omega

/-- If the steps end exactly at the bound it is enough for the bound to be an `int`. -/
theorem Room.of_dvd {hi step : Nat} (exact_ : step ∣ hi) (fits : hi ≤ INT_MAX) :
    Room 0 hi step := by
  intro i _ less aligned
  obtain ⟨n, rfl⟩ := exact_
  obtain ⟨k, eq⟩ := aligned
  rw [Nat.sub_zero] at eq
  subst eq
  have le := Nat.mul_le_mul_left step (Nat.lt_of_mul_lt_mul_left less)
  rw [Nat.mul_succ] at le
  omega

section Loop

variable {lo hi step : Nat} {P : Nat → Mem α → Prop} {Q : Mem α → Prop}
  {R : Nat → Nat → Nat → Prop}

/-- Iteration `i` writes the region `i`; an iteration that breaks writes nothing, and
nothing is left to be written from it on. -/
theorem forInt_writes {body : Nat → Mem α → Option (Flow (Mem α))} (room : Room lo hi step)
    (pos : 0 < step)
    (each : ∀ i m', lo ≤ i → i < hi → step ∣ i - lo → m'.A = m.A → P i m' →
      Ends (body i m') (Flow.Post
        (fun m'' => P (i + step) m'' ∧ Writes (R i) f m' m'')
        (fun m'' => Q m'' ∧ m''.A = m'.A ∧ m''.B = m'.B ∧
          ∀ k, i ≤ k → k < hi → ∀ r c, ¬ R k r c)))
    (exit : ∀ i m', hi ≤ i → P i m' → Q m') (start : P lo m) :
    Ends (forInt lo hi step body m) fun m' =>
      Q m' ∧ Writes (fun r c => ∃ i, lo ≤ i ∧ i < hi ∧ step ∣ i - lo ∧ R i r c) f m m' := by
  let I : Nat → Mem α → Prop := fun i m' =>
    lo ≤ i ∧ step ∣ i - lo ∧ P i m' ∧
      Writes (fun r c => ∃ k, k < i ∧ lo ≤ k ∧ k < hi ∧ step ∣ k - lo ∧ R k r c) f m m'
  refine forLoop_ends (I := I) ?_ ?_ ?_
  · -- an iteration
    rintro i m' more ⟨above, aligned, inv, writes⟩
    obtain ⟨flow, ran, post⟩ := each i m' above more aligned writes.a inv
    refine ⟨flow, ran, ?_⟩
    cases flow with
    | next m'' =>
        obtain ⟨inv', more'⟩ := post
        refine ⟨i + step, addInt_eq (room i above more aligned), by omega, by omega, ?_, inv', ?_⟩
        · obtain ⟨n, eq⟩ := aligned
          exact ⟨n + 1, by rw [Nat.mul_add]; omega⟩
        · refine (writes.trans more').congr ?_ fun _ _ _ => rfl
          intro r c
          constructor
          · rintro ⟨k, before, low, high, aligned', here⟩
            by_cases earlier : k < i
            · exact .inl ⟨k, earlier, low, high, aligned', here⟩
            · have same := count_eq above aligned (by omega) before aligned'
              exact .inr (same ▸ here)
          · rintro (⟨k, before, rest⟩ | here)
            · exact ⟨k, by omega, rest⟩
            · exact ⟨i, by omega, above, more, aligned, here⟩
    | stop m'' =>
        obtain ⟨q, a, b, none_⟩ := post
        refine ⟨q, (writes.trans (.nothing (D := fun _ _ => False) a b fun _ _ => id)).congr ?_
          fun _ _ _ => rfl⟩
        intro r c
        constructor
        · rintro ⟨k, low, high, aligned', here⟩
          by_cases earlier : k < i
          · exact .inl ⟨k, earlier, low, high, aligned', here⟩
          · exact absurd here (none_ k (by omega) high r c)
        · rintro (⟨k, -, rest⟩ | away)
          · exact ⟨k, rest⟩
          · exact away.elim
  · -- the end
    rintro i m' done ⟨above, aligned, inv, writes⟩
    refine ⟨exit i m' done inv, writes.congr ?_ fun _ _ _ => rfl⟩
    intro r c
    constructor
    · rintro ⟨k, low, high, rest⟩
      exact ⟨k, by omega, low, high, rest⟩
    · rintro ⟨k, -, rest⟩
      exact ⟨k, rest⟩
  · refine ⟨Nat.le_refl _, by simp, start, .nothing rfl rfl ?_⟩
    rintro r c ⟨k, before, low, -⟩
    omega

/-- The rule where no iteration breaks. -/
theorem forInt_always_writes {body : Nat → Mem α → Option (Mem α)} (room : Room lo hi step)
    (pos : 0 < step)
    (each : ∀ i m', lo ≤ i → i < hi → step ∣ i - lo → m'.A = m.A → P i m' →
      Ends (body i m') fun m'' => P (i + step) m'' ∧ Writes (R i) f m' m'')
    (exit : ∀ i m', hi ≤ i → P i m' → Q m') (start : P lo m) :
    Ends (forInt lo hi step (always body) m) fun m' =>
      Q m' ∧ Writes (fun r c => ∃ i, lo ≤ i ∧ i < hi ∧ step ∣ i - lo ∧ R i r c) f m m' := by
  refine forInt_writes room pos ?_ exit start
  intro i m' above more aligned a inv
  obtain ⟨m'', ran, post⟩ := each i m' above more aligned a inv
  refine ⟨.next m'', ?_, post⟩
  unfold always
  rw [ran]
  rfl

end Loop

/-! ## `tmpDiagData` -/

/-- Since the pass began the cells from `lo` to `hi` have been given the values of `v`. -/
def Loaded (v : Nat → α) (lo hi : Nat) (m : Mem α) : Prop :=
  ∀ k, lo ≤ k → k < hi → m.written k = true ∧ m.tmpDiagData k = v k

/-- An element is read. -/
structure Reads (m m' : Mem α) : Prop where
  a : m'.A = m.A
  b : m'.B = m.B
  written : m'.written = m.written
  tmp : m'.tmpDiagData = m.tmpDiagData

/-- A cell of `tmpDiagData` is written. -/
structure Loads (k : Nat) (x : α) (m m' : Mem α) : Prop where
  a : m'.A = m.A
  b : m'.B = m.B
  written : m'.written = Function.update m.written k true
  tmp : m'.tmpDiagData = Function.update m.tmpDiagData k x

/-- An element of `B` is written. -/
structure Stores (i j : Nat) (x : α) (m m' : Mem α) : Prop where
  a : m'.A = m.A
  b : m'.B = Grid.set m.B i j x
  written : m'.written = m.written
  tmp : m'.tmpDiagData = m.tmpDiagData

theorem Reads.loads {k : Nat} {x : α} (reads : Reads m m') (loads : Loads k x m' m'') :
    Loads k x m m'' := by
  refine ⟨loads.a.trans reads.a, loads.b.trans reads.b, ?_, ?_⟩
  · rw [loads.written, reads.written]
  · rw [loads.tmp, reads.tmp]

theorem Reads.stores {i j : Nat} {x : α} (reads : Reads m m') (stores : Stores i j x m' m'') :
    Stores i j x m m'' := by
  refine ⟨stores.a.trans reads.a, ?_, stores.written.trans reads.written,
    stores.tmp.trans reads.tmp⟩
  rw [stores.b, reads.b]

theorem loaded_nothing (v : Nat → α) (lo : Nat) (m : Mem α) : Loaded v lo lo m := by
  intro k low high
  omega

theorem Loaded.mono {v : Nat → α} {lo hi hi' : Nat} (loaded : Loaded v lo hi m) (le : hi' ≤ hi) :
    Loaded v lo hi' m :=
  fun k low high => loaded k low (Nat.lt_of_lt_of_le high le)

theorem Loaded.load {v : Nat → α} {lo k : Nat} (loaded : Loaded v lo k m)
    (loads : Loads k (v k) m m') : Loaded v lo (k + 1) m' := by
  intro j low high
  rw [loads.written, loads.tmp]
  by_cases same : j = k
  · subst same
    simp
  · rw [Function.update_of_ne same, Function.update_of_ne same]
    exact loaded j low (by omega)

theorem Loaded.store {v : Nat → α} {lo hi i j : Nat} {x : α} (loaded : Loaded v lo hi m)
    (stores : Stores i j x m m') : Loaded v lo hi m' := by
  intro k low high
  rw [stores.written, stores.tmp]
  exact loaded k low high

theorem Loads.writes {k : Nat} {x : α} (loads : Loads k x m m') :
    Writes (fun _ _ => False) f m m' :=
  .nothing loads.a loads.b fun _ _ => id

theorem Stores.writes {i j : Nat} {x : α} (stores : Stores i j x m m') (value : x = f i j) :
    Writes (fun r c => r = i ∧ c = j) f m m' := by
  refine ⟨stores.a, ?_⟩
  rw [stores.b]
  refine (Grid.fills_set m.B i j x).congr (fun _ _ => Iff.rfl) ?_
  rintro r c ⟨rfl, rfl⟩
  exact value.symm

section Statements

variable {M N : Nat} {row col k : Nat} {x : α}

theorem readA_ends (inRows : row < N) (inCols : col < M) :
    ∃ m', m.readA M N row col = some (m.A row col, m') ∧ Reads m m' :=
  ⟨_, if_pos ⟨inRows, inCols⟩, rfl, rfl, rfl, rfl⟩

theorem readB_ends (inRows : row < M) (inCols : col < N) :
    ∃ m', m.readB M N row col = some (m.B row col, m') ∧ Reads m m' :=
  ⟨_, if_pos ⟨inRows, inCols⟩, rfl, rfl, rfl, rfl⟩

theorem writeB_ends (inRows : row < M) (inCols : col < N) (x : α) :
    Ends (m.writeB M N row col x) (Stores row col x m) :=
  ⟨_, if_pos ⟨inRows, inCols⟩, rfl, rfl, rfl, rfl⟩

theorem writeTmp_ends (inTmp : k < 8) (x : α) : Ends (m.writeTmp k x) (Loads k x m) :=
  ⟨_, if_pos inTmp, rfl, rfl, rfl, rfl⟩

theorem readTmp_eq {v : Nat → α} {lo hi : Nat} (loaded : Loaded v lo hi m) (low : lo ≤ k)
    (high : k < hi) (inTmp : k < 8) : m.readTmp k = some (v k) := by
  obtain ⟨written, value⟩ := loaded k low high
  unfold Mem.readTmp
  rw [if_pos ⟨inTmp, written⟩, value]

end Statements

end

end CsappLab.Trans
