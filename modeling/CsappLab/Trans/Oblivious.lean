/-
# Trans.Oblivious — the accesses of whole runs

Which elements `transpose_submit` reads and writes, and in which order, depends on the
sizes of the matrices and on nothing they hold: `submitLog M N` lists the accesses of
every run on them (`transposeSubmit_logs`). A loop that counts up by `step` runs through
`countsFrom`; where its body breaks, the loop has run through the counts before.
-/
import CsappLab.Trans.Misses
import CsappLab.Trans.Submit
import Mathlib.Data.List.TakeWhile

namespace CsappLab.Trans

set_option autoImplicit false

open CsappLab.Lib

section Logs

variable {α : Type}

/-- Where `c` ends, it has made the accesses of `log`. -/
def Logs (c : Mem α → Option (Mem α)) (log : List Access) : Prop :=
  ∀ m m', c m = some m' → m'.accesses = m.accesses ++ log

/-- An iteration makes the accesses of `log` and goes on, or breaks and makes none. -/
def LogsFlow (body : Mem α → Option (Flow (Mem α))) (goes : Bool) (log : List Access) : Prop :=
  ∀ m flow, body m = some flow →
    if goes then ∃ m', flow = .next m' ∧ m'.accesses = m.accesses ++ log
    else ∃ m', flow = .stop m' ∧ m'.accesses = m.accesses

theorem Logs.flow {c : Mem α → Option (Mem α)} {log : List Access} (logs : Logs c log) :
    LogsFlow (fun m => (c m).map .next) true log := by
  intro m flow ran
  obtain ⟨m', ran', rfl⟩ := Option.map_eq_some_iff.1 ran
  exact ⟨m', rfl, logs m m' ran'⟩

theorem Makes.logs {c : Mem α → Option (Mem α)} {baseRowIdx baseColIdx : Nat}
    {places : List Place} (makes : Makes baseRowIdx baseColIdx c places) :
    Logs c (places.map (inBlock baseRowIdx baseColIdx)) :=
  makes

/-- The counts of `for (i = lo; i < hi; i += step)` in at most `rounds` rounds. -/
def countsFrom (step hi : Nat) : Nat → Nat → List Nat
  | 0, _ => []
  | rounds + 1, i => if i < hi then i :: countsFrom step hi rounds (i + step) else []

/-- The counts of `for (i = 0; i < hi; i += step)`. -/
def counts (step hi : Nat) : List Nat := countsFrom step hi hi 0

/-- A loop makes the accesses of its iterations up to the one that breaks. -/
theorem forInt_logs {hi step : Nat} {body : Nat → Mem α → Option (Flow (Mem α))}
    {goes : Nat → Bool} {log : Nat → List Access}
    (each : ∀ i, i < hi → LogsFlow (body i) (goes i) (log i)) :
    Logs (forInt 0 hi step body) (((counts step hi).takeWhile goes).flatMap log) := by
  have rounds : ∀ rounds i, Logs (forRounds (addInt · step) hi body rounds i)
      (((countsFrom step hi rounds i).takeWhile goes).flatMap log) := by
    intro rounds
    induction rounds with
    | zero =>
        intro i m m' ran
        simp only [forRounds] at ran
        split_ifs at ran
        cases ran
        simp [countsFrom]
    | succ rounds ih =>
        intro i m m' ran
        unfold forRounds at ran
        unfold countsFrom
        by_cases more : i < hi
        · rw [if_pos more] at ran ⊢
          obtain ⟨flow, ranBody, rest⟩ := Option.bind_eq_some_iff.1 ran
          have one := each i more m flow ranBody
          by_cases on : goes i = true
          · rw [if_pos on] at one
            obtain ⟨m₁, rfl, made⟩ := one
            obtain ⟨j, counted, ranRest⟩ := Option.bind_eq_some_iff.1 rest
            rw [addInt_eq_some counted] at ranRest
            rw [List.takeWhile_cons_of_pos on, List.flatMap_cons, ih _ _ _ ranRest, made,
              List.append_assoc]
          · rw [if_neg on] at one
            obtain ⟨m₁, rfl, made⟩ := one
            cases rest
            rw [List.takeWhile_cons_of_neg on, made]
            simp
        · rw [if_neg more] at ran ⊢
          cases ran
          simp
  exact rounds (hi - 0) 0

/-- A loop without a break. -/
theorem forInt_always_logs {hi step : Nat} {body : Nat → Mem α → Option (Mem α)}
    {log : Nat → List Access} (each : ∀ i, i < hi → Logs (body i) (log i)) :
    Logs (forInt 0 hi step (always body)) ((counts step hi).flatMap log) := by
  have all : Logs (forInt 0 hi step (always body))
      (((counts step hi).takeWhile fun _ => true).flatMap log) :=
    forInt_logs fun i less => (each i less).flow
  rwa [List.takeWhile_eq_self_iff.2 fun _ _ => rfl] at all

/-! ## `my_trans` -/

variable {M N : Nat}

/-- The columns of a block that the matrix has, or the rows. -/
def reach (size base : Nat) : List Nat :=
  (counts 1 8).takeWhile fun i => base + i < size

def rowLog (M baseRowIdx baseColIdx i : Nat) : List Access :=
  (reach M baseColIdx).flatMap (fun j => [⟨.A, baseRowIdx + i, baseColIdx + j⟩]) ++
    (reach M baseColIdx).flatMap fun j => [⟨.B, baseColIdx + j, baseRowIdx + i⟩]

def blockLog (M N baseRowIdx baseColIdx : Nat) : List Access :=
  (reach N baseRowIdx).flatMap (rowLog M baseRowIdx baseColIdx)

def myTransLog (M N : Nat) : List Access :=
  (counts 8 N).flatMap fun baseRowIdx =>
    (counts 8 M).flatMap fun baseColIdx => blockLog M N baseRowIdx baseColIdx

theorem loadRow_logs (baseRowIdx baseColIdx i j : Nat) :
    LogsFlow (α := α) (loadRow M N baseRowIdx baseColIdx i j) (baseColIdx + j < M)
      [⟨.A, baseRowIdx + i, baseColIdx + j⟩] := by
  intro m flow ran
  simp only [loadRow, Option.bind_eq_bind, Option.bind_eq_some_iff] at ran
  obtain ⟨col, colEq, ran⟩ := ran
  obtain rfl := addInt_eq_some colEq
  by_cases inside : baseColIdx + j < M
  · rw [if_pos inside] at ran
    obtain ⟨row, rowEq, ⟨x, m'⟩, read, m'', wrote, rfl⟩ := by
      simpa only [Option.bind_eq_some_iff, Option.some.injEq] using ran
    rw [if_pos (by simpa using inside)]
    refine ⟨m'', rfl, ?_⟩
    rw [writeTmp_accesses wrote, readA_accesses read, addInt_eq_some rowEq]
  · rw [if_neg inside] at ran
    cases ran
    rw [if_neg (by simpa using inside)]
    exact ⟨m, rfl, rfl⟩

theorem storeColumn_logs (baseRowIdx baseColIdx i j : Nat) :
    LogsFlow (α := α) (storeColumn M N baseRowIdx baseColIdx i j) (baseColIdx + j < M)
      [⟨.B, baseColIdx + j, baseRowIdx + i⟩] := by
  intro m flow ran
  simp only [storeColumn, Option.bind_eq_bind, Option.bind_eq_some_iff] at ran
  obtain ⟨row, rowEq, ran⟩ := ran
  obtain rfl := addInt_eq_some rowEq
  by_cases inside : baseColIdx + j < M
  · rw [if_pos inside] at ran
    obtain ⟨col, colEq, x, -, m', wrote, rfl⟩ := by
      simpa only [Option.bind_eq_some_iff, Option.some.injEq] using ran
    rw [if_pos (by simpa using inside)]
    refine ⟨m', rfl, ?_⟩
    rw [writeB_accesses wrote, addInt_eq_some colEq]
  · rw [if_neg inside] at ran
    cases ran
    rw [if_neg (by simpa using inside)]
    exact ⟨m, rfl, rfl⟩

theorem rowPass_logs (baseRowIdx baseColIdx i : Nat) :
    LogsFlow (α := α) (rowPass M N baseRowIdx baseColIdx i) (baseRowIdx + i < N)
      (rowLog M baseRowIdx baseColIdx i) := by
  intro m flow ran
  simp only [rowPass, Option.bind_eq_bind, Option.bind_eq_some_iff] at ran
  obtain ⟨row, rowEq, ran⟩ := ran
  obtain rfl := addInt_eq_some rowEq
  by_cases inside : baseRowIdx + i < N
  · rw [if_pos inside] at ran
    obtain ⟨m₁, loaded, m₂, stored, rfl⟩ := by
      simpa only [Option.bind_eq_some_iff, Option.some.injEq] using ran
    rw [if_pos (by simpa using inside)]
    refine ⟨m₂, rfl, ?_⟩
    have loads := forInt_logs (fun j _ => loadRow_logs baseRowIdx baseColIdx i j) _ _ loaded
    have stores := forInt_logs (fun j _ => storeColumn_logs baseRowIdx baseColIdx i j) _ _ stored
    rw [stores, loads, List.append_assoc]
    rfl
  · rw [if_neg inside] at ran
    cases ran
    rw [if_neg (by simpa using inside)]
    exact ⟨m, rfl, rfl⟩

theorem transBlock_logs (baseRowIdx baseColIdx : Nat) :
    Logs (α := α) (transBlock M N baseRowIdx baseColIdx) (blockLog M N baseRowIdx baseColIdx) :=
  forInt_logs fun i _ => rowPass_logs baseRowIdx baseColIdx i

theorem myTrans_logs : Logs (α := α) (myTrans M N) (myTransLog M N) :=
  forInt_always_logs fun baseRowIdx _ =>
    forInt_always_logs fun baseColIdx _ => transBlock_logs baseRowIdx baseColIdx

/-! ## `my_trans64x64` -/

def myTrans64x64Log (M N : Nat) : List Access :=
  (counts 8 N).flatMap fun baseRowIdx =>
    (counts 8 M).flatMap fun baseColIdx => blockPlaces.map (inBlock baseRowIdx baseColIdx)

theorem myTrans64x64_logs : Logs (α := α) (myTrans64x64 M N) (myTrans64x64Log M N) :=
  forInt_always_logs fun _ _ => forInt_always_logs fun _ _ => trans64Block_makes.logs

/-- The accesses of `transpose_submit`. -/
def submitLog (M N : Nat) : List Access :=
  if M = 64 ∧ N = 64 then myTrans64x64Log M N else myTransLog M N

theorem transposeSubmit_logs : Logs (α := α) (transposeSubmit M N) (submitLog M N) := by
  intro m m' ran
  unfold transposeSubmit at ran
  unfold submitLog
  by_cases square : M = 64 ∧ N = 64
  · rw [if_pos square] at ran ⊢
    exact myTrans64x64_logs m m' ran
  · rw [if_neg square] at ran ⊢
    exact myTrans_logs m m' ran

end Logs

/-! ## Each element once -/

section Once

theorem mem_countsFrom {step hi : Nat} (up : 0 < step) (rounds i x : Nat)
    (enough : hi ≤ i + rounds) :
    x ∈ countsFrom step hi rounds i ↔ i ≤ x ∧ x < hi ∧ step ∣ x - i := by
  induction rounds generalizing i with
  | zero =>
      simp only [countsFrom, List.not_mem_nil, false_iff]
      omega
  | succ rounds ih =>
      unfold countsFrom
      by_cases more : i < hi
      · rw [if_pos more, List.mem_cons, ih (i + step) (by omega)]
        constructor
        · rintro (rfl | ⟨low, high, k, eq⟩)
          · exact ⟨Nat.le_refl x, more, by simp⟩
          · exact ⟨by omega, high, k + 1, by rw [Nat.mul_succ]; omega⟩
        · rintro ⟨low, high, k, eq⟩
          cases k with
          | zero => exact .inl (by omega)
          | succ k =>
              rw [Nat.mul_succ] at eq
              exact .inr ⟨by omega, high, k, by omega⟩
      · rw [if_neg more]
        simp only [List.not_mem_nil, false_iff]
        omega

theorem mem_counts {step hi x : Nat} (up : 0 < step) :
    x ∈ counts step hi ↔ x < hi ∧ step ∣ x := by
  unfold counts
  rw [mem_countsFrom up hi 0 x (by omega)]
  simp

theorem countsFrom_nodup {step : Nat} (up : 0 < step) (hi rounds i : Nat) :
    (countsFrom step hi rounds i).Nodup ∧ ∀ x ∈ countsFrom step hi rounds i, i ≤ x := by
  induction rounds generalizing i with
  | zero => exact ⟨List.nodup_nil, by simp [countsFrom]⟩
  | succ rounds ih =>
      unfold countsFrom
      split
      · obtain ⟨nodup, low⟩ := ih (i + step)
        refine ⟨List.nodup_cons.2 ⟨fun member => ?_, nodup⟩, ?_⟩
        · have later := low i member
          omega
        · intro x member
          rcases List.mem_cons.1 member with rfl | member
          · exact Nat.le_refl x
          · have later := low x member
            omega
      · exact ⟨List.nodup_nil, by simp⟩

theorem counts_nodup {step : Nat} (up : 0 < step) (hi : Nat) : (counts step hi).Nodup :=
  (countsFrom_nodup up hi hi 0).1

theorem mem_reach {size base i : Nat} : i ∈ reach size base ↔ i < 8 ∧ base + i < size := by
  have upTo : ∀ rounds i x, x ∈ (countsFrom 1 8 rounds i).takeWhile (fun i => base + i < size) ↔
      x ∈ countsFrom 1 8 rounds i ∧ base + x < size := by
    intro rounds
    induction rounds with
    | zero => simp [countsFrom]
    | succ rounds ih =>
        intro i x
        unfold countsFrom
        split
        · by_cases inside : base + i < size
          · rw [List.takeWhile_cons_of_pos (by simpa using inside), List.mem_cons,
              List.mem_cons, ih]
            constructor
            · rintro (rfl | ⟨member, inside'⟩)
              · exact ⟨.inl rfl, inside⟩
              · exact ⟨.inr member, inside'⟩
            · rintro ⟨rfl | member, inside'⟩
              · exact .inl rfl
              · exact .inr ⟨member, inside'⟩
          · rw [List.takeWhile_cons_of_neg (by simpa using inside)]
            simp only [List.not_mem_nil, false_iff, not_and]
            intro member
            rcases List.mem_cons.1 member with rfl | member
            · exact inside
            · have later := (countsFrom_nodup Nat.one_pos 8 rounds (i + 1)).2 x member
              omega
        · simp
  unfold reach counts
  rw [upTo, mem_countsFrom Nat.one_pos 8 0 i (by omega)]
  simp

theorem reach_nodup (size base : Nat) : (reach size base).Nodup :=
  (counts_nodup Nat.one_pos 8).sublist (List.takeWhile_sublist _)

/-- Where the element of `A` is that an access reads, or whose copy it writes. -/
def source : Access → Nat × Nat
  | ⟨.A, row, col⟩ => (row, col)
  | ⟨.B, row, col⟩ => (col, row)

theorem mem_rowLog {baseRowIdx baseColIdx i M : Nat} {access : Access} :
    access ∈ rowLog M baseRowIdx baseColIdx i ↔
      (source access).1 = baseRowIdx + i ∧ baseColIdx ≤ (source access).2 ∧
        (source access).2 < baseColIdx + 8 ∧ (source access).2 < M := by
  obtain ⟨matrix, row, col⟩ := access
  cases matrix with
  | A =>
      simp only [rowLog, List.mem_append, List.mem_flatMap, List.mem_singleton, mem_reach, source,
        Access.mk.injEq, reduceCtorEq, true_and, false_and, and_false, exists_false, or_false]
      constructor
      · rintro ⟨j, ⟨j8, inside⟩, rfl, rfl⟩
        exact ⟨rfl, by omega, by omega, inside⟩
      · rintro ⟨rfl, low, high, inside⟩
        exact ⟨col - baseColIdx, ⟨by omega, by omega⟩, rfl, by omega⟩
  | B =>
      simp only [rowLog, List.mem_append, List.mem_flatMap, List.mem_singleton, mem_reach, source,
        Access.mk.injEq, reduceCtorEq, true_and, false_and, and_false, exists_false, false_or]
      constructor
      · rintro ⟨j, ⟨j8, inside⟩, rfl, rfl⟩
        exact ⟨rfl, by omega, by omega, inside⟩
      · rintro ⟨rfl, low, high, inside⟩
        exact ⟨row - baseColIdx, ⟨by omega, by omega⟩, by omega, rfl⟩

theorem mem_blockLog {baseRowIdx baseColIdx M N : Nat} {access : Access} :
    access ∈ blockLog M N baseRowIdx baseColIdx ↔
      (baseRowIdx ≤ (source access).1 ∧ (source access).1 < baseRowIdx + 8 ∧
        (source access).1 < N) ∧
      baseColIdx ≤ (source access).2 ∧ (source access).2 < baseColIdx + 8 ∧
        (source access).2 < M := by
  simp only [blockLog, List.mem_flatMap, mem_reach, mem_rowLog]
  constructor
  · rintro ⟨i, ⟨i8, inside⟩, row, cols⟩
    exact ⟨by omega, cols⟩
  · rintro ⟨⟨low, high, inside⟩, cols⟩
    exact ⟨(source access).1 - baseRowIdx, by omega, by omega, cols⟩

/-- A block of 8 counts begins at each multiple of 8. -/
theorem exists_base {size x : Nat} (inside : x < size) :
    ∃ base ∈ counts 8 size, base ≤ x ∧ x < base + 8 :=
  ⟨8 * (x / 8), (mem_counts (by decide)).2 ⟨by omega, Nat.dvd_mul_right 8 _⟩, by omega, by omega⟩

theorem base_counts {size base x : Nat} (member : base ∈ counts 8 size) (low : base ≤ x)
    (high : x < base + 8) : 8 * (x / 8) = base := by
  obtain ⟨k, rfl⟩ := ((mem_counts (by decide)).1 member).2
  omega

theorem mem_myTransLog {M N : Nat} {access : Access} :
    access ∈ myTransLog M N ↔ (source access).1 < N ∧ (source access).2 < M := by
  simp only [myTransLog, List.mem_flatMap, mem_blockLog]
  constructor
  · rintro ⟨baseRowIdx, -, baseColIdx, -, rows, cols⟩
    exact ⟨rows.2.2, cols.2.2⟩
  · rintro ⟨inRows, inCols⟩
    obtain ⟨baseRowIdx, member, low, high⟩ := exists_base inRows
    obtain ⟨baseColIdx, member', low', high'⟩ := exists_base inCols
    exact ⟨baseRowIdx, member, baseColIdx, member', ⟨low, high, inRows⟩, low', high', inCols⟩

/-- Lists one after the other have nothing twice where each has nothing twice and its
elements tell which one it is. -/
theorem nodup_flatMap_of_key {ι β : Type} {list : List ι} {f : ι → List β} (key : β → ι)
    (nodup : list.Nodup) (each : ∀ i ∈ list, (f i).Nodup)
    (keyed : ∀ i ∈ list, ∀ b ∈ f i, key b = i) : (list.flatMap f).Nodup := by
  refine List.nodup_flatMap.2 ⟨each, ?_⟩
  refine nodup.pairwise_of_forall_ne ?_
  intro i member j member' ne b here there
  exact ne ((keyed i member b here).symm.trans (keyed j member' b there))

theorem rowLog_nodup (M baseRowIdx baseColIdx i : Nat) :
    (rowLog M baseRowIdx baseColIdx i).Nodup := by
  unfold rowLog
  refine List.nodup_append.2 ⟨?_, ?_, ?_⟩
  · refine nodup_flatMap_of_key (fun access => access.col - baseColIdx) (reach_nodup M baseColIdx)
      (fun _ _ => List.nodup_singleton _) ?_
    rintro j - access member
    obtain rfl := List.mem_singleton.1 member
    exact Nat.add_sub_cancel_left _ _
  · refine nodup_flatMap_of_key (fun access => access.row - baseColIdx) (reach_nodup M baseColIdx)
      (fun _ _ => List.nodup_singleton _) ?_
    rintro j - access member
    obtain rfl := List.mem_singleton.1 member
    exact Nat.add_sub_cancel_left _ _
  · intro a here b there
    obtain ⟨j, -, member⟩ := List.mem_flatMap.1 here
    obtain ⟨j', -, member'⟩ := List.mem_flatMap.1 there
    rw [List.mem_singleton.1 member, List.mem_singleton.1 member']
    simp

theorem myTransLog_nodup (M N : Nat) : (myTransLog M N).Nodup := by
  refine nodup_flatMap_of_key (fun access => 8 * ((source access).1 / 8))
    (counts_nodup (by decide) N) ?_ ?_
  · intro baseRowIdx _
    refine nodup_flatMap_of_key (fun access => 8 * ((source access).2 / 8))
      (counts_nodup (by decide) M) ?_ ?_
    · intro baseColIdx _
      refine nodup_flatMap_of_key (fun access => (source access).1 - baseRowIdx)
        (reach_nodup N baseRowIdx) (fun i _ => rowLog_nodup M baseRowIdx baseColIdx i) ?_
      intro i _ access member
      rw [(mem_rowLog.1 member).1]
      exact Nat.add_sub_cancel_left _ _
    · intro baseColIdx member access inBlock
      obtain ⟨-, low, high, -⟩ := mem_blockLog.1 inBlock
      exact base_counts member low high
  · intro baseRowIdx member access inBand
    obtain ⟨baseColIdx, -, inBlock⟩ := List.mem_flatMap.1 inBand
    obtain ⟨⟨low, high, -⟩, -⟩ := mem_blockLog.1 inBlock
    exact base_counts member low high

/-- The places of a block are those of its sixteen row segments. -/
theorem mem_blockPlaces : ∀ matrix : Matrix, ∀ r < 8, ∀ k < 8, (matrix, r, k) ∈ blockPlaces := by
  rintro (_ | _) <;> decide +kernel

theorem mem_block64 {baseRowIdx baseColIdx : Nat} {access : Access} :
    access ∈ blockPlaces.map (inBlock baseRowIdx baseColIdx) ↔
      (baseRowIdx ≤ (source access).1 ∧ (source access).1 < baseRowIdx + 8) ∧
      baseColIdx ≤ (source access).2 ∧ (source access).2 < baseColIdx + 8 := by
  rw [List.mem_map]
  constructor
  · rintro ⟨⟨matrix, r, k⟩, member, rfl⟩
    obtain ⟨r8, k8⟩ : r < 8 ∧ k < 8 := blockPlaces_inside _ member
    cases matrix <;> simp only [inBlock, source] <;> omega
  · obtain ⟨matrix, row, col⟩ := access
    rintro ⟨⟨low, high⟩, low', high'⟩
    cases matrix with
    | A =>
        simp only [source] at low high low' high'
        refine ⟨(.A, row - baseRowIdx, col - baseColIdx),
          mem_blockPlaces .A _ (by omega) _ (by omega), ?_⟩
        simp only [inBlock, Access.mk.injEq, true_and]
        omega
    | B =>
        simp only [source] at low high low' high'
        refine ⟨(.B, row - baseColIdx, col - baseRowIdx),
          mem_blockPlaces .B _ (by omega) _ (by omega), ?_⟩
        simp only [inBlock, Access.mk.injEq, true_and]
        omega

theorem mem_myTrans64x64Log {M N : Nat} (cols : 8 ∣ M) (rows : 8 ∣ N) {access : Access} :
    access ∈ myTrans64x64Log M N ↔ (source access).1 < N ∧ (source access).2 < M := by
  have within : ∀ {size base x : Nat}, 8 ∣ size → base ∈ counts 8 size → x < base + 8 →
      x < size := by
    rintro size base x ⟨k, rfl⟩ member high
    obtain ⟨less, j, rfl⟩ := (mem_counts (by decide)).1 member
    omega
  simp only [myTrans64x64Log, List.mem_flatMap, mem_block64]
  constructor
  · rintro ⟨baseRowIdx, member, baseColIdx, member', ⟨-, high⟩, -, high'⟩
    exact ⟨within rows member high, within cols member' high'⟩
  · rintro ⟨inRows, inCols⟩
    obtain ⟨baseRowIdx, member, low, high⟩ := exists_base inRows
    obtain ⟨baseColIdx, member', low', high'⟩ := exists_base inCols
    exact ⟨baseRowIdx, member, baseColIdx, member', ⟨low, high⟩, low', high'⟩

/-- The reads of `A`. -/
def readsA (log : List Access) : List Access := log.filter (·.matrix = .A)

theorem readsA_blockPlaces_nodup :
    (blockPlaces.filter fun place => place.1 = .A).Nodup := by
  decide +kernel

theorem readsA_block64_nodup (baseRowIdx baseColIdx : Nat) :
    (readsA (blockPlaces.map (inBlock baseRowIdx baseColIdx))).Nodup := by
  have same : readsA (blockPlaces.map (inBlock baseRowIdx baseColIdx)) =
      (blockPlaces.filter fun place => place.1 = .A).map (inBlock baseRowIdx baseColIdx) := by
    have kept : ((fun access : Access => decide (access.matrix = .A)) ∘
        inBlock baseRowIdx baseColIdx) = fun place => decide (place.1 = .A) := by
      funext place
      obtain ⟨matrix, r, k⟩ := place
      cases matrix <;> rfl
    rw [readsA, List.filter_map, kept]
  rw [same]
  refine readsA_blockPlaces_nodup.map ?_
  rintro ⟨matrix, r, k⟩ ⟨matrix', r', k'⟩ eq
  cases matrix <;> cases matrix' <;>
    simp only [inBlock, Access.mk.injEq, true_and, reduceCtorEq, false_and] at eq <;>
    simp only [Prod.mk.injEq, true_and] <;> omega

theorem readsA_myTrans64x64Log_nodup (M N : Nat) : (readsA (myTrans64x64Log M N)).Nodup := by
  unfold readsA myTrans64x64Log
  rw [List.filter_flatMap]
  refine nodup_flatMap_of_key (fun access => 8 * ((source access).1 / 8))
    (counts_nodup (by decide) N) ?_ ?_
  · intro baseRowIdx _
    rw [List.filter_flatMap]
    refine nodup_flatMap_of_key (fun access => 8 * ((source access).2 / 8))
      (counts_nodup (by decide) M) (fun baseColIdx _ => readsA_block64_nodup _ _) ?_
    intro baseColIdx member access here
    obtain ⟨-, low, high⟩ := mem_block64.1 (List.mem_of_mem_filter here)
    exact base_counts member low high
  · intro baseRowIdx member access here
    obtain ⟨baseColIdx, -, there⟩ := List.mem_flatMap.1 (List.mem_of_mem_filter here)
    obtain ⟨⟨low, high⟩, -⟩ := mem_block64.1 there
    exact base_counts member low high

/-- An element of a matrix of the given sizes. -/
def Inside (M N : Nat) (access : Access) : Prop :=
  (source access).1 < N ∧ (source access).2 < M

theorem mem_submitLog {M N : Nat} {access : Access} :
    access ∈ submitLog M N ↔ Inside M N access := by
  unfold submitLog Inside
  split
  next square =>
    obtain ⟨rfl, rfl⟩ := square
    exact mem_myTrans64x64Log (by decide) (by decide)
  next => exact mem_myTransLog

theorem readsA_submitLog_nodup (M N : Nat) : (readsA (submitLog M N)).Nodup := by
  unfold submitLog
  split
  next => exact readsA_myTrans64x64Log_nodup M N
  next => exact (myTransLog_nodup M N).filter _

/-- **The accesses of `transpose_submit` depend on the sizes only.** The run on any matrices
makes those of `submitLog M N`, in this order. Every element of both matrices is among them,
none of `A` is read twice, and none of `B` is touched twice but in the 64 x 64 case. -/
theorem transposeSubmit_oblivious (M N : Nat) (cols : M ≤ INT_MAX - 8) (rows : N ≤ INT_MAX - 8) :
    (∀ {α : Type} (m : Mem α), ∃ m', transposeSubmit M N m = some m' ∧
      m'.accesses = m.accesses ++ submitLog M N) ∧
    (∀ access, access ∈ submitLog M N ↔ Inside M N access) ∧
    (readsA (submitLog M N)).Nodup ∧
    (¬ (M = 64 ∧ N = 64) → (submitLog M N).Nodup) := by
  refine ⟨?_, fun _ => mem_submitLog, readsA_submitLog_nodup M N, ?_⟩
  · intro α m
    obtain ⟨m', ran, -⟩ := transposeSubmit_ends ⟨cols, rows⟩ m
    exact ⟨m', ran, transposeSubmit_logs m m' ran⟩
  · intro other
    rw [submitLog, if_neg other]
    exact myTransLog_nodup M N

/-- Sizes with ragged blocks. -/
theorem transposeSubmit_oblivious_ragged :
    (∀ {α : Type} (m : Mem α), ∃ m', transposeSubmit 61 67 m = some m' ∧
      m'.accesses = m.accesses ++ submitLog 61 67) ∧
    (∀ access, access ∈ submitLog 61 67 ↔ Inside 61 67 access) ∧
    (readsA (submitLog 61 67)).Nodup ∧
    (¬ (61 = 64 ∧ 67 = 64) → (submitLog 61 67).Nodup) :=
  transposeSubmit_oblivious 61 67 (by decide) (by decide)

end Once

end CsappLab.Trans
