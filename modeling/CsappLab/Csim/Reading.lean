/-
# Csim.Reading — the read loop on any file

`After addrs st`: the cache has been called with `addrs` since the start, and the
memory and the counters of `st` are those of that run. A buffer moves from `addrs` to
`addrs` followed by the accesses that are named after it, and `runMain_after` puts the
buffers of a whole file together: whatever the file, the read loop comes to its end
and does the accesses that its buffers name.
-/
import CsappLab.Cache.Counting
import CsappLab.Cache.History
import CsappLab.Csim.Buffers

namespace CsappLab.Csim

set_option autoImplicit false

open CsappLab.Lib CsappLab.Cache

section

variable {pCache : CacheParams} {calloc : Lines → Option Nat} {m₀ : Mem}
  {addrs : List (BitVec 64)} {st : Sim}

/-- The state after the accesses `addrs`. -/
structure After (pCache : CacheParams) (calloc : Lines → Option Nat) (m₀ : Mem)
    (addrs : List (BitVec 64)) (st : Sim) : Prop where
  calls : st.calls = addrs
  ran : cacheRun pCache calloc m₀ addrs = some (runEvents pCache (fun _ => []) addrs, st.mem)
  holds : Holds pCache.paramE.toNat st.mem (addrs.foldl (access pCache) fun _ => [])
  hits : st.hitCnt =
    BitVec.ofNat 32 ((runEvents pCache (fun _ => []) addrs).flatten.count .hit)
  misses : st.missCnt =
    BitVec.ofNat 32 ((runEvents pCache (fun _ => []) addrs).flatten.count .miss)
  evictions : st.evictionCnt =
    BitVec.ofNat 32 ((runEvents pCache (fun _ => []) addrs).flatten.count .eviction)
  out : ∀ o ∈ st.out, o.IsVerbose

theorem After.clearFlags (after : After pCache calloc m₀ addrs st) :
    After pCache calloc m₀ addrs (clearFlags st) :=
  ⟨after.calls, after.ran, after.holds, after.hits, after.misses, after.evictions, after.out⟩

theorem After.showLine (after : After pCache calloc m₀ addrs st) (configShowVerbose : Bool)
    (currLine : List Char) :
    After pCache calloc m₀ addrs (showLine configShowVerbose currLine st) := by
  unfold Csim.showLine
  split
  · refine ⟨after.calls, after.ran, after.holds, after.hits, after.misses, after.evictions, ?_⟩
    intro o member
    rcases List.mem_append.1 member with old | new
    · exact after.out o old
    · rw [List.mem_singleton.1 new]
      trivial
  · exact after

/-! ## The loop body -/

section Body

variable (allocates : Allocates calloc) (positive : 0 < pCache.paramE.toNat)
  (inArray : ∀ addr, (setIdx pCache addr).toNat < pCache.paramS.toNat)

include allocates positive inArray

theorem process_after (after : After pCache calloc m₀ addrs st) :
    ∃ st', process pCache calloc st = some (.next st') ∧
      After pCache calloc m₀ (addrs ++ [st.memOpInfo.addr]) st' ∧
      st'.memOpInfo = st.memOpInfo ∧
      Flagged (runEvents pCache (addrs.foldl (access pCache) fun _ => [])
        [st.memOpInfo.addr]).flatten st st' := by
  generalize same : st.memOpInfo.addr = addr
  obtain ⟨mem, processed, holds⟩ :=
    cacheProcess_spec allocates positive after.holds addr (inArray addr)
  generalize accessed : accessEvents pCache.paramE.toNat _ _ = events at processed
  have called := called_foldl events { st with mem := mem, calls := st.calls ++ [addr] }
  have flagged := flagged_foldl events { st with mem := mem, calls := st.calls ++ [addr] }
  have events_eq : runEvents pCache (fun _ => []) (addrs ++ [addr]) =
      runEvents pCache (fun _ => []) addrs ++ [events] := by
    rw [runEvents_append, ← accessed]
    rfl
  refine ⟨_, ?_, ⟨?_, ?_, ?_, ?_, ?_, ?_, ?_⟩, called.memOpInfo, ?_⟩
  · unfold process
    simp only [same, processed, Option.bind_eq_bind, Option.bind_some]
  · rw [called.calls, ← after.calls]
  · rw [called.mem, events_eq]
    exact cacheRun_concat after.ran processed
  · rw [called.mem, List.foldl_append]
    exact holds
  · rw [called.hits, events_eq, after.hits, ← BitVec.ofNat_add]
    simp
  · rw [called.misses, events_eq, after.misses, ← BitVec.ofNat_add]
    simp
  · rw [called.evictions, events_eq, after.evictions, ← BitVec.ofNat_add]
    simp
  · rw [called.out]
    exact after.out
  · simp only [runEvents, accessed, List.flatten_cons, List.flatten_nil, List.append_nil]
    exact ⟨flagged.miss, flagged.hit, flagged.eviction⟩

/-- The accesses that `memOpInfo` asks for, and the flags after them. -/
theorem simulate_after (after : After pCache calloc m₀ addrs st) :
    ∃ st', simulate pCache calloc st = some (.next st') ∧
      After pCache calloc m₀ (addrs ++ st.memOpInfo.named.accesses) st' ∧
      st'.memOpInfo = st.memOpInfo ∧
      Flagged (runEvents pCache (addrs.foldl (access pCache) fun _ => [])
        st.memOpInfo.named.accesses).flatten st st' := by
  obtain ⟨st₁, ran₁, after₁, info₁, flagged₁⟩ := process_after allocates positive inArray after
  simp only [simulate, Named.accesses, MemOpInfo.named, Option.some.injEq, Option.getD_some]
  by_cases modify : st.memOpInfo.memOpType = 'M'
  · -- the store finds the same address
    obtain ⟨st₂, ran₂, after₂, info₂, flagged₂⟩ :=
      process_after allocates positive inArray after₁
    rw [info₁, List.append_assoc] at after₂
    rw [info₁, List.foldl_append] at flagged₂
    rw [if_pos modify, if_pos modify]
    refine ⟨st₂, ?_, after₂, info₂.trans info₁, ?_⟩
    · show (process pCache calloc st).bind _ = _
      rw [ran₁]
      exact ran₂
    · have both := runEvents_append pCache (addrs.foldl (access pCache) fun _ => [])
        [st.memOpInfo.addr] [st.memOpInfo.addr]
      rw [List.singleton_append] at both
      rw [both, List.flatten_append]
      exact flagged₁.trans flagged₂
  · rw [if_neg modify, if_neg modify]
    by_cases single : st.memOpInfo.memOpType = 'L' ∨ st.memOpInfo.memOpType = 'S'
    · rw [if_pos single, if_pos single]
      exact ⟨st₁, ran₁, after₁, info₁, flagged₁⟩
    · rw [if_neg single, if_neg single, List.append_nil]
      exact ⟨st, rfl, after, rfl, by constructor <;> simp [runEvents]⟩

variable (optarg : OptArg) (configShowVerbose : Bool)

/-- One buffer. -/
theorem processLine_after {buf : List Char} (noNul : NUL ∉ buf)
    (after : After pCache calloc m₀ addrs st) :
    ∃ st', processLine pCache calloc optarg configShowVerbose buf st = some (.next st') ∧
      After pCache calloc m₀ (addrs ++ (st.memOpInfo.named.next buf).accesses) st' ∧
      st'.memOpInfo.named = st.memOpInfo.named.next buf := by
  obtain ⟨memOpInfo, parsed, named⟩ := parseLine_named optarg buf st.memOpInfo
  have after₀ : After pCache calloc m₀ addrs { st with memOpInfo := memOpInfo } :=
    ⟨after.calls, after.ran, after.holds, after.hits, after.misses, after.evictions, after.out⟩
  obtain ⟨st₁, simulated, after₁, info, -⟩ := simulate_after allocates positive inArray after₀
  rw [← named]
  refine ⟨_, ?_,
    (after₁.showLine configShowVerbose (buf.takeWhile (· ≠ '\n'))).clearFlags, ?_⟩
  · unfold processLine
    simp only [cString_eq noNul, parsed, simulated, Option.bind_eq_bind, Option.bind_some]
  · have shown : ∀ currLine, (clearFlags (showLine configShowVerbose currLine st₁)).memOpInfo =
        st₁.memOpInfo := by
      intro currLine
      unfold clearFlags showLine
      split <;> rfl
    rw [shown, info]

/-- One buffer after the other. -/
theorem processBufs_after {bufs : List (List Char)} (noNul : ∀ buf ∈ bufs, NUL ∉ buf)
    (after : After pCache calloc m₀ addrs st) :
    ∃ st', processBufs pCache calloc optarg configShowVerbose bufs st = some (.next st') ∧
      After pCache calloc m₀ (addrs ++ accessesFrom st.memOpInfo.named bufs) st' := by
  induction bufs generalizing addrs st with
  | nil =>
      refine ⟨st, rfl, ?_⟩
      rw [accessesFrom_nil, List.append_nil]
      exact after
  | cons buf bufs ih =>
      obtain ⟨first, others⟩ := List.forall_mem_cons.1 noNul
      obtain ⟨st₁, processed, after₁, named⟩ := processLine_after allocates positive inArray
        optarg configShowVerbose first after
      obtain ⟨st₂, ran, after₂⟩ := ih others after₁
      rw [named, List.append_assoc, ← accessesFrom_cons] at after₂
      refine ⟨st₂, ?_, after₂⟩
      simp only [processBufs, processed, Option.bind_eq_bind, Option.bind_some]
      exact ran

end Body

end

/-! ## The whole file -/

/-- What the program has named before it reads a line. -/
def initNamed : Named := ⟨some NUL, some 0⟩

/-- The state before the read loop. -/
theorem after_init (pCache : CacheParams) (calloc : Lines → Option Nat) :
    After pCache calloc ⟨fun _ => ⟨none, 0⟩, ∅⟩ [] (initSim ⟨fun _ => ⟨none, 0⟩, ∅⟩) :=
  ⟨rfl, rfl, holds_empty _, rfl, rfl, rfl, by rintro o ⟨⟩⟩

/-- **The program on any file** does the accesses that its buffers name. -/
theorem runMain_after {calloc : Lines → Option Nat} {param_s paramE param_b : BitVec 32}
    (allocates : Allocates calloc) (widths : Widths param_s param_b)
    (positive : 1 ≤ paramE.toNat) (optarg : OptArg) (configShowVerbose : Bool)
    {file : List Char} (noNul : NUL ∉ file) :
    ∃ st, runMain true calloc optarg configShowVerbose param_s paramE param_b file =
        some (.ended (printSummary st)) ∧
      After (cacheParams param_s paramE param_b) calloc ⟨fun _ => ⟨none, 0⟩, ∅⟩
        (accessesFrom initNamed (fgetsAll MAX_LINE_LEN file)) st := by
  have positive' : 0 < (cacheParams param_s paramE param_b).paramE.toNat := positive
  have whole := flatten_fgetsAll (by decide : 2 ≤ MAX_LINE_LEN) file
  have noNuls : ∀ buf ∈ fgetsAll MAX_LINE_LEN file, NUL ∉ buf := by
    intro buf member nul
    rw [← whole] at noNul
    exact noNul (List.mem_flatten_of_mem member nul)
  obtain ⟨st, ran, after⟩ := processBufs_after allocates positive'
    (setIdx_inArray paramE widths) optarg configShowVerbose noNuls
    (after_init (cacheParams param_s paramE param_b) calloc)
  refine ⟨st, ?_, after⟩
  rw [runMain_eq, ran]
  rfl

end CsappLab.Csim
