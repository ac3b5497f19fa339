/-
# Csim.Verbose — the labels of the verbose mode

Two accounts of a run are kept: the counters, one step for each call of a callback, and
three flags, which the callbacks set and the end of a line clears. The verbose mode
prints from the flags, so that a line's labels are its events as a set
(`processBufs_shows`). They are its events in order unless an event comes twice, and the
only event that can is the hit of a modify whose load hits as well as its store
(`labels_eq_iff`). `labelled_iff` says what this means for the labels of a whole trace and
for the summary at its end.
-/
import CsappLab.Csim.Summary

namespace CsappLab.Csim

set_option autoImplicit false

open CsappLab.Lib CsappLab.Cache

/-! ## The labels of a trace -/

namespace Out

/-- The line that is shown. -/
def currLine : Out → List Char
  | .verbose currLine _ _ _ => currLine
  | _ => []

/-- The labels after it, in order. -/
def labels : Out → List Event
  | .verbose _ missMsg evictionMsg hitMsg =>
      (if missMsg = "miss " then [.miss] else []) ++
        (if evictionMsg = "eviction " then [.eviction] else []) ++
          (if hitMsg = "hit " then [.hit] else [])
  | _ => []

end Out

/-- The calls of the data lines, from the calls of the accesses. -/
def lineCalls : List TraceLine → List (List Event) → List (List Char × List Event)
  | [], _ => []
  | l :: ls, events =>
      let rest := lineCalls ls (events.drop l.accesses.length)
      if l.op = .I then rest
      else (l.text, (events.take l.accesses.length).flatten) :: rest

section

variable (calloc : Lines → Option Nat) (optarg : OptArg) (param_s paramE param_b : BitVec 32)

/-- What is printed for a file in verbose mode. -/
def printed (file : List Char) : Option (List Out) :=
  match runMain true calloc optarg true param_s paramE param_b file with
  | some (.ended st) => some st.out
  | _ => none

/-- In verbose mode each data line is shown with the calls of its accesses, in order, and
the summary counts the labels that have been shown. -/
def Labelled (lines : List TraceLine) (lastNewline : Bool) : Prop :=
  ∃ pCache m₀ shown events mem,
    cacheInitialize true param_s paramE param_b = (pCache, some m₀) ∧
    cacheRun pCache calloc m₀ (lines.flatMap TraceLine.accesses) = some (events, mem) ∧
    shown.map (fun o => (o.currLine, o.labels)) = lineCalls lines events ∧
    printed calloc optarg param_s paramE param_b (render lines lastNewline) =
      some (shown ++ [.summary ((shown.flatMap Out.labels).count .hit)
        ((shown.flatMap Out.labels).count .miss) ((shown.flatMap Out.labels).count .eviction)])

end

/-- No modify finds its line in the cache: its tag is not one of the `E` used last in its
set. -/
def ModifiesMiss (pCache : CacheParams) (lines : List TraceLine) : Prop :=
  ∀ before l after, lines = before ++ l :: after → l.op = .M →
    ¬ UsedRecently pCache.paramE.toNat
      (history pCache (before.flatMap TraceLine.accesses) (setIdx pCache l.address).toNat)
      (tagOf pCache l.address)

/-- The calls of all accesses of a trace. -/
def traceCalls (pCache : CacheParams) (lines : List TraceLine) : List Event :=
  (runEvents pCache (fun _ => []) (lines.flatMap TraceLine.accesses)).flatten

/-! ## What is shown -/

/-- The flags are clear, as they are at the beginning of each line. -/
structure Cleared (st : Sim) : Prop where
  miss : st.missFlag = false
  hit : st.hitFlag = false
  eviction : st.evictionFlag = false

/-- What a data line shows if its accesses have called `called`. -/
def shownFor (l : TraceLine) (called : List Event) : List Out :=
  if l.op = .I then []
  else
    [.verbose l.text (if .miss ∈ called then "miss " else "")
      (if .eviction ∈ called then "eviction " else "") (if .hit ∈ called then "hit " else "")]

/-- What the lines show, from the tags of all sets before them. -/
def shownLines (pCache : CacheParams) :
    (Nat → List (BitVec 64)) → List TraceLine → List Out
  | _, [] => []
  | all, l :: ls =>
      shownFor l (runEvents pCache all l.accesses).flatten ++
        shownLines pCache (l.accesses.foldl (access pCache) all) ls

/-! ## The loop -/

section

variable {pCache : CacheParams} {calloc : Lines → Option Nat} {m₀ : Mem}
  {addrs : List (BitVec 64)} {st : Sim}

section Body

variable (allocates : Allocates calloc) (positive : 0 < pCache.paramE.toNat)
  (inArray : ∀ addr, (setIdx pCache addr).toNat < pCache.paramS.toNat)

include allocates positive inArray

/-- A line of a trace: its accesses, and what is shown for it. -/
theorem processLine_shows (optarg : OptArg) (after : After pCache calloc m₀ addrs st)
    (cleared : Cleared st) (l : TraceLine) {tail : List Char} (ends : tail = [] ∨ tail = ['\n']) :
    ∃ st', processLine pCache calloc optarg true (l.text ++ tail) st = some (.next st') ∧
      After pCache calloc m₀ (addrs ++ l.accesses) st' ∧ Cleared st' ∧
      st'.out = st.out ++ shownFor l
        (runEvents pCache (addrs.foldl (access pCache) fun _ => []) l.accesses).flatten := by
  have currLine : (l.text ++ tail).takeWhile (· ≠ '\n') = l.text := by
    have text : '\n' ∉ l.text := mem_text_ne (.inl rfl)
    rcases ends with rfl | rfl
    · rw [List.append_nil]
      exact List.takeWhile_eq_self_iff.2 (ne_of_clean text)
    · exact takeWhile_until [] text
  obtain ⟨memOpInfo, parsed, named⟩ := parseLine_named optarg (l.text ++ tail) st.memOpInfo
  rw [next_line l ends] at named
  have op : memOpInfo.memOpType = l.op.char := Option.some.inj (congrArg Named.op named)
  have accesses : memOpInfo.named.accesses = l.accesses := by
    rw [named, named_accesses]
  have after₀ : After pCache calloc m₀ addrs { st with memOpInfo := memOpInfo } :=
    ⟨after.calls, after.ran, after.holds, after.hits, after.misses, after.evictions, after.out⟩
  obtain ⟨st₁, simulated, after₁, info, flagged⟩ :=
    simulate_after allocates positive inArray after₀
  have out₁ := (simulate_out simulated).2 st₁ rfl
  simp only [accesses] at after₁ flagged
  refine ⟨clearFlags (showLine true l.text st₁), ?_, (after₁.showLine true l.text).clearFlags,
    ⟨rfl, rfl, rfl⟩, ?_⟩
  · unfold processLine
    simp only [cString_eq (noNul_line l ends), parsed, simulated, currLine, Option.bind_eq_bind,
      Option.bind_some]
  · have miss := flagged.miss
    have hit := flagged.hit
    have eviction := flagged.eviction
    simp only [cleared.miss, cleared.hit, cleared.eviction, Bool.false_or] at miss hit eviction
    have isI : st₁.memOpInfo.memOpType = 'I' ↔ l.op = .I := by
      rw [info, op]
      cases l.op <;> simp [Op.char]
    simp only [clearFlags, showLine, shownFor, isI, true_and, ne_eq]
    have same : st₁.out = st.out := out₁
    by_cases instruction : l.op = .I
    · simp [instruction, same]
    · simp [instruction, same, miss, hit, eviction]

/-- The lines of a trace, one after the other. -/
theorem processBufs_shows (optarg : OptArg) (lines : List TraceLine) (lastNewline : Bool)
    (after : After pCache calloc m₀ addrs st) (cleared : Cleared st) :
    ∃ st', processBufs pCache calloc optarg true
        (fgetsAll MAX_LINE_LEN (render lines lastNewline)) st = some (.next st') ∧
      After pCache calloc m₀ (addrs ++ lines.flatMap TraceLine.accesses) st' ∧
      st'.out = st.out ++ shownLines pCache (addrs.foldl (access pCache) fun _ => []) lines := by
  induction lines generalizing addrs st with
  | nil => exact ⟨st, rfl, by simpa using after, by simp [shownLines]⟩
  | cons l ls ih =>
      obtain ⟨tail, ends, bufs⟩ := fgetsAll_render_cons l ls lastNewline
      obtain ⟨st₁, processed, after₁, cleared₁, out₁⟩ :=
        processLine_shows allocates positive inArray optarg after cleared l ends
      obtain ⟨st₂, ran, after₂, out₂⟩ := ih after₁ cleared₁
      refine ⟨st₂, ?_, ?_, ?_⟩
      · rw [bufs]
        simp only [processBufs, processed, Option.bind_eq_bind, Option.bind_some]
        exact ran
      · rw [List.flatMap_cons, ← List.append_assoc]
        exact after₂
      · rw [out₂, out₁, List.foldl_append, List.append_assoc]
        rfl

end Body

end

/-! ## Labels and calls -/

section

variable {pCache : CacheParams} (all : Nat → List (BitVec 64))

/-- The store of a modify hits. -/
theorem accessEvents_again (positive : 0 < pCache.paramE.toNat) (addr : BitVec 64) :
    accessEvents pCache.paramE.toNat
      (access pCache all addr (setIdx pCache addr).toNat) (tagOf pCache addr) = [.hit] := by
  unfold accessEvents access
  rw [Function.update_self, if_pos (mem_touch positive _ _)]

/-- What is shown are the calls as a set. -/
def labelsOf (called : List Event) : List Event :=
  (if .miss ∈ called then [.miss] else []) ++ (if .eviction ∈ called then [.eviction] else []) ++
    (if .hit ∈ called then [.hit] else [])

theorem map_shownFor {l : TraceLine} (data : l.op ≠ .I) (called : List Event) :
    (shownFor l called).map (fun o => (o.currLine, o.labels)) = [(l.text, labelsOf called)] := by
  by_cases miss : Event.miss ∈ called <;> by_cases eviction : Event.eviction ∈ called <;>
    by_cases hit : Event.hit ∈ called <;>
      simp [shownFor, data, labelsOf, Out.currLine, Out.labels, miss, eviction, hit]

/-- The labels of an access are its calls. -/
theorem labelsOf_accessEvents (E : Nat) (tags : List (BitVec 64)) (tag : BitVec 64) :
    labelsOf (accessEvents E tags tag) = accessEvents E tags tag := by
  unfold accessEvents
  by_cases used : tag ∈ tags
  · simp [used, labelsOf]
  · by_cases room : tags.length < E <;> simp [used, room, labelsOf]

/-- With a hit after it, they are if the access has missed. -/
theorem labelsOf_accessEvents_hit (E : Nat) (tags : List (BitVec 64)) (tag : BitVec 64) :
    labelsOf (accessEvents E tags tag ++ [.hit]) = accessEvents E tags tag ++ [.hit] ↔
      tag ∉ tags := by
  unfold accessEvents
  by_cases used : tag ∈ tags
  · simp [used, labelsOf]
  · by_cases room : tags.length < E <;> simp [used, room, labelsOf]

/-- A data line is shown with its calls, unless it is a modify whose load hits. -/
theorem labels_eq_iff (positive : 0 < pCache.paramE.toNat) {l : TraceLine} (data : l.op ≠ .I) :
    labelsOf (runEvents pCache all l.accesses).flatten =
        (runEvents pCache all l.accesses).flatten ↔
      (l.op = .M → tagOf pCache l.address ∉ all (setIdx pCache l.address).toNat) := by
  have one : (runEvents pCache all [l.address]).flatten =
      accessEvents pCache.paramE.toNat (all (setIdx pCache l.address).toNat)
        (tagOf pCache l.address) := by
    simp [runEvents]
  have two : (runEvents pCache all [l.address, l.address]).flatten =
      accessEvents pCache.paramE.toNat (all (setIdx pCache l.address).toNat)
        (tagOf pCache l.address) ++ [.hit] := by
    simp [runEvents, accessEvents_again all positive]
  cases kind : l.op with
  | I => exact absurd kind data
  | L =>
      simp only [TraceLine.accesses, kind, one, labelsOf_accessEvents]
      simp
  | S =>
      simp only [TraceLine.accesses, kind, one, labelsOf_accessEvents]
      simp
  | M =>
      simp only [TraceLine.accesses, kind, two, labelsOf_accessEvents_hit]
      simp

/-- No modify finds its line, from the tags of all sets before the lines. -/
def LoadsMiss (pCache : CacheParams) : (Nat → List (BitVec 64)) → List TraceLine → Prop
  | _, [] => True
  | all, l :: ls =>
      (l.op = .M → tagOf pCache l.address ∉ all (setIdx pCache l.address).toNat) ∧
        LoadsMiss pCache (l.accesses.foldl (access pCache) all) ls

theorem shownLines_eq_iff (positive : 0 < pCache.paramE.toNat) (lines : List TraceLine) :
    (shownLines pCache all lines).map (fun o => (o.currLine, o.labels)) =
        lineCalls lines (runEvents pCache all (lines.flatMap TraceLine.accesses)) ↔
      LoadsMiss pCache all lines := by
  induction lines generalizing all with
  | nil => simp [shownLines, lineCalls, LoadsMiss]
  | cons l ls ih =>
      have rest := ih (l.accesses.foldl (access pCache) all)
      have len := length_runEvents pCache all l.accesses
      simp only [shownLines, lineCalls, LoadsMiss, List.flatMap_cons, runEvents_append,
        List.map_append, ← len, List.take_left, List.drop_left]
      by_cases data : l.op = .I
      · rw [if_pos data, ← rest]
        simp [shownFor, data]
      · rw [if_neg data, ← labels_eq_iff all positive data, ← rest, map_shownFor data]
        simp

/-- Line by line the calls are those of the whole trace. -/
theorem flatMap_lineCalls (lines : List TraceLine) {events : List (List Event)}
    (len : events.length = (lines.flatMap TraceLine.accesses).length) :
    (lineCalls lines events).flatMap (·.2) = events.flatten := by
  induction lines generalizing events with
  | nil =>
      obtain rfl := List.length_eq_zero_iff.1 len
      rfl
  | cons l ls ih =>
      rw [List.flatMap_cons, List.length_append] at len
      have rest := @ih (events.drop l.accesses.length) (by rw [List.length_drop]; omega)
      have both := congrArg List.flatten (List.take_append_drop l.accesses.length events)
      rw [List.flatten_append] at both
      unfold lineCalls
      by_cases data : l.op = .I
      · have none_ : l.accesses = [] := by simp [TraceLine.accesses, data]
        rw [if_pos data, rest, none_]
        rfl
      · rw [if_neg data, List.flatMap_cons, rest, both]

end

/-- From `cacheInitialize` on the tags in a set are those used last. -/
theorem loadsMiss_iff (pCache : CacheParams) (addrs : List (BitVec 64)) (lines : List TraceLine) :
    LoadsMiss pCache (addrs.foldl (access pCache) fun _ => []) lines ↔
      ∀ before l after, lines = before ++ l :: after → l.op = .M →
        ¬ UsedRecently pCache.paramE.toNat
          (history pCache (addrs ++ before.flatMap TraceLine.accesses)
            (setIdx pCache l.address).toNat) (tagOf pCache l.address) := by
  have recent : ∀ (addrs : List (BitVec 64)) (l : TraceLine),
      tagOf pCache l.address ∈
          (addrs.foldl (access pCache) fun _ => []) (setIdx pCache l.address).toNat ↔
        UsedRecently pCache.paramE.toNat (history pCache addrs (setIdx pCache l.address).toNat)
          (tagOf pCache l.address) := by
    intro addrs l
    rw [foldl_access_nil]
    exact mem_take_recency_iff
  induction lines generalizing addrs with
  | nil => simp [LoadsMiss]
  | cons l ls ih =>
      have rest := ih (addrs ++ l.accesses)
      rw [List.foldl_append] at rest
      refine (and_congr (imp_congr_right fun _ => not_congr (recent addrs l)) rest).trans ?_
      constructor
      · rintro ⟨first, later⟩ before l' after same
        cases before with
        | nil =>
            cases same
            simpa using first
        | cons l₀ before =>
            cases same
            simpa using later before l' after rfl
      · intro each
        constructor
        · simpa using each [] l ls rfl
        · intro before l' after same
          simpa using each (l :: before) l' after (by rw [same]; rfl)

/-- A counter is printed as it is if and only if it has not passed `INT_MAX`. -/
theorem counter_toInt_iff (n : Nat) : (BitVec.ofNat 32 n).toInt = n ↔ n < 2 ^ 31 := by
  constructor
  · intro same
    have below := BitVec.toInt_lt (x := BitVec.ofNat 32 n)
    omega
  · exact counter_toInt

/-! ## The whole trace -/

section

variable {calloc : Lines → Option Nat} {param_s paramE param_b : BitVec 32}

/-- What is printed for a trace. -/
theorem printed_render (allocates : Allocates calloc) (range : InRange param_s param_b)
    (positive : 1 ≤ paramE.toNat) (optarg : OptArg) (lines : List TraceLine)
    (lastNewline : Bool) :
    let pCache := cacheParams param_s paramE param_b
    printed calloc optarg param_s paramE param_b (render lines lastNewline) =
      some (shownLines pCache (fun _ => []) lines ++
        [.summary (BitVec.ofNat 32 ((traceCalls pCache lines).count .hit)).toInt
          (BitVec.ofNat 32 ((traceCalls pCache lines).count .miss)).toInt
          (BitVec.ofNat 32 ((traceCalls pCache lines).count .eviction)).toInt]) := by
  intro pCache
  have positive' : 0 < pCache.paramE.toNat := positive
  obtain ⟨st, ran, after, out⟩ := processBufs_shows allocates positive'
    (setIdx_inArray paramE range.widths) optarg lines lastNewline (after_init pCache calloc)
    ⟨rfl, rfl, rfl⟩
  rw [List.nil_append] at after
  unfold printed
  rw [runMain_eq, ran]
  simp only [Option.map_some, Step.finish, printSummary, Option.some.injEq]
  rw [out, after.hits, after.misses, after.evictions]
  rfl

/-- **The labels of the verbose mode.** Every data line is shown with its calls and the
summary counts the labels if and only if no modify finds its line in the cache and no
counter passes `INT_MAX`. -/
theorem labelled_iff (allocates : Allocates calloc) (range : InRange param_s param_b)
    (positive : 1 ≤ paramE.toNat) (optarg : OptArg) (lines : List TraceLine)
    (lastNewline : Bool) :
    Labelled calloc optarg param_s paramE param_b lines lastNewline ↔
      ModifiesMiss (cacheParams param_s paramE param_b) lines ∧
        ∀ event, (traceCalls (cacheParams param_s paramE param_b) lines).count event < 2 ^ 31 := by
  let pCache := cacheParams param_s paramE param_b
  let events := runEvents pCache (fun _ => []) (lines.flatMap TraceLine.accesses)
  have positive' : 0 < pCache.paramE.toNat := positive
  have output := printed_render allocates range positive optarg lines lastNewline
  obtain ⟨mem, ran, -⟩ := cacheRun_start allocates range.widths positive
    (lines.flatMap TraceLine.accesses)
  have lineByLine := shownLines_eq_iff (fun _ => []) positive' lines
  have misses : LoadsMiss pCache (fun _ => []) lines ↔ ModifiesMiss pCache lines :=
    loadsMiss_iff pCache [] lines
  -- with the right labels on each line the labels are the calls of the trace
  have total : (shownLines pCache (fun _ => []) lines).map (fun o => (o.currLine, o.labels)) =
      lineCalls lines events →
      (shownLines pCache (fun _ => []) lines).flatMap Out.labels = traceCalls pCache lines := by
    intro same
    have calls := flatMap_lineCalls lines (length_runEvents pCache (fun _ => []) _)
    rw [← same, List.flatMap_map] at calls
    exact calls
  constructor
  · rintro ⟨_, _, shown, events', mem', init, ran', labels, out⟩
    cases init
    rw [ran] at ran'
    cases ran'
    rw [output, Option.some.injEq] at out
    obtain ⟨same, last⟩ := List.append_inj' out rfl
    rw [← same] at labels last
    refine ⟨misses.1 (lineByLine.1 labels), ?_⟩
    rw [total labels] at last
    simp only [List.cons.injEq, Out.summary.injEq, and_true] at last
    intro event
    cases event with
    | hit => exact (counter_toInt_iff _).1 last.1
    | miss => exact (counter_toInt_iff _).1 last.2.1
    | eviction => exact (counter_toInt_iff _).1 last.2.2
  · rintro ⟨modifies, few⟩
    have labels := lineByLine.2 (misses.2 modifies)
    refine ⟨pCache, _, shownLines pCache (fun _ => []) lines, events, mem, rfl, ran, labels, ?_⟩
    rw [output, total labels, (counter_toInt_iff _).2 (few .hit),
      (counter_toInt_iff _).2 (few .miss), (counter_toInt_iff _).2 (few .eviction)]

end

/-- A modify of a line that is not in the cache. -/
def modifyTwenty : TraceLine :=
  ⟨.M, ['2', '0'], ['1'], by decide, by decide, by decide, by decide, by decide, by decide⟩

theorem labelled_iff_modify :
    Labelled callocNext .null 1 1 1 [modifyTwenty] false := by
  refine (labelled_iff allocates_callocNext
    inRange_one (by decide : 1 ≤ (1 : BitVec 32).toNat) .null [modifyTwenty] false).2 ⟨?_, ?_⟩
  · rintro before l after same - ⟨earlier, since, used, -, -⟩
    cases before with
    | nil => simp [history] at used
    | cons _ before => simp at same
  · intro event
    cases event <;> decide +kernel

/-- The second modify hits twice, and is shown with one hit. -/
theorem not_labelled_modify_twice :
    printed callocNext .null 1 1 1 (render [modifyTwenty, modifyTwenty] false) =
      some [.verbose [' ', 'M', ' ', '2', '0', ',', '1'] "miss " "" "hit ",
        .verbose [' ', 'M', ' ', '2', '0', ',', '1'] "" "" "hit ", .summary 3 1 0] ∧
    ¬ Labelled callocNext .null 1 1 1 [modifyTwenty, modifyTwenty] false := by
  have output : printed callocNext .null 1 1 1 (render [modifyTwenty, modifyTwenty] false) =
      some ([.verbose [' ', 'M', ' ', '2', '0', ',', '1'] "miss " "" "hit ",
        .verbose [' ', 'M', ' ', '2', '0', ',', '1'] "" "" "hit "] ++ [.summary 3 1 0]) := by
    decide +kernel
  refine ⟨output, ?_⟩
  rintro ⟨_, _, shown, events, mem, -, -, -, out⟩
  rw [output, Option.some.injEq] at out
  obtain ⟨same, last⟩ := List.append_inj' out rfl
  rw [← same] at last
  revert last
  decide

end CsappLab.Csim
