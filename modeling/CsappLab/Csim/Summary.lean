/-
# Csim.Summary — the summary of a well-formed trace

The buffers of a rendered trace are its lines, so the accesses they name are those of
the lines (`accessesFrom_render`). At the end of the file `printSummary` prints the
counts of the whole access sequence.
-/
import CsappLab.Csim.Reading
import CsappLab.Csim.Trace

namespace CsappLab.Csim

set_option autoImplicit false

open CsappLab.Lib CsappLab.Cache

/-! ## The buffers of a trace -/

/-! With or without its newline, a line is a buffer. -/

section

variable (l : TraceLine) {tail : List Char} (ends : tail = [] ∨ tail = ['\n'])

theorem named_accesses : (⟨some l.op.char, some l.address⟩ : Named).accesses = l.accesses := by
  unfold TraceLine.accesses
  cases kind : l.op <;> rfl

include ends

theorem next_line (n : Named) :
    n.next (l.text ++ tail) = ⟨some l.op.char, some l.address⟩ := by
  refine next_text n l ?_
  rcases ends with rfl | rfl <;> simp [delims]

theorem noNul_line : NUL ∉ l.text ++ tail := by
  have text : NUL ∉ l.text := mem_text_ne (.inr rfl)
  have newline : NUL ≠ '\n' := by decide
  rcases ends with rfl | rfl <;> simp [text, newline]

theorem accessesFrom_text (n : Named) (bufs : List (List Char)) :
    accessesFrom n ((l.text ++ tail) :: bufs) =
      l.accesses ++ accessesFrom ⟨some l.op.char, some l.address⟩ bufs := by
  rw [accessesFrom_cons, next_line l ends, named_accesses]

end

theorem fgetsAll_text (l : TraceLine) (rest : List Char) :
    fgetsAll MAX_LINE_LEN (l.text ++ '\n' :: rest) =
      (l.text ++ ['\n']) :: fgetsAll MAX_LINE_LEN rest := by
  have short := length_text_le l
  apply fgetsAll_cons (by decide)
  exact fgets_line rest (mem_text_ne (.inl rfl))
    (Nat.le_trans (Nat.add_le_add_right short 2) (by decide))

theorem fgetsAll_last (l : TraceLine) : fgetsAll MAX_LINE_LEN l.text = [l.text ++ []] := by
  have short := length_text_le l
  have long := length_text_ge l
  have line : fgets MAX_LINE_LEN l.text = some (l.text, []) :=
    fgets_last (List.ne_nil_of_length_pos (by omega)) (mem_text_ne (.inl rfl))
      (Nat.le_trans (Nat.add_le_add_right short 1) (by decide))
  rw [fgetsAll_cons (by decide) line, fgetsAll_nil, List.append_nil]

/-- The first line of a trace has a buffer of its own. -/
theorem fgetsAll_render_cons (l : TraceLine) (ls : List TraceLine) (lastNewline : Bool) :
    ∃ tail, (tail = [] ∨ tail = ['\n']) ∧
      fgetsAll MAX_LINE_LEN (render (l :: ls) lastNewline) =
        (l.text ++ tail) :: fgetsAll MAX_LINE_LEN (render ls lastNewline) := by
  cases ls with
  | nil =>
      cases lastNewline with
      | false =>
          refine ⟨[], .inl rfl, ?_⟩
          show fgetsAll MAX_LINE_LEN (l.text ++ []) = _
          rw [List.append_nil, fgetsAll_last, List.append_nil]
          rfl
      | true => exact ⟨['\n'], .inr rfl, fgetsAll_text l []⟩
  | cons l' ls => exact ⟨['\n'], .inr rfl, fgetsAll_text l _⟩

/-- **The accesses named in a trace** are those of its lines, in order. -/
theorem accessesFrom_render (n : Named) (lines : List TraceLine) (lastNewline : Bool) :
    accessesFrom n (fgetsAll MAX_LINE_LEN (render lines lastNewline)) =
      lines.flatMap TraceLine.accesses := by
  induction lines generalizing n with
  | nil => rfl
  | cons l ls ih =>
      obtain ⟨tail, ends, bufs⟩ := fgetsAll_render_cons l ls lastNewline
      rw [bufs, accessesFrom_text l ends, ih, List.flatMap_cons]

theorem noNul_render (lines : List TraceLine) (lastNewline : Bool) :
    NUL ∉ render lines lastNewline := by
  induction lines with
  | nil => exact List.not_mem_nil
  | cons l ls ih =>
      have text : NUL ∉ l.text := mem_text_ne (.inr rfl)
      have newline : NUL ≠ '\n' := by decide
      cases ls with
      | nil => cases lastNewline <;> simp [render, text, newline]
      | cons l' ls => simpa [render, text, newline] using ih

/-! ## The summary -/

/-- `#L + #S + 2 * #M`. -/
def dataAccesses (lines : List TraceLine) : Nat :=
  lines.countP (·.op = .L) + lines.countP (·.op = .S) + 2 * lines.countP (·.op = .M)

theorem length_accesses (lines : List TraceLine) :
    (lines.flatMap TraceLine.accesses).length = dataAccesses lines := by
  induction lines with
  | nil => rfl
  | cons l ls ih =>
      have first : l.accesses.length = dataAccesses [l] := by
        unfold TraceLine.accesses dataAccesses
        cases kind : l.op <;> simp [kind]
      rw [List.flatMap_cons, List.length_append, ih, first]
      simp only [dataAccesses, List.countP_cons, List.countP_nil]
      omega

/-- A counter that has not passed `INT_MAX` is printed as it is. -/
theorem counter_toInt {n : Nat} (few : n < 2 ^ 31) : (BitVec.ofNat 32 n).toInt = n := by
  have value : (BitVec.ofNat 32 n).toNat = n := by
    rw [BitVec.toNat_ofNat]
    exact Nat.mod_eq_of_lt (Nat.lt_trans few (by decide))
  rw [BitVec.toInt_eq_toNat_of_lt (by rw [value]; omega), value]

/-- **The summary of a well-formed trace.** The cache is called with the addresses of
the lines in order, a modify's twice; the printed numbers are those of that access
sequence; they add up to the data accesses, and the misses that evicted nothing to the
lines that are there. -/
theorem runMain_summary {calloc : Lines → Option Nat} {param_s paramE param_b : BitVec 32}
    (allocates : Allocates calloc) (range : InRange param_s param_b)
    (positive : 1 ≤ paramE.toNat) (optarg : OptArg) (configShowVerbose : Bool)
    (lines : List TraceLine) (lastNewline : Bool) (few : dataAccesses lines < 2 ^ 31) :
    ∃ pCache m₀ st shown, ∃ events : List (List Event), ∃ tags : Nat → List (BitVec 64),
      cacheInitialize true param_s paramE param_b = (pCache, some m₀) ∧
      runMain true calloc optarg configShowVerbose param_s paramE param_b
        (render lines lastNewline) = some (.ended st) ∧
      st.calls = lines.flatMap TraceLine.accesses ∧
      cacheRun pCache calloc m₀ (lines.flatMap TraceLine.accesses) = some (events, st.mem) ∧
      (∀ o ∈ shown, o.IsVerbose) ∧
      st.out = shown ++ [.summary (events.flatten.count .hit) (events.flatten.count .miss)
        (events.flatten.count .eviction)] ∧
      events.flatten.count .hit + events.flatten.count .miss = dataAccesses lines ∧
      (∀ idx < 2 ^ param_s.toNat, setTags st.mem idx = some (tags idx)) ∧
      events.flatten.count .miss =
        events.flatten.count .eviction +
          ∑ idx ∈ Finset.range (2 ^ param_s.toNat), (tags idx).length := by
  obtain ⟨st, ended, after⟩ := runMain_after allocates range.widths positive optarg
    configShowVerbose (noNul_render lines lastNewline)
  rw [accessesFrom_render] at after
  -- no count passes `INT_MAX`
  have total := hits_add_misses (cacheParams param_s paramE param_b) (fun _ => [])
    (lines.flatMap TraceLine.accesses)
  have resident := misses_eq (setIdx_lt paramE range.widths)
    (lines.flatMap TraceLine.accesses)
  rw [length_accesses] at total
  refine ⟨cacheParams param_s paramE param_b, _, printSummary st, st.out,
    runEvents _ (fun _ => []) (lines.flatMap TraceLine.accesses),
    (lines.flatMap TraceLine.accesses).foldl (access _) fun _ => [], rfl, ended, after.calls,
    after.ran, after.out, ?_, total, fun idx _ => after.holds.setTags idx, resident⟩
  unfold printSummary
  rw [after.hits, after.misses, after.evictions, counter_toInt (by omega),
    counter_toInt (by omega), counter_toInt (by omega)]

/-- A load and a modify in a cache of one line a set. -/
theorem runMain_summary_load_modify :
    ∃ st shown, runMain true callocNext .null true 1 1 1
        (render [⟨.L, ['1', '0'], ['1'], by decide, by decide, by decide, by decide, by decide,
          by decide⟩, ⟨.M, ['2', '0'], ['4'], by decide, by decide, by decide, by decide, by decide,
          by decide⟩] false) = some (.ended st) ∧
      st.calls = [16, 32, 32] ∧ ∃ h m e : Nat, st.out = shown ++ [.summary h m e] ∧ h + m = 3 := by
  obtain ⟨_, _, st, shown, events, _, _, ran, calls, _, _, out, total, _, _⟩ :=
    runMain_summary allocates_callocNext
      inRange_one (by decide : 1 ≤ (1 : BitVec 32).toNat) .null true
      [⟨.L, ['1', '0'], ['1'], by decide, by decide, by decide, by decide, by decide,
          by decide⟩, ⟨.M, ['2', '0'], ['4'], by decide, by decide, by decide, by decide, by decide,
          by decide⟩] false (by decide)
  exact ⟨st, shown, ran, calls, _, _, _, out, total⟩

end CsappLab.Csim
