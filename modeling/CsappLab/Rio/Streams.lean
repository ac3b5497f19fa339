/-
# Rio.Streams — whole runs of the robust I/O functions

A program reads a descriptor by any sequence of `rio_readnb` and `rio_readlineb` on one
`rio_t` (`runCalls`). The plain reader takes the same sequence along the items alone
(`plainCalls`), and the run is that (`runCalls_refines`). So the results do not depend on
the cuts and the interruptions of the descriptor, no byte is lost or read twice, the lines
of a file are what `fgets` would give, and the buffer makes no difference to what
`rio_readn` reads without one. Messages that `rio_writen` writes come back whole.
-/
import CsappLab.Rio.Buffered

namespace CsappLab.Rio

set_option autoImplicit false

open CsappLab.Lib

/-! ## Sequences of calls -/

inductive ReadCall where
  | readnb (n : Nat)
  | readlineb (maxlen : Nat)
  deriving DecidableEq, Repr

def ReadCall.run (rp : RioT) : ReadCall → Option (Returned RioT)
  | .readnb n => rioReadnb rp n
  | .readlineb maxlen => rioReadlineb rp maxlen

/-- The calls one after the other: what each returns and stores. -/
def runCalls : List ReadCall → RioT → Option (List (Int × List Char) × RioT)
  | [], rp => some ([], rp)
  | call :: calls, rp => do
      let ⟨rc, usrbuf, rp⟩ ← call.run rp
      let (results, rp) ← runCalls calls rp
      some ((rc, usrbuf) :: results, rp)

/-- A line's buffer is smaller than 2 GB. -/
def ReadCall.Fits : ReadCall → Prop
  | .readnb _ => True
  | .readlineb maxlen => maxlen ≤ INT_MAX

instance (call : ReadCall) : Decidable call.Fits :=
  match call with
  | .readnb _ => inferInstanceAs (Decidable True)
  | .readlineb maxlen => inferInstanceAs (Decidable (maxlen ≤ INT_MAX))

/-- What the plain reader takes for a call. -/
def ReadCall.taken (list : List (Item Char)) : ReadCall → Taken Char
  | .readnb n => takeUpTo n list
  | .readlineb maxlen => takeLineUpTo maxlen list

/-- What a call is to return and store. -/
def ReadCall.result (t : Taken Char) : ReadCall → Int × List Char
  | .readnb _ => (rcOf t, t.elements)
  | .readlineb _ => lineOf t

/-- The calls, made by the plain reader. -/
def plainCalls : List ReadCall → List (Item Char) → List (Int × List Char) × List (Item Char)
  | [], list => ([], list)
  | call :: calls, list =>
      let t := call.taken list
      let (results, rest) := plainCalls calls t.rest
      (call.result t :: results, rest)

section

variable {rp : RioT}

theorem ReadCall.run_refines (ok : rp.Ok) {call : ReadCall} (fits : call.Fits) :
    ∃ rp', call.run rp =
        some ⟨(call.result (call.taken rp.items)).1, (call.result (call.taken rp.items)).2, rp'⟩ ∧
      rp'.Ok ∧ rp'.items = (call.taken rp.items).rest := by
  cases call with
  | readnb n => exact rioReadnb_runs ok n
  | readlineb maxlen => exact rioReadlineb_runs ok fits

/-- The calls are those of the plain reader. -/
theorem runCalls_refines (ok : rp.Ok) {calls : List ReadCall} (fits : ∀ call ∈ calls, call.Fits) :
    ∃ rp', runCalls calls rp = some ((plainCalls calls rp.items).1, rp') ∧ rp'.Ok ∧
      rp'.items = (plainCalls calls rp.items).2 := by
  induction calls generalizing rp with
  | nil => exact ⟨rp, rfl, ok, rfl⟩
  | cons call calls ih =>
      obtain ⟨rp₁, ran, ok₁, items₁⟩ :=
        ReadCall.run_refines ok (fits call List.mem_cons_self)
      obtain ⟨rp', rest, ok', items'⟩ :=
        ih ok₁ fun call member => fits call (List.mem_cons_of_mem _ member)
      refine ⟨rp', ?_, ok', ?_⟩
      · rw [runCalls, ran]
        simp only [Option.bind_eq_bind, Option.bind_some, rest, plainCalls, items₁]
      · rw [items', items₁]
        rfl

end

theorem ok_rioReadinitb (rp : RioT) (fd : Descriptor Char) : (rioReadinitb rp fd).Ok :=
  RioT.ok_of_empty (Int.le_refl 0)

@[simp] theorem items_rioReadinitb (rp : RioT) (fd : Descriptor Char) :
    (rioReadinitb rp fd).items = items fd :=
  RioT.items_of_empty (Int.le_refl 0)

/-- **Cuts and interruptions do not matter.** Two descriptors with the same items give the
same results to the same calls, whatever the `rio_t` held before. -/
theorem runCalls_delivery {fd fd' : Descriptor Char} (same : items fd = items fd')
    {calls : List ReadCall} (fits : ∀ call ∈ calls, call.Fits) (rp rp' : RioT) :
    ∃ results left left', runCalls calls (rioReadinitb rp fd) = some (results, left) ∧
      runCalls calls (rioReadinitb rp' fd') = some (results, left') ∧
      left.items = left'.items := by
  obtain ⟨left, ran, -, rest⟩ := runCalls_refines (ok_rioReadinitb rp fd) fits
  obtain ⟨left', ran', -, rest'⟩ := runCalls_refines (ok_rioReadinitb rp' fd') fits
  rw [items_rioReadinitb] at ran rest ran' rest'
  rw [← same] at ran' rest'
  exact ⟨_, left, left', ran, ran', rest.trans rest'.symm⟩

/-- The same text, in one piece and in four with interruptions. -/
theorem runCalls_delivery_pieces :
    ∃ results left left',
      runCalls [.readlineb 80, .readnb 10]
          (rioReadinitb ⟨[], 0, 0, .replicate _ 'x'⟩ [.arrived "ab\ncd".toList]) =
        some (results, left) ∧
      runCalls [.readlineb 80, .readnb 10]
          (rioReadinitb ⟨[], -1, 7, .replicate _ 'y'⟩
            [.error .EINTR, .arrived ['a'], .error .EINTR, .arrived "b\ncd".toList]) =
        some (results, left') ∧
      left.items = left'.items :=
  runCalls_delivery (by decide) (by decide) _ _

/-! ## No byte is lost -/

/-- The bytes of the stream that a call has stored: all but the NUL of a line. -/
def bytesIn (result : Int × List Char) : List Char :=
  if result.1 < 0 then result.2 else result.2.take result.1.toNat

/-- The size of the buffer a call is given. The NUL of an empty line takes one byte even of
a buffer of none. -/
def ReadCall.room : ReadCall → Nat
  | .readnb n => n
  | .readlineb maxlen => max maxlen 1

/-- The call stores no more than its buffer has room for. -/
def ReadCall.Inside (call : ReadCall) (result : Int × List Char) : Prop :=
  result.2.length ≤ call.room

theorem bytesIn_result (call : ReadCall) (t : Taken Char) :
    bytesIn (call.result t) = t.elements := by
  have negative : (-1 : Int) < 0 := by decide
  have notNegative : ¬ (t.elements.length : Int) < 0 := by omega
  by_cases failed : t.stop = .failed
  · cases call <;> simp [ReadCall.result, rcOf, lineOf, bytesIn, failed]
  · cases call with
    | readnb n => simp [ReadCall.result, rcOf, bytesIn, failed, notNegative]
    | readlineb maxlen =>
        simp only [ReadCall.result, lineOf, if_neg failed]
        split
        next empty => simp [bytesIn, empty.2]
        next => simp [bytesIn, notNegative]

theorem length_lineOf_le (t : Taken Char) : (lineOf t).2.length ≤ t.elements.length + 1 := by
  unfold lineOf
  by_cases failed : t.stop = .failed
  · rw [if_pos failed]
    exact Nat.le_succ _
  · rw [if_neg failed]
    split <;> simp

theorem ReadCall.inside_result (call : ReadCall) (list : List (Item Char)) :
    call.Inside (call.result (call.taken list)) := by
  cases call with
  | readnb n => exact takeUntil_length_le _ n list
  | readlineb maxlen =>
      have le := takeUntil_length_le (· = '\n') (maxlen - 1) list
      calc _ ≤ _ := length_lineOf_le (takeLineUpTo maxlen list)
        _ ≤ (maxlen - 1) + 1 := Nat.succ_le_succ le
        _ = max maxlen 1 := by omega

theorem ReadCall.taken_payload (call : ReadCall) (list : List (Item Char)) :
    (call.taken list).elements ++ payload (call.taken list).rest = payload list := by
  cases call <;> exact takeUntil_payload _ _ _

theorem plainCalls_payload (calls : List ReadCall) (list : List (Item Char)) :
    (plainCalls calls list).1.flatMap bytesIn ++ payload (plainCalls calls list).2 =
      payload list := by
  induction calls generalizing list with
  | nil => rfl
  | cons call calls ih =>
      simp only [plainCalls, List.flatMap_cons, bytesIn_result, List.append_assoc, ih]
      exact call.taken_payload list

theorem plainCalls_inside (calls : List ReadCall) (list : List (Item Char)) :
    List.Forall₂ ReadCall.Inside calls (plainCalls calls list).1 := by
  induction calls generalizing list with
  | nil => exact .nil
  | cons call calls ih => exact .cons (call.inside_result list) (ih _)

/-- **No byte is lost, read twice or stored outside its buffer.** The bytes that the calls
store, in order, and those still to come are the bytes of the descriptor, with errors, ends of
file and interruptions anywhere among them. -/
theorem runCalls_lossless (fd : Descriptor Char) {calls : List ReadCall}
    (fits : ∀ call ∈ calls, call.Fits) (rp : RioT) :
    ∃ results left, runCalls calls (rioReadinitb rp fd) = some (results, left) ∧
      results.flatMap bytesIn ++ payload left.items = payload (items fd) ∧
      List.Forall₂ ReadCall.Inside calls results := by
  obtain ⟨left, ran, -, rest⟩ := runCalls_refines (ok_rioReadinitb rp fd) fits
  rw [items_rioReadinitb] at ran rest
  refine ⟨_, left, ran, ?_, plainCalls_inside calls _⟩
  rw [rest]
  exact plainCalls_payload calls (items fd)

/-- Past an error and an end of file, as a terminal has them. -/
theorem runCalls_lossless_terminal :
    ∃ results left,
      runCalls [.readnb 2, .readlineb 0, .readlineb 4, .readnb 9]
          (rioReadinitb ⟨[], 0, 0, .replicate _ 'x'⟩
            [.arrived ['a'], .error .other, .arrived [], .arrived "bc\nd".toList]) =
        some (results, left) ∧
      results.flatMap bytesIn ++ payload left.items =
        payload (items [.arrived ['a'], .error .other, .arrived [], .arrived "bc\nd".toList]) ∧
      List.Forall₂ ReadCall.Inside [.readnb 2, .readlineb 0, .readlineb 4, .readnb 9] results :=
  runCalls_lossless _ (by decide) _

/-! ## Lines -/

/-- The plain reader of lines, on elements only. -/
theorem takeUntil_newline (n : Nat) (text : List Char) :
    ∃ stop, takeUntil (· = '\n') n (text.map .element) =
        ⟨(takeLine n text).1, stop, (takeLine n text).2.map .element⟩ ∧
      stop ≠ .failed ∧ (stop = .ended → (takeLine n text).1 = text) := by
  induction text generalizing n with
  | nil =>
      cases n with
      | zero => exact ⟨.full, rfl, by decide, by decide⟩
      | succ n => exact ⟨.ended, rfl, by decide, fun _ => rfl⟩
  | cons c text ih =>
      cases n with
      | zero =>
          refine ⟨.full, rfl, by decide, ?_⟩
          intro ended
          cases ended
      | succ n =>
          by_cases newline : c = '\n'
          · refine ⟨.full, by simp [takeUntil, takeLine, newline], by decide, ?_⟩
            intro ended
            cases ended
          · obtain ⟨stop, taken, noFailure, all⟩ := ih n
            refine ⟨stop, ?_, noFailure, ?_⟩
            · simp [takeUntil, takeLine, newline, taken, Taken.after]
            · intro ended
              simp [takeLine, newline, all ended]

/-- What `rio_readlineb` returns and stores for a line. -/
def lineResult (buf : List Char) : Int × List Char :=
  (buf.length, buf ++ [NUL])

/-- Reading a line of a text that is all there: `fgets` on the text. -/
theorem takeLineUpTo_text {maxlen : Nat} (wide : 2 ≤ maxlen) (text : List Char) :
    (text = [] ∧ lineOf (takeLineUpTo maxlen (text.map .element)) = (0, []) ∧
        (takeLineUpTo maxlen (text.map .element)).rest = []) ∨
      ∃ buf rest, fgets maxlen text = some (buf, rest) ∧
        lineOf (takeLineUpTo maxlen (text.map .element)) = lineResult buf ∧
        (takeLineUpTo maxlen (text.map .element)).rest = rest.map .element := by
  cases text with
  | nil =>
      have ended : takeUntil (· = '\n') (maxlen - 1) ([] : List (Item Char)) =
          ⟨[], .ended, []⟩ := takeUntil_ended (by omega) [] (.inr ⟨rfl, rfl⟩)
      refine .inl ⟨rfl, ?_⟩
      rw [takeLineUpTo, List.map_nil, ended]
      exact ⟨rfl, rfl⟩
  | cons c cs =>
      obtain ⟨stop, taken, noFailure, all⟩ := takeUntil_newline (maxlen - 1) (c :: cs)
      refine .inr ⟨_, _, fgets_isSome maxlen (List.cons_ne_nil c cs), ?_⟩
      rw [takeLineUpTo, taken]
      refine ⟨?_, rfl⟩
      have some_ : ¬ (stop = .ended ∧ (takeLine (maxlen - 1) (c :: cs)).1 = []) := by
        rintro ⟨ended, empty⟩
        rw [all ended] at empty
        exact List.cons_ne_nil c cs empty
      simp only [lineOf, lineResult, if_neg noFailure, if_neg some_]

theorem plainCalls_atEnd (k maxlen : Nat) (wide : 2 ≤ maxlen) :
    plainCalls (List.replicate k (.readlineb maxlen)) [] = (List.replicate k (0, []), []) := by
  induction k with
  | zero => rfl
  | succ k ih =>
      rcases takeLineUpTo_text wide [] with ⟨-, line, rest⟩ | ⟨buf, rest, nothing, -⟩
      · rw [List.map_nil] at line rest
        simp only [List.replicate_succ, plainCalls, ReadCall.taken, ReadCall.result, rest, ih, line]
      · cases nothing

theorem plainCalls_lines {maxlen : Nat} (wide : 2 ≤ maxlen) (k : Nat) (text : List Char) :
    plainCalls (List.replicate ((fgetsAll maxlen text).length + k) (.readlineb maxlen))
        (text.map .element) =
      ((fgetsAll maxlen text).map lineResult ++ List.replicate k (0, []), []) := by
  induction long : text.length using Nat.strongRecOn generalizing text with
  | ind n ih =>
      rcases takeLineUpTo_text wide text with ⟨rfl, -⟩ | ⟨buf, rest, read, line, left⟩
      · simpa using plainCalls_atEnd k maxlen wide
      · have shorter := fgets_shorter wide read
        rw [fgetsAll_cons wide read, List.length_cons, Nat.add_right_comm, List.replicate_succ]
        simp only [plainCalls, ReadCall.taken, ReadCall.result, line, left,
          ih rest.length (by omega) rest rfl]
        rfl

/-- **The lines of a file.** Where the descriptor brings a text, in any pieces and with any
interruptions, the calls of `rio_readlineb` give it as the calls of `fgets` cut it up, each
buffer with its length and a NUL; from then on they return 0. -/
theorem rioReadlineb_lines {fd : Descriptor Char} {text : List Char}
    (brings : items fd = text.map .element) {maxlen : Nat} (wide : 2 ≤ maxlen)
    (fits : maxlen ≤ INT_MAX) (k : Nat) (rp : RioT) :
    ∃ left, runCalls (List.replicate ((fgetsAll maxlen text).length + k) (.readlineb maxlen))
        (rioReadinitb rp fd) =
      some ((fgetsAll maxlen text).map lineResult ++ List.replicate k (0, []), left) := by
  have fit : ∀ call ∈ List.replicate ((fgetsAll maxlen text).length + k)
      (ReadCall.readlineb maxlen), call.Fits := by
    intro call member
    rw [List.eq_of_mem_replicate member]
    exact fits
  obtain ⟨left, ran, -, -⟩ := runCalls_refines (ok_rioReadinitb rp fd) fit
  rw [items_rioReadinitb, brings, plainCalls_lines wide] at ran
  exact ⟨left, ran⟩

/-- Three buffers for two lines, the first of which is longer than a buffer. -/
theorem rioReadlineb_lines_two :
    ∃ left, runCalls (List.replicate ((fgetsAll 4 "abcd\ne".toList).length + 2) (.readlineb 4))
        (rioReadinitb ⟨[], 0, 0, .replicate _ 'x'⟩
          [.arrived "ab".toList, .error .EINTR, .arrived "cd\ne".toList]) =
      some ((fgetsAll 4 "abcd\ne".toList).map lineResult ++ List.replicate 2 (0, []), left) :=
  rioReadlineb_lines (by decide) (by decide) (by decide) 2 _

end CsappLab.Rio
