/-
# Csim.Errors — tokens that are not numbers

The read loop means to reject an address or a size of which `strtoul` reads no
character: the end pointer would then be the start of the token. It compares the end
pointer with `optarg` instead, a null pointer or a place in an argument, and the end
pointer is a place in `textLine`. So no error is ever reported, and a line with such a
token is simulated with the number 0.

`Reports` says what should happen at one line of a file, after any lines before it and
with anything after it; the tokens are those of the whole line, which is one buffer if it
has fewer than 99 characters. `reports_iff` says at which lines it does happen, whatever
their length.
-/
import CsappLab.Csim.Buffers
import CsappLab.Csim.Lines

namespace CsappLab.Csim

set_option autoImplicit false

open CsappLab.Lib CsappLab.Cache

/-! ## A line in a file -/

/-- The file with the lines `before`, the line `l`, and after it its newline and the rest of
the file, or nothing. -/
def fileAt (before : List Line) (l : Line) (tail : Option (List Char)) : List Char :=
  fileOf before none ++ (l.chars tail.isSome ++ tail.getD [])

theorem fgetsAll_before (before : List Line) (rest : List Char) :
    fgetsAll MAX_LINE_LEN (fileOf before none ++ rest) =
      fgetsAll MAX_LINE_LEN (fileOf before none) ++ fgetsAll MAX_LINE_LEN rest := by
  induction before with
  | nil => rfl
  | cons l ls ih =>
      have whole : fileOf (l :: ls) none = l.text ++ '\n' :: fileOf ls none := by
        simp [fileOf, Line.chars]
      have wide : 2 ≤ MAX_LINE_LEN := by decide
      rw [whole, List.append_assoc, List.cons_append, fgetsAll_line wide l.noNewline, ih,
        fgetsAll_line wide l.noNewline (fileOf ls none), List.append_assoc]

/-- The buffers of the line, and those of what follows it. -/
theorem fgetsAll_at (l : Line) (tail : Option (List Char)) :
    fgetsAll MAX_LINE_LEN (l.chars tail.isSome ++ tail.getD []) =
      l.bufs tail.isSome ++ fgetsAll MAX_LINE_LEN (tail.getD []) := by
  cases tail with
  | none => simp [Line.bufs]
  | some rest =>
      have whole : l.chars true ++ rest = l.text ++ '\n' :: rest := by
        simp [Line.chars]
      rw [Option.isSome_some, Option.getD_some, whole, fgetsAll_line (by decide) l.noNewline]
      rfl

/-! ## What is to be reported -/

theorem addressText_ne : addressText ≠ noSpaceText := by decide

theorem sizeText_ne : sizeText ≠ noSpaceText := by decide

/-- `strtoul` reads no character. -/
def NotNumber (token : List Char) : Prop :=
  (strtoul 16 token).2 = 0

instance (token : List Char) : Decidable (NotNumber token) :=
  inferInstanceAs (Decidable (_ = _))

/-- The line is a load, a store or a modify by its first token. -/
def IsDataLine (buf : List Char) : Prop :=
  opOf buf = some 'L' ∨ opOf buf = some 'S' ∨ opOf buf = some 'M'

instance (buf : List Char) : Decidable (IsDataLine buf) :=
  inferInstanceAs (Decidable (_ ∨ _ ∨ _))

/-- The token number `i`, from 0, is there and is not a number. -/
def BadToken (buf : List Char) (i : Nat) : Prop :=
  ∃ token ∈ (tokens delims buf)[i]?, NotNumber token

instance (buf : List Char) (i : Nat) : Decidable (BadToken buf i) :=
  inferInstanceAs (Decidable (∃ token, token ∈ (tokens delims buf)[i]? ∧ NotNumber token))

section

variable (calloc : Lines → Option Nat) (optarg : OptArg) (configShowVerbose : Bool)
  (param_s paramE param_b : BitVec 32)

/-- The read loop has read the lines `before` and is in the state `st`. -/
def AfterLines (before : List Line) (st : Sim) : Prop :=
  ∃ pCache mem, cacheInitialize true param_s paramE param_b = (pCache, some mem) ∧
    readLoop pCache calloc optarg configShowVerbose ((fileOf before none).length + 1)
      (fileOf before none) (initSim mem) = some (.next st)

/-- The program stops at the line with the error `text`: but for `memOpInfo` and the
message everything is as the lines before it have left it. -/
def StopsWith (before : List Line) (l : Line) (tail : Option (List Char)) (st : Sim)
    (text : String) : Prop :=
  ∃ memOpInfo, runMain true calloc optarg configShowVerbose param_s paramE param_b
    (fileAt before l tail) =
      some (.ended { st with memOpInfo := memOpInfo, out := st.out ++ [.message text] })

/-- What is to be reported at the line `l`, where `st` is the state after the lines before
it. -/
structure Reports (before : List Line) (l : Line) (tail : Option (List Char)) (st : Sim) :
    Prop where
  address : IsDataLine (l.chars tail.isSome) → BadToken (l.chars tail.isSome) 1 →
    StopsWith calloc optarg configShowVerbose param_s paramE param_b before l tail st
      addressText
  size : IsDataLine (l.chars tail.isSome) → ¬ BadToken (l.chars tail.isSome) 1 →
    BadToken (l.chars tail.isSome) 2 →
    StopsWith calloc optarg configShowVerbose param_s paramE param_b before l tail st
      sizeText
  silent : ¬ BadToken (l.chars tail.isSome) 1 → ¬ BadToken (l.chars tail.isSome) 2 →
    ∀ step, processBufs (cacheParams param_s paramE param_b) calloc optarg configShowVerbose
      (l.bufs tail.isSome) st = some step →
    ∃ shown, step.state.out = st.out ++ shown ∧
      .message addressText ∉ shown ∧ .message sizeText ∉ shown

end

/-- The line is a data operation with an address or a size that is not a number. -/
def Malformed (buf : List Char) : Prop :=
  IsDataLine buf ∧ (BadToken buf 1 ∨ BadToken buf 2)

instance (buf : List Char) : Decidable (Malformed buf) :=
  inferInstanceAs (Decidable (_ ∧ _))

/-! ## What is reported -/

section

variable {calloc : Lines → Option Nat} {optarg : OptArg} {configShowVerbose : Bool}
  {param_s paramE param_b : BitVec 32} {before : List Line} {l : Line}
  {tail : Option (List Char)} {st : Sim}

/-- From the line on the program works on the buffers of the line and of the rest. -/
theorem AfterLines.runMain_eq
    (reached : AfterLines calloc optarg configShowVerbose param_s paramE param_b before st)
    (l : Line) (tail : Option (List Char)) :
    runMain true calloc optarg configShowVerbose param_s paramE param_b (fileAt before l tail) =
      (processBufs (cacheParams param_s paramE param_b) calloc optarg configShowVerbose
        (l.bufs tail.isSome ++ fgetsAll MAX_LINE_LEN (tail.getD [])) st).map Step.finish := by
  obtain ⟨pCache, mem, init, ran⟩ := reached
  cases init
  rw [readLoop_eq _ _ _ _ (Nat.lt_succ_self _)] at ran
  rw [Csim.runMain_eq, fileAt, fgetsAll_before, processBufs_append, fgetsAll_at]
  exact congrArg (Option.map Step.finish) (by rw [ran]; rfl)

/-- The program does not stop at a line with a message of its own. -/
theorem AfterLines.not_stopsWith
    (reached : AfterLines calloc optarg configShowVerbose param_s paramE param_b before st)
    {text : String} (own : text ≠ noSpaceText) :
    ¬ StopsWith calloc optarg configShowVerbose param_s paramE param_b before l tail st text := by
  rintro ⟨memOpInfo, ran⟩
  rw [reached.runMain_eq, Option.map_eq_some_iff] at ran
  obtain ⟨step, processed, ends⟩ := ran
  obtain ⟨shown, out, ofLines⟩ := processBufs_prints processed
  cases step with
  | stopped st' =>
      cases ends
      -- the message would be one that a line prints
      have same := List.append_cancel_left out
      rw [← same] at ofLines
      exact own (ofLines _ List.mem_cons_self).eq_noSpaceText
  | next st' =>
      -- the last thing printed is the summary
      have last := congrArg (fun e => match e with
        | End.ended st => st.out.getLast?
        | .unallocated => none) ends
      simp [Step.finish, printSummary] at last

/-- **Which errors are reported.** After any lines, what is to be reported at a line is
reported if and only if the line is not malformed. -/
theorem reports_iff
    (reached : AfterLines calloc optarg configShowVerbose param_s paramE param_b before st)
    (l : Line) (tail : Option (List Char)) :
    Reports calloc optarg configShowVerbose param_s paramE param_b before l tail st ↔
      ¬ Malformed (l.chars tail.isSome) := by
  constructor
  · rintro reports ⟨data, bad⟩
    by_cases badAddress : BadToken (l.chars tail.isSome) 1
    · exact reached.not_stopsWith addressText_ne (reports.address data badAddress)
    · exact reached.not_stopsWith sizeText_ne
        (reports.size data badAddress (bad.resolve_left badAddress))
  · intro wellFormed
    refine ⟨?_, ?_, ?_⟩
    · exact fun data bad => absurd ⟨data, .inl bad⟩ wellFormed
    · exact fun data _ bad => absurd ⟨data, .inr bad⟩ wellFormed
    · intro _ _ step processed
      obtain ⟨shown, out, ofLines⟩ := processBufs_prints processed
      exact ⟨shown, out, fun member => addressText_ne (ofLines _ member).eq_noSpaceText,
        fun member => sizeText_ne (ofLines _ member).eq_noSpaceText⟩

end

/-- A load of `10`. -/
theorem reports_iff_ten :
    Reports callocNext .null true 1 1 1 [] ⟨['L', ' ', '1', '0', ',', '1'], by decide, by decide⟩
      none (initSim ⟨fun _ => ⟨none, 0⟩, ∅⟩) :=
  (reports_iff ⟨_, _, rfl, rfl⟩ ⟨['L', ' ', '1', '0', ',', '1'], by decide, by decide⟩ none).2
    (by decide +kernel)

/-- A load of `zz` calls the cache with the address 0. -/
theorem not_reports_zz :
    simulated callocNext .null true 1 1 1 ['L', ' ', 'z', 'z', ',', '1'] = some [0] ∧
    ¬ Reports callocNext .null true 1 1 1 []
      ⟨['L', ' ', 'z', 'z', ',', '1'], by decide, by decide⟩ none
      (initSim ⟨fun _ => ⟨none, 0⟩, ∅⟩) := by
  have calls : simulated callocNext .null true 1 1 1 ['L', ' ', 'z', 'z', ',', '1'] =
      some [0] := by
    rw [simulated_eq allocates_callocNext ⟨by decide, by decide, by decide, by decide⟩ (by decide)
      (by decide +kernel)]
    decide +kernel
  refine ⟨calls, fun reports => ?_⟩
  obtain ⟨memOpInfo, ran⟩ := reports.address (by decide +kernel) (by decide +kernel)
  have file : fileAt [] ⟨['L', ' ', 'z', 'z', ',', '1'], by decide, by decide⟩ none =
      ['L', ' ', 'z', 'z', ',', '1'] := rfl
  rw [file] at ran
  unfold simulated at calls
  rw [ran] at calls
  cases calls

end CsappLab.Csim
