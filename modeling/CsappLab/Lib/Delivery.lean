/-
# Lib.Delivery — a stream that arrives in pieces

A descriptor answers the calls of `read` one after the other: a call fails, or brings some
of the elements that have arrived, perhaps fewer than it asked for. When its answers are
used up the file has ended for good.

What a program may rely on are the *items* of the descriptor: the elements in order, the
ends of file and the errors between them. A call that a signal interrupts leaves no item,
and neither does the boundary between two answers. `takeUntil` is the plain reader of a
list of items, and `read_cases` says what one call of `read` does to the items. A writer
meets the same on the other side: `write_cases`.
-/
import Mathlib.Data.List.Basic

namespace CsappLab.Lib

set_option autoImplicit false

/-- What `errno` says about a call that failed. -/
inductive Errno where
  | EINTR
  | other
  deriving DecidableEq, Repr

/-- What one call brings: an error, or elements; none at the end of the file. -/
inductive Answer (α : Type) where
  | error (errno : Errno)
  | arrived (elements : List α)
  deriving DecidableEq, Repr

/-- A descriptor to read from: what is still to arrive. -/
abbrev Descriptor (α : Type) : Type := List (Answer α)

section

variable {α : Type}

/-- One call of `read` for up to `n` elements. What it leaves of an answer comes next. -/
def read (n : Nat) : Descriptor α → Answer α × Descriptor α
  | [] => (.arrived [], [])
  | .error errno :: fd => (.error errno, fd)
  | .arrived elements :: fd =>
      (.arrived (elements.take n),
        if elements.length ≤ n then fd else .arrived (elements.drop n) :: fd)

/-! ## Items -/

inductive Item (α : Type) where
  | element (a : α)
  | endOfFile
  | failure
  deriving DecidableEq, Repr

def Answer.items : Answer α → List (Item α)
  | .error .EINTR => []
  | .error .other => [.failure]
  | .arrived [] => [.endOfFile]
  | .arrived (a :: as) => (a :: as).map .element

/-- The items of a descriptor. -/
def items (fd : Descriptor α) : List (Item α) :=
  fd.flatMap Answer.items

@[simp] theorem items_nil : items ([] : Descriptor α) = [] := rfl

@[simp] theorem items_cons (answer : Answer α) (fd : Descriptor α) :
    items (answer :: fd) = answer.items ++ items fd := rfl

theorem items_arrived {as : List α} (nonempty : as ≠ []) :
    (Answer.arrived as).items = as.map .element := by
  cases as with
  | nil => exact absurd rfl nonempty
  | cons a as => rfl

/-- The elements among the items. -/
def payload (list : List (Item α)) : List α :=
  list.filterMap fun item =>
    match item with
    | .element a => some a
    | _ => none

@[simp] theorem payload_nil : payload ([] : List (Item α)) = [] := rfl

@[simp] theorem payload_element (a : α) (list : List (Item α)) :
    payload (.element a :: list) = a :: payload list := rfl

@[simp] theorem payload_endOfFile (list : List (Item α)) :
    payload (.endOfFile :: list) = payload list := rfl

@[simp] theorem payload_failure (list : List (Item α)) :
    payload (.failure :: list) = payload list := rfl

/-- **What a call of `read` does to the items.** It is interrupted; or it fails; or the file
ends; or it takes the first elements. An answer is used up unless all the elements asked for
have come. -/
theorem read_cases {n : Nat} (positive : 0 < n) (fd : Descriptor α) :
    (∃ fd', read n fd = (.error .EINTR, fd') ∧ items fd' = items fd ∧ fd'.length < fd.length) ∨
    (∃ fd', read n fd = (.error .other, fd') ∧ items fd = .failure :: items fd') ∨
    (∃ fd', read n fd = (.arrived [], fd') ∧
      (items fd = .endOfFile :: items fd' ∨ items fd = [] ∧ items fd' = [])) ∨
    ∃ as fd', read n fd = (.arrived as, fd') ∧ as ≠ [] ∧ as.length ≤ n ∧
      items fd = as.map .element ++ items fd' ∧ (as.length < n → fd'.length < fd.length) ∧
      fd'.length ≤ fd.length := by
  cases fd with
  | nil => exact .inr (.inr (.inl ⟨[], rfl, .inr ⟨rfl, rfl⟩⟩))
  | cons answer fd =>
      cases answer with
      | error errno =>
          cases errno with
          | EINTR => exact .inl ⟨fd, rfl, rfl, Nat.lt_succ_self _⟩
          | other => exact .inr (.inl ⟨fd, rfl, rfl⟩)
      | arrived elements =>
          cases elements with
          | nil => exact .inr (.inr (.inl ⟨fd, by simp [read], .inl rfl⟩))
          | cons a as =>
              refine .inr (.inr (.inr ⟨(a :: as).take n, _, rfl, ?_, ?_, ?_, ?_, ?_⟩))
              · simp
                omega
              · rw [List.length_take]
                exact Nat.min_le_left _ _
              · by_cases all : (a :: as).length ≤ n
                · rw [if_pos all, List.take_of_length_le all]
                  rfl
                · have left : (a :: as).drop n ≠ [] := by
                    rw [Ne, List.drop_eq_nil_iff]
                    exact all
                  rw [if_neg all, items_cons, items_cons, items_arrived left, ← List.append_assoc,
                    ← List.map_append, List.take_append_drop]
                  rfl
              · intro fewer
                rw [List.length_take] at fewer
                rw [if_pos (by omega), List.length_cons]
                exact Nat.lt_succ_self _
              · split <;> simp

/-! ## The plain reader -/

/-- How reading stops: with all that was asked for, at the end of the file, or at an error. -/
inductive Stop where
  | full
  | ended
  | failed
  deriving DecidableEq, Repr

/-- What a reader has taken and what it has left. -/
structure Taken (α : Type) where
  elements : List α
  stop : Stop
  rest : List (Item α)
  deriving DecidableEq, Repr

/-- With more elements in front. -/
def Taken.after (as : List α) (t : Taken α) : Taken α :=
  { t with elements := as ++ t.elements }

/-- At most `n` elements, up to and including the first that is a `last` one. The end of the
file or the error that stops the reader is used up. -/
def takeUntil (last : α → Bool) : Nat → List (Item α) → Taken α
  | 0, list => ⟨[], .full, list⟩
  | _ + 1, [] => ⟨[], .ended, []⟩
  | _ + 1, .endOfFile :: list => ⟨[], .ended, list⟩
  | _ + 1, .failure :: list => ⟨[], .failed, list⟩
  | n + 1, .element a :: list =>
      if last a then ⟨[a], .full, list⟩ else (takeUntil last n list).after [a]

/-- At most `n` elements, whatever they are. -/
abbrev takeUpTo (n : Nat) (list : List (Item α)) : Taken α :=
  takeUntil (fun _ => false) n list

section

variable {last : α → Bool} {n : Nat} {list : List (Item α)}

@[simp] theorem takeUntil_zero : takeUntil last 0 list = ⟨[], .full, list⟩ := rfl

theorem takeUntil_ended (positive : 0 < n) (rest : List (Item α))
    (ended : list = .endOfFile :: rest ∨ list = [] ∧ rest = []) :
    takeUntil last n list = ⟨[], .ended, rest⟩ := by
  obtain ⟨n, rfl⟩ := Nat.exists_eq_add_one_of_ne_zero (Nat.ne_of_gt positive)
  rcases ended with rfl | ⟨rfl, rfl⟩ <;> rfl

theorem takeUntil_failed (positive : 0 < n) (rest : List (Item α)) :
    takeUntil last n (.failure :: rest) = ⟨[], .failed, rest⟩ := by
  obtain ⟨n, rfl⟩ := Nat.exists_eq_add_one_of_ne_zero (Nat.ne_of_gt positive)
  rfl

@[simp] theorem Taken.after_nil (t : Taken α) : t.after [] = t := rfl

@[simp] theorem Taken.after_after (as bs : List α) (t : Taken α) :
    (t.after bs).after as = t.after (as ++ bs) := by
  simp [Taken.after]

/-- The elements of one piece after the other. -/
theorem takeUpTo_append (as : List α) (le : as.length ≤ n) :
    takeUpTo n (as.map .element ++ list) = (takeUpTo (n - as.length) list).after as := by
  induction as generalizing n with
  | nil => rfl
  | cons a as ih =>
      obtain ⟨n, rfl⟩ := Nat.exists_eq_add_one_of_ne_zero (Nat.ne_of_gt (Nat.lt_of_lt_of_le
        (Nat.succ_pos _) le))
      have rest := ih (Nat.le_of_succ_le_succ le)
      rw [List.length_cons, Nat.add_sub_add_right, List.map_cons, List.cons_append]
      show (takeUpTo n (as.map .element ++ list)).after [a] = _
      rw [rest, Taken.after_after]
      rfl

/-- Nothing is lost and nothing comes twice. -/
theorem takeUntil_payload (last : α → Bool) (n : Nat) (list : List (Item α)) :
    (takeUntil last n list).elements ++ payload (takeUntil last n list).rest = payload list := by
  induction list generalizing n with
  | nil => cases n <;> rfl
  | cons item list ih =>
      cases n with
      | zero => rfl
      | succ n =>
          cases item with
          | endOfFile => rfl
          | failure => rfl
          | element a =>
              simp only [takeUntil]
              split
              · rfl
              · simp [Taken.after, ih n]

theorem takeUntil_length_le (last : α → Bool) (n : Nat) (list : List (Item α)) :
    (takeUntil last n list).elements.length ≤ n := by
  induction list generalizing n with
  | nil => cases n <;> simp [takeUntil]
  | cons item list ih =>
      cases n with
      | zero => simp
      | succ n =>
          cases item with
          | endOfFile => simp [takeUntil]
          | failure => simp [takeUntil]
          | element a =>
              simp only [takeUntil]
              split
              · simp
              · simpa [Taken.after] using ih n

end

/-! ## Writing -/

/-- What one call of `write` does: it fails, or accepts at most so many elements. -/
inductive Acceptance where
  | error (errno : Errno)
  | upTo (n : Nat)
  deriving DecidableEq, Repr

/-- A descriptor to write to: how it answers the calls, what it has accepted, and `errno` as
the last call that failed left it. When the answers are used up it accepts everything. -/
structure Sink (α : Type) where
  answers : List Acceptance
  written : List α
  errno : Errno
  deriving Repr

/-- One call of `write`: what it returns, and the descriptor after it. -/
def write (elements : List α) (sink : Sink α) : Int × Sink α :=
  match sink.answers with
  | [] => (elements.length, { sink with written := sink.written ++ elements })
  | .error errno :: answers => (-1, { sink with answers, errno })
  | .upTo n :: answers =>
      ((elements.take n).length,
        { sink with answers, written := sink.written ++ elements.take n })

/-- **What a call of `write` does.** It fails, and says so in `errno`; or it accepts nothing
and leaves `errno` as it was; or it accepts the first elements. The first answer is used up. -/
theorem write_cases {elements : List α} (nonempty : elements ≠ []) (sink : Sink α) :
    (∃ errno answers, sink.answers = .error errno :: answers ∧
      write elements sink = (-1, { sink with answers, errno })) ∨
    (∃ answers, sink.answers = .upTo 0 :: answers ∧
      write elements sink = (0, { sink with answers })) ∨
    ∃ (k : Nat) (sink' : Sink α), write elements sink = ((k : Int), sink') ∧ 0 < k ∧
      k ≤ elements.length ∧ sink'.written = sink.written ++ elements.take k ∧
      sink'.answers = sink.answers.tail ∧ (k < elements.length → sink.answers ≠ []) := by
  obtain ⟨answers, written, errno⟩ := sink
  have positive : 0 < elements.length := List.length_pos_iff.2 nonempty
  cases answers with
  | nil =>
      refine .inr (.inr ⟨elements.length, _, rfl, positive, Nat.le_refl _, ?_, rfl, ?_⟩)
      · show written ++ elements = written ++ elements.take elements.length
        rw [List.take_length]
      · intro fewer
        exact absurd fewer (Nat.lt_irrefl _)
  | cons answer answers =>
      cases answer with
      | error errno' => exact .inl ⟨errno', answers, rfl, rfl⟩
      | upTo n =>
          cases n with
          | zero => exact .inr (.inl ⟨answers, rfl, by simp [write]⟩)
          | succ n =>
              refine .inr (.inr ⟨(elements.take (n + 1)).length, _, rfl, ?_, ?_, ?_, rfl, ?_⟩)
              · rw [List.length_take]
                omega
              · rw [List.length_take]
                exact Nat.min_le_right _ _
              · simp
              · exact fun _ => List.cons_ne_nil _ _

end

end CsappLab.Lib
