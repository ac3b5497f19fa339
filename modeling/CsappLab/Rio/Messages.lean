/-
# Rio.Messages — with and without the buffer, and both ends of a pipe

`rio_readn` goes along the items of a descriptor as `rio_readnb` does, without a buffer in
between: any sequence of counts gives the same results either way
(`readnCalls_eq_buffered`). What one process writes with `rio_writen` another reads with
either of them, message by message, whatever the two ends of the pipe do to the calls
(`messages_arrive`).
-/
import CsappLab.Rio.Streams

namespace CsappLab.Rio

set_option autoImplicit false

open CsappLab.Lib

/-- `rio_readn` for one count after the other. -/
def readnCalls : List Nat → Descriptor Char → Option (List (Int × List Char) × Descriptor Char)
  | [], fd => some ([], fd)
  | n :: ns, fd => do
      let ⟨rc, usrbuf, fd⟩ ← rioReadn fd n
      let (results, fd) ← readnCalls ns fd
      some ((rc, usrbuf) :: results, fd)

theorem readnCalls_refines (ns : List Nat) (fd : Descriptor Char) :
    ∃ fd', readnCalls ns fd = some ((plainCalls (ns.map .readnb) (items fd)).1, fd') ∧
      items fd' = (plainCalls (ns.map .readnb) (items fd)).2 := by
  induction ns generalizing fd with
  | nil => exact ⟨fd, rfl, rfl⟩
  | cons n ns ih =>
      obtain ⟨fd₁, ran, items₁⟩ := rioReadn_runs fd n
      obtain ⟨fd', rest, items'⟩ := ih fd₁
      refine ⟨fd', ?_, ?_⟩
      · rw [readnCalls, ran]
        simp only [Option.bind_eq_bind, Option.bind_some, rest, items₁]
        rfl
      · rw [items', items₁]
        rfl

theorem fits_readnb (ns : List Nat) : ∀ call ∈ ns.map ReadCall.readnb, call.Fits := by
  intro call member
  obtain ⟨n, -, rfl⟩ := List.mem_map.1 member
  trivial

/-- **The buffer makes no difference.** Reading with `rio_readnb` gives what `rio_readn` gives
for the same counts on the same descriptor, errors and ends of file included. -/
theorem readnCalls_eq_buffered (ns : List Nat) (fd : Descriptor Char) (rp : RioT) :
    ∃ results left left', readnCalls ns fd = some (results, left) ∧
      runCalls (ns.map .readnb) (rioReadinitb rp fd) = some (results, left') ∧
      left'.items = items left := by
  obtain ⟨left, ran, rest⟩ := readnCalls_refines ns fd
  obtain ⟨left', ran', -, rest'⟩ := runCalls_refines (ok_rioReadinitb rp fd) (fits_readnb ns)
  rw [items_rioReadinitb] at ran' rest'
  exact ⟨_, left, left', ran, ran', rest'.trans rest.symm⟩

/-! ## Messages -/

/-- `rio_writen` for one message after the other. -/
def writenCalls : List (List Char) → Sink Char → Option (List Int × Sink Char)
  | [], fd => some ([], fd)
  | message :: messages, fd => do
      let (rc, fd) ← rioWriten fd message
      let (rcs, fd) ← writenCalls messages fd
      some (rc :: rcs, fd)

theorem writenCalls_getsOver {fd : Sink Char} (passes : ∀ answer ∈ fd.answers, GetsOver answer)
    (messages : List (List Char)) :
    ∃ fd', writenCalls messages fd = some (messages.map fun m => (m.length : Int), fd') ∧
      fd'.written = fd.written ++ messages.flatten := by
  induction messages generalizing fd with
  | nil => exact ⟨fd, rfl, by simp⟩
  | cons message messages ih =>
      obtain ⟨fd₁, ran, written, passes₁⟩ := rioWriten_getsOver passes message
      obtain ⟨fd', rest, written'⟩ := ih passes₁
      refine ⟨fd', ?_, ?_⟩
      · rw [writenCalls, ran]
        simp only [Option.bind_eq_bind, Option.bind_some, rest, List.map_cons]
      · rw [written', written, List.append_assoc, List.flatten_cons]

/-- The plain reader, on messages whose lengths it is given. -/
theorem plainCalls_messages (messages : List (List Char)) :
    plainCalls (messages.map fun m => .readnb m.length) (messages.flatten.map .element) =
      (messages.map fun m => ((m.length : Int), m), []) := by
  induction messages with
  | nil => rfl
  | cons message messages ih =>
      have taken : takeUpTo message.length
          (message.map .element ++ messages.flatten.map .element) =
          ⟨message, .full, messages.flatten.map .element⟩ := by
        rw [takeUpTo_append message (Nat.le_refl _), Nat.sub_self]
        simp [Taken.after]
      rw [List.flatten_cons, List.map_append]
      simp only [List.map_cons, plainCalls, ReadCall.taken, ReadCall.result, taken, ih]
      rfl

/-- **Messages arrive whole and in order.** A writer whose descriptor gives no error but
interruptions sends each message with one `rio_writen`; a reader that knows the lengths gets
each with one `rio_readnb`. How many bytes a call of `write` or `read` moves does not
matter. -/
theorem messages_arrive {out : Sink Char} (passes : ∀ answer ∈ out.answers, GetsOver answer)
    (fresh : out.written = []) (messages : List (List Char)) :
    ∃ out', writenCalls messages out = some (messages.map fun m => (m.length : Int), out') ∧
      ∀ fd, items fd = out'.written.map .element → ∀ rp : RioT, ∃ left,
        runCalls (messages.map fun m => .readnb m.length) (rioReadinitb rp fd) =
          some (messages.map fun m => ((m.length : Int), m), left) ∧ left.items = [] := by
  obtain ⟨out', ran, written⟩ := writenCalls_getsOver passes messages
  refine ⟨out', ran, ?_⟩
  intro fd arrives rp
  rw [written, fresh, List.nil_append] at arrives
  have fits : ∀ call ∈ messages.map fun m => ReadCall.readnb m.length, call.Fits := by
    intro call member
    obtain ⟨m, -, rfl⟩ := List.mem_map.1 member
    trivial
  obtain ⟨left, ran', -, rest⟩ := runCalls_refines (ok_rioReadinitb rp fd) fits
  rw [items_rioReadinitb, arrives, plainCalls_messages] at ran' rest
  exact ⟨left, ran', rest⟩

/-- A pipe that takes three bytes, is interrupted, takes one, and then all. -/
theorem messages_arrive_slow :
    ∃ out', writenCalls ["hello".toList, [], "you".toList]
          ⟨[.upTo 3, .error .EINTR, .upTo 1], [], .other⟩ =
        some (["hello".toList, [], "you".toList].map fun m => (m.length : Int), out') ∧
      ∀ fd, items fd = out'.written.map .element → ∀ rp : RioT, ∃ left,
        runCalls (["hello".toList, [], "you".toList].map fun m => .readnb m.length)
            (rioReadinitb rp fd) =
          some (["hello".toList, [], "you".toList].map fun m => ((m.length : Int), m), left) ∧
        left.items = [] :=
  messages_arrive (by simp [GetsOver]) rfl _

end CsappLab.Rio
