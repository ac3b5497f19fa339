/-
# Rio.Unbuffered — `rio_readn` and `rio_writen`

`rio_readn` is the plain reader of the descriptor's items: what it stores, what it returns
and what it leaves do not depend on how the bytes arrive (`rioReadn_runs`). `rio_writen`
either has written its bytes once each and in order, or says that it has not
(`rioWriten_writes`), which it does only after an answer that is no interruption.
-/
import CsappLab.Rio.Rio

namespace CsappLab.Rio

set_option autoImplicit false

open CsappLab.Lib

/-! ## Reading -/

/-- The count of the bytes taken, or -1 after an error. -/
def rcOf (t : Taken Char) : Int :=
  if t.stop = .failed then -1 else t.elements.length

theorem readnLoop_spec {n rounds nleft : Nat} {usrbuf : List Char} {fd : Descriptor Char}
    (count : usrbuf.length + nleft = n) (enough : fd.length + min nleft 1 < rounds) :
    ∃ fd', readnLoop n rounds nleft usrbuf fd =
        some ⟨rcOf ((takeUpTo nleft (items fd)).after usrbuf),
          usrbuf ++ (takeUpTo nleft (items fd)).elements, fd'⟩ ∧
      items fd' = (takeUpTo nleft (items fd)).rest := by
  induction rounds generalizing nleft usrbuf fd with
  | zero => cases enough
  | succ rounds ih =>
      have stored : (n : Int) - nleft = usrbuf.length := by omega
      unfold readnLoop
      by_cases more : 0 < nleft
      · rw [if_pos more]
        rcases read_cases more fd with ⟨fd', answer, same, shorter⟩ | ⟨fd', answer, split⟩ |
          ⟨fd', answer, ended⟩ | ⟨as, fd', answer, nonempty, le, split, partly, notLonger⟩
        · -- interrupted: the same call again
          rw [answer, ← same]
          exact ih count (by omega)
        · rw [answer, split, takeUpTo, takeUntil_failed more]
          exact ⟨fd', by simp [rcOf, Taken.after], rfl⟩
        · rw [answer, takeUpTo, takeUntil_ended more _ ended]
          exact ⟨fd', by simp [rcOf, Taken.after, stored], rfl⟩
        · have some_ : as.length ≠ 0 := by simpa using nonempty
          rw [answer, split, takeUpTo_append as le, Taken.after_after]
          simp only [if_neg some_]
          have rest := ih
            (show (usrbuf ++ as).length + (nleft - as.length) = n by rw [List.length_append]; omega)
            (show fd'.length + min (nleft - as.length) 1 < rounds by omega)
          simpa [Taken.after] using rest
      · obtain rfl : nleft = 0 := by omega
        rw [if_neg more]
        exact ⟨fd, by rw [stored]; simp [rcOf, Taken.after], rfl⟩

/-- `rio_readn` reads the next `n` bytes, fewer only at the end of the file or at an error. -/
theorem rioReadn_runs (fd : Descriptor Char) (n : Nat) :
    ∃ fd', rioReadn fd n =
        some ⟨rcOf (takeUpTo n (items fd)), (takeUpTo n (items fd)).elements, fd'⟩ ∧
      items fd' = (takeUpTo n (items fd)).rest :=
  readnLoop_spec (by simp) (by omega)

/-! ## Writing -/

/-- The answers that `rio_writen` gets over: interruptions, and any number of bytes but none. -/
def GetsOver : Acceptance → Prop
  | .error errno => errno = .EINTR
  | .upTo n => 0 < n

/-- All of the bytes are written, or the first few and an error is reported. -/
def WritesOrFails (n : Nat) (bufp : List Char) (fd : Sink Char) (rc : Int) (fd' : Sink Char) :
    Prop :=
  fd'.answers ⊆ fd.answers ∧
    ((rc = n ∧ fd'.written = fd.written ++ bufp) ∨
      (rc = -1 ∧ (∃ k < bufp.length, fd'.written = fd.written ++ bufp.take k) ∧
        ∃ answer ∈ fd.answers, ¬ GetsOver answer))

/-- After a call that has accepted the first `k` bytes. -/
theorem WritesOrFails.step {n k : Nat} {bufp : List Char} {fd fd₁ fd' : Sink Char} {rc : Int}
    (accepted : fd₁.written = fd.written ++ bufp.take k) (le : k ≤ bufp.length)
    (later : fd₁.answers ⊆ fd.answers) (rest : WritesOrFails n (bufp.drop k) fd₁ rc fd') :
    WritesOrFails n bufp fd rc fd' := by
  refine ⟨fun _ member => later (rest.1 member), ?_⟩
  rcases rest.2 with ⟨all, written⟩ | ⟨failed, ⟨j, less, written⟩, answer, member, stuck⟩
  · refine .inl ⟨all, ?_⟩
    rw [written, accepted, List.append_assoc, List.take_append_drop]
  · refine .inr ⟨failed, ⟨k + j, ?_, ?_⟩, answer, later member, stuck⟩
    · rw [List.length_drop] at less
      omega
    · rw [written, accepted, List.append_assoc, List.take_add]

theorem writenLoop_spec {n rounds : Nat} {bufp : List Char} {fd : Sink Char}
    (enough : fd.answers.length + min bufp.length 1 < rounds) :
    ∃ rc fd', writenLoop n rounds bufp fd = some (rc, fd') ∧ WritesOrFails n bufp fd rc fd' := by
  induction rounds generalizing bufp fd with
  | zero => cases enough
  | succ rounds ih =>
      unfold writenLoop
      by_cases more : 0 < bufp.length
      · rw [if_pos more]
        -- the same bytes again, to a descriptor with an answer less
        have again : ∀ (fd₁ : Sink Char) {answer : Acceptance},
            fd.answers = answer :: fd₁.answers → fd₁.written = fd.written →
            ∃ rc fd', writenLoop n rounds bufp fd₁ = some (rc, fd') ∧
              WritesOrFails n bufp fd rc fd' := by
          intro fd₁ answer next unchanged
          rw [next, List.length_cons] at enough
          obtain ⟨rc, fd', ran, post⟩ := ih
            (show fd₁.answers.length + min bufp.length 1 < rounds by omega)
          refine ⟨rc, fd', ran, WritesOrFails.step (k := 0) (by simp [unchanged]) (Nat.zero_le _) ?_
            post⟩
          rw [next]
          exact List.subset_cons_self _ _
        -- or the loop gives up at an answer that it does not get over
        have fails : ∀ (fd₁ : Sink Char) {answer : Acceptance},
            fd.answers = answer :: fd₁.answers → fd₁.written = fd.written → ¬ GetsOver answer →
            WritesOrFails n bufp fd (-1) fd₁ := by
          intro fd₁ answer next unchanged stuck
          rw [WritesOrFails, next]
          exact ⟨List.subset_cons_self _ _,
            .inr ⟨rfl, ⟨0, more, by simp [unchanged]⟩, answer, List.mem_cons_self, stuck⟩⟩
        rcases write_cases (List.length_pos_iff.1 more) fd with ⟨errno, answers, next, wrote⟩ |
          ⟨answers, next, wrote⟩ | ⟨k, fd₁, wrote, positive, le, accepted, tail, partly⟩
        · rw [wrote]
          by_cases interrupted : errno = .EINTR
          · simpa [interrupted] using again { fd with answers, errno } next rfl
          · simpa [interrupted] using fails { fd with answers, errno } next rfl interrupted
        · rw [wrote]
          by_cases interrupted : fd.errno = .EINTR
          · simpa [interrupted] using again { fd with answers } next rfl
          · simpa [interrupted] using fails { fd with answers } next rfl (Nat.lt_irrefl 0)
        · rw [wrote]
          have some_ : ¬ (k : Int) ≤ 0 := by omega
          simp only [if_neg some_, Int.toNat_natCast]
          have shorter : fd₁.answers.length + min (bufp.drop k).length 1 < rounds := by
            rw [tail, List.length_tail, List.length_drop]
            rcases Nat.lt_or_ge k bufp.length with less | _
            · have left : 0 < fd.answers.length := List.length_pos_iff.2 (partly less)
              omega
            · omega
          obtain ⟨rc, fd', ran, post⟩ := ih shorter
          have later : fd₁.answers ⊆ fd.answers := by
            rw [tail]
            exact fun _ => List.mem_of_mem_tail
          exact ⟨rc, fd', ran, post.step accepted le later⟩
      · obtain rfl : bufp = [] := by simpa using more
        rw [if_neg more]
        exact ⟨n, fd, rfl, List.Subset.refl _, .inl ⟨rfl, by simp⟩⟩

theorem rioWriten_runs (fd : Sink Char) (usrbuf : List Char) :
    ∃ rc fd', rioWriten fd usrbuf = some (rc, fd') ∧
      WritesOrFails usrbuf.length usrbuf fd rc fd' :=
  writenLoop_spec (by omega)

/-- A descriptor that only interrupts, or accepts some of the bytes. -/
theorem rioWriten_getsOver {fd : Sink Char} (passes : ∀ answer ∈ fd.answers, GetsOver answer)
    (usrbuf : List Char) :
    ∃ fd', rioWriten fd usrbuf = some ((usrbuf.length : Int), fd') ∧
      fd'.written = fd.written ++ usrbuf ∧ ∀ answer ∈ fd'.answers, GetsOver answer := by
  obtain ⟨rc, fd', ran, later, ⟨rfl, written⟩ | ⟨-, -, answer, member, stuck⟩⟩ :=
    rioWriten_runs fd usrbuf
  · exact ⟨fd', ran, written, fun answer member => passes answer (later member)⟩
  · exact absurd (passes answer member) stuck

/-- **`rio_writen` writes its bytes once each and in order, or returns -1.** It returns -1 only
after an answer that is no interruption, with fewer than all the bytes written; a descriptor
without such answers gets every byte, however few it accepts at a time. -/
theorem rioWriten_writes (fd : Sink Char) (usrbuf : List Char) :
    ∃ rc fd', rioWriten fd usrbuf = some (rc, fd') ∧
      ((rc = usrbuf.length ∧ fd'.written = fd.written ++ usrbuf) ∨
        (rc = -1 ∧ ∃ k < usrbuf.length, fd'.written = fd.written ++ usrbuf.take k)) ∧
      ((∀ answer ∈ fd.answers, GetsOver answer) → rc = usrbuf.length) := by
  obtain ⟨rc, fd', ran, -, ⟨all, written⟩ | ⟨failed, written, answer, member, stuck⟩⟩ :=
    rioWriten_runs fd usrbuf
  · exact ⟨rc, fd', ran, .inl ⟨all, written⟩, fun _ => all⟩
  · exact ⟨rc, fd', ran, .inr ⟨failed, written⟩, fun passes => absurd (passes answer member) stuck⟩

end CsappLab.Rio
