/-
# Rio.Buffered — `rio_read` and its callers

What a `rio_t` still has to give are the unread bytes of its buffer and then the items of
its descriptor (`RioT.items`). `rio_read` moves the buffer along them and never outside
`rio_buf` (`RioT.Ok`): `rioRead_cases` says what one call does. So `rio_readnb` is the plain
reader again, of bytes (`rioReadnb_runs`), and `rio_readlineb` of lines
(`rioReadlineb_runs`).
-/
import CsappLab.Rio.Unbuffered

namespace CsappLab.Rio

set_option autoImplicit false

open CsappLab.Lib

namespace RioT

/-- The bytes of the buffer that are not yet read. -/
def unread (rp : RioT) : List Char :=
  (rp.buf.toList.drop rp.bufptr).take rp.cnt.toNat

/-- What is still to be read: from the buffer, then from the descriptor. -/
def items (rp : RioT) : List (Item Char) :=
  rp.unread.map .element ++ Lib.items rp.fd

/-- The unread bytes lie within the buffer. -/
def Ok (rp : RioT) : Prop :=
  0 < rp.cnt → rp.bufptr + rp.cnt ≤ RIO_BUFSIZE

theorem unread_nil {rp : RioT} (empty : rp.cnt ≤ 0) : rp.unread = [] := by
  unfold unread
  rw [Int.toNat_of_nonpos empty, List.take_zero]

theorem items_of_empty {rp : RioT} (empty : rp.cnt ≤ 0) : rp.items = Lib.items rp.fd := by
  unfold items
  rw [unread_nil empty]
  rfl

theorem ok_of_empty {rp : RioT} (empty : rp.cnt ≤ 0) : rp.Ok := by
  intro full
  omega

theorem length_unread {rp : RioT} (ok : rp.Ok) : rp.unread.length = rp.cnt.toNat := by
  unfold unread
  rw [List.length_take, List.length_drop, Vector.length_toList]
  by_cases full : 0 < rp.cnt
  · have inside := ok full
    omega
  · omega

end RioT

theorem take_overwrite (buf : Vector Char RIO_BUFSIZE) {bytes : List Char}
    (fits : bytes.length ≤ RIO_BUFSIZE) :
    (overwrite buf bytes).toList.take bytes.length = bytes := by
  apply List.ext_getElem
  · rw [List.length_take, Vector.length_toList, Nat.min_eq_left fits]
  · intro i low high
    simp [overwrite, high]

/-! ## The buffer is filled -/

/-- How the loop of `rio_read` ends. -/
def Refilled (rp : RioT) : Refill → Prop
  | .filled rp' => rp'.Ok ∧ 0 < rp'.cnt ∧ rp'.items = rp.items
  | .returned rc rp' => rp'.cnt ≤ 0 ∧
      ((rc = -1 ∧ rp.items = .failure :: rp'.items) ∨
        (rc = 0 ∧ (rp.items = .endOfFile :: rp'.items ∨ rp.items = [] ∧ rp'.items = [])))

theorem refill_spec {rounds : Nat} {rp : RioT} (ok : rp.Ok) (enough : rp.fd.length + 1 < rounds) :
    ∃ result, refill rounds rp = some result ∧ Refilled rp result := by
  induction rounds generalizing rp with
  | zero => cases enough
  | succ rounds ih =>
      unfold refill
      by_cases empty : rp.cnt ≤ 0
      · rw [if_pos empty]
        have before := RioT.items_of_empty empty
        rcases read_cases (show 0 < RIO_BUFSIZE by decide) rp.fd with
          ⟨fd', answer, same, shorter⟩ | ⟨fd', answer, split⟩ | ⟨fd', answer, ended⟩ |
          ⟨as, fd', answer, nonempty, le, split, partly, notLonger⟩
        · rw [answer]
          let rp' : RioT := { rp with fd := fd', cnt := -1 }
          have none_ : rp'.cnt ≤ 0 := show (-1 : Int) ≤ 0 by decide
          obtain ⟨result, ran, post⟩ := ih (RioT.ok_of_empty none_)
            (show fd'.length + 1 < rounds by omega)
          have same' : rp'.items = rp.items := by
            rw [before, RioT.items_of_empty none_]
            exact same
          refine ⟨result, by simpa using ran, ?_⟩
          cases result <;> simpa only [Refilled, same'] using post
        · rw [answer]
          let rp' : RioT := { rp with fd := fd', cnt := -1 }
          have none_ : rp'.cnt ≤ 0 := show (-1 : Int) ≤ 0 by decide
          refine ⟨.returned (-1) rp', by simp [rp'], none_, .inl ⟨rfl, ?_⟩⟩
          rw [before, split, RioT.items_of_empty none_]
        · rw [answer]
          let rp' : RioT := { rp with fd := fd', cnt := 0, buf := overwrite rp.buf [] }
          have none_ : rp'.cnt ≤ 0 := show (0 : Int) ≤ 0 by decide
          refine ⟨.returned 0 rp', by simp [rp'], none_, .inr ⟨rfl, ?_⟩⟩
          rw [before, RioT.items_of_empty none_]
          exact ended
        · rw [answer]
          let rp' : RioT :=
            { fd := fd', cnt := as.length, bufptr := 0, buf := overwrite rp.buf as }
          have positive : 0 < as.length := List.length_pos_iff.2 nonempty
          have full : ¬ rp'.cnt ≤ 0 := show ¬ (as.length : Int) ≤ 0 by omega
          have some_ : (as.length : Int) ≠ 0 := by omega
          have unread : rp'.unread = as := take_overwrite rp.buf le
          obtain ⟨rounds, rfl⟩ : ∃ r, rounds = r + 1 := ⟨rounds - 1, by omega⟩
          refine ⟨.filled rp', ?_, ?_, by omega, ?_⟩
          · show (if (as.length : Int) = 0 then _ else refill (rounds + 1) rp') = _
            rw [if_neg some_, refill, if_neg full]
          · intro _
            show ((0 : Nat) : Int) + (as.length : Int) ≤ RIO_BUFSIZE
            omega
          · rw [before, split, RioT.items, unread]
      · rw [if_neg empty]
        exact ⟨_, rfl, ok, by omega, rfl⟩

/-- A count that fits in the buffer fits in an `int`. -/
theorem narrowInt_count {n : Nat} (fits : n ≤ RIO_BUFSIZE) : narrowInt n = n := by
  have small : (n : Int) ≤ 8192 := Int.ofNat_le.2 fits
  rcases narrowInt_cases n with ⟨-, eq⟩ | ⟨above, -⟩
  · rw [eq]
    omega
  · omega

/-- Bytes taken out of a buffer that holds some. -/
theorem take_unread {rp : RioT} (ok : rp.Ok) {k : Nat} (le : (k : Int) ≤ rp.cnt)
    (positive : 0 < k) :
    ∃ rp', rp.copy k = some (rp.unread.take k) ∧
      rp' = { rp with bufptr := rp.bufptr + k, cnt := rp.cnt - k } ∧ rp'.Ok ∧
      rp.items = (rp.unread.take k).map .element ++ rp'.items := by
  have inside : rp.bufptr + rp.cnt ≤ RIO_BUFSIZE := ok (by omega)
  refine ⟨{ rp with bufptr := rp.bufptr + k, cnt := rp.cnt - k }, ?_, rfl, ?_, ?_⟩
  · unfold RioT.copy RioT.unread
    rw [if_pos ⟨Int.natCast_nonneg k, by omega⟩, List.take_take, Int.toNat_natCast,
      Nat.min_eq_left (by omega)]
  · intro _
    show ((rp.bufptr + k : Nat) : Int) + (rp.cnt - k) ≤ RIO_BUFSIZE
    omega
  · have left : RioT.unread { rp with bufptr := rp.bufptr + k, cnt := rp.cnt - k } =
        rp.unread.drop k := by
      show (rp.buf.toList.drop (rp.bufptr + k)).take (rp.cnt - k).toNat = _
      rw [RioT.unread, List.drop_take, List.drop_drop]
      congr 1
      omega
    rw [RioT.items, RioT.items, left, ← List.append_assoc, ← List.map_append,
      List.take_append_drop]

/-- **What one call of `rio_read` does.** It fails; or the file ends; or it takes at least one
and at most `n` of the bytes that come next. It stays within the buffer. -/
theorem rioRead_cases {rp : RioT} (ok : rp.Ok) {n : Nat} (positive : 0 < n) :
    ∃ rp', rp'.Ok ∧
      ((rioRead rp n = some ⟨-1, [], rp'⟩ ∧ rp.items = .failure :: rp'.items) ∨
        (rioRead rp n = some ⟨0, [], rp'⟩ ∧
          (rp.items = .endOfFile :: rp'.items ∨ rp.items = [] ∧ rp'.items = [])) ∨
        ∃ as, rioRead rp n = some ⟨as.length, as, rp'⟩ ∧ as ≠ [] ∧ as.length ≤ n ∧
          rp.items = as.map .element ++ rp'.items) := by
  obtain ⟨result, ran, post⟩ := refill_spec ok (Nat.lt_succ_self _)
  unfold rioRead
  rw [ran]
  cases result with
  | returned rc rp' =>
      obtain ⟨empty, ⟨rfl, failed⟩ | ⟨rfl, ended⟩⟩ := post
      · exact ⟨rp', RioT.ok_of_empty empty, .inl ⟨rfl, failed⟩⟩
      · exact ⟨rp', RioT.ok_of_empty empty, .inr (.inl ⟨rfl, ended⟩)⟩
  | filled rp' =>
      obtain ⟨ok', full, same⟩ := post
      have inside : rp'.bufptr + rp'.cnt ≤ RIO_BUFSIZE := ok' full
      -- `cnt` is the smaller of the two counts
      obtain ⟨k, smaller, k_pos, le, le_n⟩ : ∃ k : Nat,
          (if rp'.cnt < n then rp'.cnt else narrowInt n) = k ∧ 0 < k ∧ (k : Int) ≤ rp'.cnt ∧
            k ≤ n := by
        by_cases less : rp'.cnt < n
        · exact ⟨rp'.cnt.toNat, by rw [if_pos less]; omega, by omega, by omega, by omega⟩
        · have fits : n ≤ RIO_BUFSIZE := by omega
          exact ⟨n, by rw [if_neg less, narrowInt_count fits], positive, by omega, Nat.le_refl n⟩
      obtain ⟨rp'', copied, rfl, ok'', split⟩ := take_unread ok' le k_pos
      have count : (rp'.unread.take k).length = k := by
        rw [List.length_take, RioT.length_unread ok']
        omega
      refine ⟨_, ok'', .inr (.inr ⟨rp'.unread.take k, ?_, ?_, by omega, same ▸ split⟩)⟩
      · show (rp'.copy (if rp'.cnt < n then rp'.cnt else narrowInt n)).bind _ = _
        rw [smaller, copied, count]
        rfl
      · exact List.ne_nil_of_length_pos (by omega)

/-! ## Bytes -/

theorem readnbLoop_spec {n rounds nleft : Nat} {usrbuf : List Char} {rp : RioT} (ok : rp.Ok)
    (count : usrbuf.length + nleft = n) (enough : nleft < rounds) :
    ∃ rp', readnbLoop n rounds nleft usrbuf rp =
        some ⟨rcOf ((takeUpTo nleft rp.items).after usrbuf),
          usrbuf ++ (takeUpTo nleft rp.items).elements, rp'⟩ ∧
      rp'.Ok ∧ rp'.items = (takeUpTo nleft rp.items).rest := by
  induction rounds generalizing nleft usrbuf rp with
  | zero => cases enough
  | succ rounds ih =>
      have stored : (n : Int) - nleft = usrbuf.length := by omega
      unfold readnbLoop
      by_cases more : 0 < nleft
      · rw [if_pos more]
        obtain ⟨rp', ok', ⟨ran, failed⟩ | ⟨ran, ended⟩ | ⟨as, ran, nonempty, le, split⟩⟩ :=
          rioRead_cases ok more
        · rw [ran, failed, takeUpTo, takeUntil_failed more]
          exact ⟨rp', by simp [rcOf, Taken.after], ok', rfl⟩
        · rw [ran, takeUpTo, takeUntil_ended more _ ended]
          exact ⟨rp', by simp [rcOf, Taken.after, stored], ok', rfl⟩
        · have positive : 0 < as.length := List.length_pos_iff.2 nonempty
          rw [ran, split, takeUpTo_append as le, Taken.after_after]
          have rest := ih ok'
            (show (usrbuf ++ as).length + (nleft - as.length) = n by rw [List.length_append]; omega)
            (show nleft - as.length < rounds by omega)
          have some_ : ¬ (as.length : Int) = 0 := by omega
          have notNegative : ¬ (as.length : Int) < 0 := by omega
          simp only [Option.bind_eq_bind, Option.bind_some, if_neg some_, if_neg notNegative,
            Int.toNat_natCast]
          simpa [Taken.after] using rest
      · obtain rfl : nleft = 0 := by omega
        rw [if_neg more]
        exact ⟨rp, by rw [stored]; simp [rcOf, Taken.after], ok, rfl⟩

/-- `rio_readnb` is the plain reader of bytes. -/
theorem rioReadnb_runs {rp : RioT} (ok : rp.Ok) (n : Nat) :
    ∃ rp', rioReadnb rp n =
        some ⟨rcOf (takeUpTo n rp.items), (takeUpTo n rp.items).elements, rp'⟩ ∧
      rp'.Ok ∧ rp'.items = (takeUpTo n rp.items).rest :=
  readnbLoop_spec ok (by simp) (Nat.lt_succ_self n)

/-! ## Lines -/

/-- The plain reader of lines: at most `maxlen - 1` bytes, up to and including a newline. -/
def takeLineUpTo (maxlen : Nat) (list : List (Item Char)) : Taken Char :=
  takeUntil (· = '\n') (maxlen - 1) list

/-- What `rio_readlineb` returns and stores: a NUL after the bytes, unless an error came, or
the end of the file before any byte. -/
def lineOf (t : Taken Char) : Int × List Char :=
  if t.stop = .failed then (-1, t.elements)
  else if t.stop = .ended ∧ t.elements = [] then (0, [])
  else (t.elements.length, t.elements ++ [NUL])

theorem readlinebLoop_spec {maxlen rounds : Nat} {usrbuf : List Char} {rp : RioT} (ok : rp.Ok)
    (fits : maxlen ≤ INT_MAX) (room : usrbuf.length ≤ maxlen)
    (enough : maxlen < rounds + usrbuf.length) :
    ∃ t rp', takeUntil (· = '\n') (maxlen - (usrbuf.length + 1)) rp.items = t ∧
      readlinebLoop maxlen rounds (usrbuf.length + 1) usrbuf rp =
        some ⟨(lineOf (t.after usrbuf)).1, (lineOf (t.after usrbuf)).2, rp'⟩ ∧
      rp'.Ok ∧ rp'.items = t.rest := by
  induction rounds generalizing usrbuf rp with
  | zero => omega
  | succ rounds ih =>
      have stored : ((usrbuf.length + 1 : Nat) : Int) - 1 = usrbuf.length := by omega
      unfold readlinebLoop
      by_cases more : usrbuf.length + 1 < maxlen
      · obtain ⟨left, count⟩ : ∃ left, maxlen - (usrbuf.length + 1) = left + 1 :=
          ⟨maxlen - (usrbuf.length + 1) - 1, by omega⟩
        rw [if_pos more, count]
        obtain ⟨rp', ok', ⟨ran, failed⟩ | ⟨ran, ended⟩ | ⟨as, ran, nonempty, le, split⟩⟩ :=
          rioRead_cases ok Nat.one_pos
        · refine ⟨_, rp', rfl, ?_, ok', ?_⟩
          · rw [ran, failed, takeUntil_failed (Nat.succ_pos left)]
            simp [lineOf, Taken.after]
          · rw [failed, takeUntil_failed (Nat.succ_pos left)]
        · refine ⟨_, rp', rfl, ?_, ok', ?_⟩
          · rw [ran, takeUntil_ended (Nat.succ_pos left) _ ended]
            cases usrbuf with
            | nil => simp [lineOf, Taken.after]
            | cons c cs =>
                simp [lineOf, Taken.after]
          · rw [takeUntil_ended (Nat.succ_pos left) _ ended]
        · obtain ⟨c, rfl⟩ : ∃ c, as = [c] := by
            have positive := List.length_pos_iff.2 nonempty
            exact List.length_eq_one_iff.1 (by omega)
          have next : increment (usrbuf.length + 1) = some (usrbuf.length + 1 + 1) :=
            if_pos (by omega)
          have taken : takeUntil (· = '\n') (left + 1) rp.items =
              if c = '\n' then ⟨[c], .full, rp'.items⟩
              else (takeUntil (· = '\n') left rp'.items).after [c] := by
            rw [split]
            simp [takeUntil]
          rw [ran, taken]
          have one : (([c].length : Nat) : Int) = 1 := rfl
          simp only [one, Option.bind_eq_bind, Option.bind_some, if_true, List.head?_cons, next]
          by_cases newline : c = '\n'
          · rw [if_pos newline, if_pos newline]
            refine ⟨_, rp', rfl, ?_, ok', rfl⟩
            simp [lineOf, Taken.after]
          · rw [if_neg newline, if_neg newline]
            have shorter : (usrbuf ++ [c]).length = usrbuf.length + 1 := by simp
            obtain ⟨t, rp'', rest, ran', ok'', items'⟩ := ih ok'
              (show (usrbuf ++ [c]).length ≤ maxlen by omega) (by omega)
            rw [shorter] at rest ran'
            have same : maxlen - (usrbuf.length + 1 + 1) = left := by omega
            rw [same] at rest
            refine ⟨_, rp'', rfl, ?_, ok'', ?_⟩
            · rw [ran', rest, Taken.after_after]
            · rw [rest, items']
              rfl
      · rw [if_neg more]
        have none_ : maxlen - (usrbuf.length + 1) = 0 := by omega
        rw [none_]
        refine ⟨_, rp, rfl, ?_, ok, rfl⟩
        rw [stored]
        simp [lineOf, Taken.after]

/-- `rio_readlineb` is the plain reader of lines. -/
theorem rioReadlineb_runs {rp : RioT} (ok : rp.Ok) {maxlen : Nat} (fits : maxlen ≤ INT_MAX) :
    ∃ rp', rioReadlineb rp maxlen =
        some ⟨(lineOf (takeLineUpTo maxlen rp.items)).1,
          (lineOf (takeLineUpTo maxlen rp.items)).2, rp'⟩ ∧
      rp'.Ok ∧ rp'.items = (takeLineUpTo maxlen rp.items).rest := by
  obtain ⟨t, rp', rfl, ran, ok', rest⟩ :=
    readlinebLoop_spec ok fits (show ([] : List Char).length ≤ maxlen from Nat.zero_le _)
      (Nat.lt_succ_self _)
  exact ⟨rp', ran, ok', rest⟩

end CsappLab.Rio
