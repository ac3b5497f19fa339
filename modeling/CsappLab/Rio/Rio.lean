/-
# Rio.Rio — the robust I/O functions

`rio_readn`, `rio_writen`, `rio_read`, `rio_readinitb`, `rio_readnb` and `rio_readlineb` of
`csapp.c`. A descriptor is a list of answers (`Lib.Delivery`), so that nothing is settled
about how many bytes a call of `read` or `write` moves and which signals arrive meanwhile.
A loop of the source is a function in a number of rounds that the descriptor and the count
bound; `none` is undefined behaviour or a loop that has run out of rounds.

What a function stores is listed from the start of `usrbuf` on. `size_t` is `Nat`: a count
of bytes in memory is far from its end.
-/
import CsappLab.Lib.CString
import CsappLab.Lib.Delivery

namespace CsappLab.Rio

set_option autoImplicit false

open CsappLab.Lib

def RIO_BUFSIZE : Nat := 8192

def INT_MAX : Nat := 2 ^ 31 - 1

/-- What a function returns, what it has stored in `usrbuf`, and what it leaves. -/
structure Returned (σ : Type) where
  rc : Int
  usrbuf : List Char
  state : σ

/-! ## Unbuffered -/

/-- The loop of `rio_readn`, with `nleft` of the `n` bytes to read. -/
def readnLoop (n : Nat) :
    Nat → Nat → List Char → Descriptor Char → Option (Returned (Descriptor Char))
  | 0, _, _, _ => none
  | rounds + 1, nleft, usrbuf, fd =>
      if 0 < nleft then
        match read nleft fd with
        | (.error errno, fd) =>
            if errno = .EINTR then readnLoop n rounds nleft usrbuf fd
            else some ⟨-1, usrbuf, fd⟩
        | (.arrived bytes, fd) =>
            if bytes.length = 0 then some ⟨n - nleft, usrbuf, fd⟩
            else readnLoop n rounds (nleft - bytes.length) (usrbuf ++ bytes) fd
      else some ⟨n - nleft, usrbuf, fd⟩

def rioReadn (fd : Descriptor Char) (n : Nat) : Option (Returned (Descriptor Char)) :=
  readnLoop n (fd.length + 2) n [] fd

/-- The loop of `rio_writen`, with the bytes at `bufp` to write. -/
def writenLoop (n : Nat) : Nat → List Char → Sink Char → Option (Int × Sink Char)
  | 0, _, _ => none
  | rounds + 1, bufp, fd =>
      if 0 < bufp.length then
        let (nwritten, fd) := write bufp fd
        if nwritten ≤ 0 then
          if fd.errno = .EINTR then writenLoop n rounds bufp fd
          else some (-1, fd)
        else writenLoop n rounds (bufp.drop nwritten.toNat) fd
      else some (n, fd)

/-- `rio_writen(fd, usrbuf, n)`, where `usrbuf` holds `n` bytes. -/
def rioWriten (fd : Sink Char) (usrbuf : List Char) : Option (Int × Sink Char) :=
  writenLoop usrbuf.length (fd.answers.length + 2) usrbuf fd

/-! ## Buffered -/

/-- `rio_t`. The pointer `rio_bufptr` is an offset into `rio_buf`. -/
structure RioT where
  fd : Descriptor Char
  cnt : Int
  bufptr : Nat
  buf : Vector Char RIO_BUFSIZE

def rioReadinitb (rp : RioT) (fd : Descriptor Char) : RioT :=
  { rp with fd, cnt := 0, bufptr := 0 }

/-- `buf` after bytes are stored from its start on. -/
def overwrite (buf : Vector Char RIO_BUFSIZE) (bytes : List Char) : Vector Char RIO_BUFSIZE :=
  .ofFn fun i => bytes.getD i buf[i]

/-- What `memcpy` takes from `bufptr` on, if it stays within the buffer. -/
def RioT.copy (rp : RioT) (cnt : Int) : Option (List Char) :=
  if 0 ≤ cnt ∧ rp.bufptr + cnt ≤ RIO_BUFSIZE then
    some ((rp.buf.toList.drop rp.bufptr).take cnt.toNat)
  else none

/-- How the loop of `rio_read` ends: with bytes in the buffer, or by returning. -/
inductive Refill where
  | filled (rp : RioT)
  | returned (rc : Int) (rp : RioT)

/-- `while (rp->rio_cnt <= 0)`. -/
def refill : Nat → RioT → Option Refill
  | 0, _ => none
  | rounds + 1, rp =>
      if rp.cnt ≤ 0 then
        match read RIO_BUFSIZE rp.fd with
        | (.error errno, fd) =>
            let rp := { rp with fd, cnt := -1 }
            if errno ≠ .EINTR then some (.returned (-1) rp)
            else refill rounds rp
        | (.arrived bytes, fd) =>
            let rp := { rp with fd, cnt := bytes.length, buf := overwrite rp.buf bytes }
            if rp.cnt = 0 then some (.returned 0 rp)
            else refill rounds { rp with bufptr := 0 }
      else some (.filled rp)

def rioRead (rp : RioT) (n : Nat) : Option (Returned RioT) := do
  match ← refill (rp.fd.length + 2) rp with
  | .returned rc rp => some ⟨rc, [], rp⟩
  | .filled rp => do
      let cnt := narrowInt n
      let cnt := if rp.cnt < n then rp.cnt else cnt
      let bytes ← rp.copy cnt
      some ⟨cnt, bytes, { rp with bufptr := rp.bufptr + cnt.toNat, cnt := rp.cnt - cnt }⟩

/-- The loop of `rio_readnb`, with `nleft` of the `n` bytes to read. -/
def readnbLoop (n : Nat) : Nat → Nat → List Char → RioT → Option (Returned RioT)
  | 0, _, _, _ => none
  | rounds + 1, nleft, usrbuf, rp =>
      if 0 < nleft then do
        let ⟨nread, bytes, rp⟩ ← rioRead rp nleft
        if nread < 0 then some ⟨-1, usrbuf, rp⟩
        else if nread = 0 then some ⟨n - nleft, usrbuf, rp⟩
        else readnbLoop n rounds (nleft - nread.toNat) (usrbuf ++ bytes) rp
      else some ⟨n - nleft, usrbuf, rp⟩

def rioReadnb (rp : RioT) (n : Nat) : Option (Returned RioT) :=
  readnbLoop n (n + 1) n [] rp

/-- `n++` of an `int`. -/
def increment (n : Nat) : Option Nat :=
  if n < INT_MAX then some (n + 1) else none

/-- `for (n = 1; n < maxlen; n++)`, and what follows it. -/
def readlinebLoop (maxlen : Nat) : Nat → Nat → List Char → RioT → Option (Returned RioT)
  | 0, _, _, _ => none
  | rounds + 1, n, usrbuf, rp =>
      if n < maxlen then do
        let ⟨rc, bytes, rp⟩ ← rioRead rp 1
        if rc = 1 then do
          let c ← bytes.head?
          let n ← increment n
          if c = '\n' then some ⟨n - 1, usrbuf ++ [c] ++ [NUL], rp⟩
          else readlinebLoop maxlen rounds n (usrbuf ++ [c]) rp
        else if rc = 0 then
          if n = 1 then some ⟨0, usrbuf, rp⟩
          else some ⟨n - 1, usrbuf ++ [NUL], rp⟩
        else some ⟨-1, usrbuf, rp⟩
      else some ⟨n - 1, usrbuf ++ [NUL], rp⟩

def rioReadlineb (rp : RioT) (maxlen : Nat) : Option (Returned RioT) :=
  readlinebLoop maxlen (maxlen + 1) 1 [] rp

end CsappLab.Rio
