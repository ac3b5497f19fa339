/-
# Tsh.Parseline — the command line scanner

`parseline` copies the command line into its static array, replaces the last
character by a space, and cuts the array into words in place: a word runs to the
next space, or to the next single quote when it starts with one, and the
delimiter that ends it is overwritten with NUL. Words are kept as offsets into
the array, the way `argv` keeps pointers into it, and are read back only after
the scan is over.

Every access checks its bound: an index outside the `MAXLINE` bytes of the
array, the store at index `strlen - 1` of an empty line, or a word past the
`MAXARGS` entries of `argv` makes the result `none`.
-/
import CsappLab.Lib.CString

namespace CsappLab.Tsh

set_option autoImplicit false

open CsappLab.Lib

/-- `MAXLINE`: max line size. -/
abbrev MAXLINE : Nat := 1024

/-- `MAXARGS`: max args on a command line. -/
abbrev MAXARGS : Nat := 128

namespace Parseline

/-- Store one byte of the array. -/
def put (array : List Char) (i : Nat) (c : Char) : Option (List Char) :=
  if i < array.length then some (array.set i c) else none

/-- `strcpy(buf, cmdline)`, with the terminating NUL. -/
def strcpy (array cmdline : List Char) : Option (List Char) :=
  let src := cString cmdline ++ [NUL]
  if src.length ≤ array.length then some (src ++ array.drop src.length) else none

/-- `strlen` of the string at offset `i`; `none` if no NUL follows. -/
def strlen (array : List Char) (i : Nat) : Option Nat :=
  (array.drop i).findIdx? (· = NUL)

/-- `while (*buf && (*buf == ' ')) buf++;` -/
def skipSpaces (array : List Char) (i : Nat) : Nat :=
  i + ((array.drop i).takeWhile (· = ' ')).length

/-- `strchr(buf, c)`: the outer `none` is a scan that runs off the array. -/
def strchr (array : List Char) (i : Nat) (c : Char) : Option (Option Nat) :=
  match (array.drop i).findIdx? fun x => x = c ∨ x = NUL with
  | none => none
  | some k => if array[i + k]? = some c then some (some (i + k)) else some none

/-- The start of a word and its delimiter: a quoted word starts after its quote. -/
def findDelim (array : List Char) (buf : Nat) : Option (Nat × Option Nat) :=
  if array[buf]? = some '\'' then
    (strchr array (buf + 1) '\'').map fun delim => (buf + 1, delim)
  else (strchr array buf ' ').map fun delim => (buf, delim)

/-- `while (delim)`: store the word, cut it, and look for the next one. Each turn
moves `buf` forward, so the length of the array bounds the number of turns. -/
def loop : Nat → List Char → List Nat → Nat → Option Nat → Option (List Char × List Nat)
  | _, array, argv, _, none => some (array, argv)
  | 0, _, _, _, some _ => none
  | fuel + 1, array, argv, buf, some delim =>
      if argv.length < MAXARGS then
        (put array delim NUL).bind fun array =>
          (findDelim array (skipSpaces array (delim + 1))).bind fun next =>
            loop fuel array (argv ++ [buf]) next.1 next.2
      else none

/-- Read the words back from the array. -/
def words (array : List Char) (argv : List Nat) : List (List Char) :=
  argv.map fun i => cString (array.drop i)

end Parseline

open Parseline in
/-- `parseline` with `array` left in its static buffer: the words of a command line
and whether a background job is requested. A blank line has no words and gives true. -/
def parselineIn (array cmdline : List Char) : Option (List (List Char) × Bool) := do
  let array ← strcpy array cmdline
  let len ← strlen array 0
  let array ← if len = 0 then none else put array (len - 1) ' '
  let first ← findDelim array (skipSpaces array 0)
  let (array, argv) ← loop MAXLINE array [] first.1 first.2
  -- `argv[argc] = NULL`
  if MAXARGS ≤ argv.length then none
  else
    let ws := words array argv
    match ws.getLast? with
    | none => some ([], true)
    | some w => if w.head? = some '&' then some (ws.dropLast, true) else some (ws, false)

/-- `parseline` in a buffer that still holds its initial zeros. What earlier lines
left there makes no difference (`parselineIn_eq_parseline`). -/
def parseline (cmdline : List Char) : Option (List (List Char) × Bool) :=
  parselineIn (List.replicate MAXLINE NUL) cmdline

end CsappLab.Tsh
