/-
# Trans.Trans — the transpose functions

`transpose_submit`, `my_trans` and `my_trans64x64` of `trans.c`, and `correctTrans`
of `cachelab.c`, over any type of elements. A loop of the source is a `forInt`, and
a loop body that a later lemma speaks about has a definition of its own.

`none` is undefined behaviour: an index outside its array, an `int` that overflows,
a cell of `tmpDiagData` that is used without a value. `tmpDiagData` is filled and
used up by one row or column pass after the other; a cell counts as without a
value when the pass has not written it, whatever an earlier pass left there. `written`
keeps track of that and is no memory of the program's. `accesses` lists the elements
of `A` and `B` that are read and written, in program order.
-/
import CsappLab.Lib.Grid
import CsappLab.Lib.Loop
import Mathlib.Algebra.Group.Nat.Defs
import Mathlib.Logic.Function.Basic

namespace CsappLab.Trans

set_option autoImplicit false

open CsappLab.Lib

def INT_MAX : Nat := 2 ^ 31 - 1

/-- `a + b` of two `int`. -/
def addInt (a b : Nat) : Option Nat :=
  if a + b ≤ INT_MAX then some (a + b) else none

/-- `a - b` of two `int` that is an index; none is negative. -/
def subInt (a b : Nat) : Option Nat :=
  if b ≤ a then some (a - b) else none

inductive Matrix where
  | A
  | B
  deriving DecidableEq, Repr

/-- An element of a matrix that is read or written. -/
structure Access where
  matrix : Matrix
  row : Nat
  col : Nat
  deriving DecidableEq, Repr

structure Mem (α : Type) where
  A : Nat → Nat → α
  B : Nat → Nat → α
  tmpDiagData : Nat → α
  written : Nat → Bool
  accesses : List Access

section

variable {α : Type} (M N : Nat)

namespace Mem

/-- `A[row][col]`, of `int A[N][M]`. -/
def readA (m : Mem α) (row col : Nat) : Option (α × Mem α) :=
  if row < N ∧ col < M then
    some (m.A row col, { m with accesses := m.accesses ++ [⟨.A, row, col⟩] })
  else none

/-- `B[row][col]`, of `int B[M][N]`. -/
def readB (m : Mem α) (row col : Nat) : Option (α × Mem α) :=
  if row < M ∧ col < N then
    some (m.B row col, { m with accesses := m.accesses ++ [⟨.B, row, col⟩] })
  else none

/-- `B[row][col] = x`. -/
def writeB (m : Mem α) (row col : Nat) (x : α) : Option (Mem α) :=
  if row < M ∧ col < N then
    some { m with
      B := Grid.set m.B row col x
      accesses := m.accesses ++ [⟨.B, row, col⟩] }
  else none

/-- `tmpDiagData[k]`, of `int tmpDiagData[8]`. -/
def readTmp (m : Mem α) (k : Nat) : Option α :=
  if k < 8 ∧ m.written k then some (m.tmpDiagData k) else none

/-- `tmpDiagData[k] = x`. -/
def writeTmp (m : Mem α) (k : Nat) (x : α) : Option (Mem α) :=
  if k < 8 then
    some { m with
      tmpDiagData := Function.update m.tmpDiagData k x
      written := Function.update m.written k true }
  else none

/-- A row or column pass begins. -/
def beginPass (m : Mem α) : Mem α :=
  { m with written := fun _ => false }

end Mem

/-- `for (i = lo; i < hi; i += step)`. -/
def forInt (lo hi step : Nat) (body : Nat → Mem α → Option (Flow (Mem α))) (m : Mem α) :
    Option (Mem α) :=
  forLoop (addInt · step) lo hi body m

/-! ## `my_trans` -/

def splitBlockRowNum : Nat := 8
def splitBlockColElemNum : Nat := 8

/-- A row of the block into `tmpDiagData`. -/
def loadRow (baseRowIdx baseColIdx i j : Nat) (m : Mem α) : Option (Flow (Mem α)) := do
  let col ← addInt baseColIdx j
  if col < M then do
    let row ← addInt baseRowIdx i
    let (x, m) ← m.readA M N row col
    let m ← m.writeTmp j x
    some (.next m)
  else some (.stop m)

/-- `tmpDiagData` into a column of `B`. -/
def storeColumn (baseRowIdx baseColIdx i j : Nat) (m : Mem α) : Option (Flow (Mem α)) := do
  let row ← addInt baseColIdx j
  if row < M then do
    let col ← addInt baseRowIdx i
    let x ← m.readTmp j
    let m ← m.writeB M N row col x
    some (.next m)
  else some (.stop m)

/-- The pass of row `baseRowIdx + i`. -/
def rowPass (baseRowIdx baseColIdx i : Nat) (m : Mem α) : Option (Flow (Mem α)) := do
  let row ← addInt baseRowIdx i
  if row < N then do
    let m ← forInt 0 splitBlockColElemNum 1 (loadRow M N baseRowIdx baseColIdx i) m.beginPass
    let m ← forInt 0 splitBlockColElemNum 1 (storeColumn M N baseRowIdx baseColIdx i) m
    some (.next m)
  else some (.stop m)

def transBlock (baseRowIdx baseColIdx : Nat) (m : Mem α) : Option (Mem α) :=
  forInt 0 splitBlockRowNum 1 (rowPass M N baseRowIdx baseColIdx) m

/-- `my_trans`. -/
def myTrans (m : Mem α) : Option (Mem α) :=
  forInt 0 N splitBlockRowNum (always fun baseRowIdx =>
    forInt 0 M splitBlockColElemNum (always fun baseColIdx =>
      transBlock M N baseRowIdx baseColIdx)) m

/-! ## `my_trans64x64` -/

/-- `tmpDiagData[j] = A[baseRowIdx + i][baseColIdx + j]`. -/
def loadA (baseRowIdx baseColIdx i j k : Nat) (m : Mem α) : Option (Mem α) := do
  let row ← addInt baseRowIdx i
  let col ← addInt baseColIdx j
  let (x, m) ← m.readA M N row col
  m.writeTmp k x

/-- `B[baseColIdx + j][baseRowIdx + i] = tmpDiagData[k]`. -/
def storeB (baseRowIdx baseColIdx i j k : Nat) (m : Mem α) : Option (Mem α) := do
  let row ← addInt baseColIdx j
  let col ← addInt baseRowIdx i
  let x ← m.readTmp k
  m.writeB M N row col x

/-- `B[baseColIdx + j - 4][baseRowIdx + i + 4] = tmpDiagData[j]`: the upper right
quarter is parked in the upper right quarter of `B`. -/
def park (baseRowIdx baseColIdx i j : Nat) (m : Mem α) : Option (Mem α) := do
  let row ← addInt baseColIdx j
  let row ← subInt row 4
  let col ← addInt baseRowIdx i
  let col ← addInt col 4
  let x ← m.readTmp j
  m.writeB M N row col x

/-- Upper part of the block: the pass of row `baseRowIdx + i`. -/
def upperPass (baseRowIdx baseColIdx i : Nat) (m : Mem α) : Option (Mem α) := do
  let m ← forInt 0 4 1 (always fun j => loadA M N baseRowIdx baseColIdx i j j) m.beginPass
  let m ← forInt 0 4 1 (always fun j => storeB M N baseRowIdx baseColIdx i j j) m
  let m ← forInt 4 8 1 (always fun j => loadA M N baseRowIdx baseColIdx i j j) m
  forInt 4 8 1 (always fun j => park M N baseRowIdx baseColIdx i j) m

/-- `tmpDiagData[i] = B[baseColIdx + j][baseRowIdx + i]`, and `A`'s element in its place. -/
def exchange (baseRowIdx baseColIdx j i : Nat) (m : Mem α) : Option (Mem α) := do
  let row ← addInt baseColIdx j
  let col ← addInt baseRowIdx i
  let (x, m) ← m.readB M N row col
  let m ← m.writeTmp i x
  let (x, m) ← m.readA M N col row
  m.writeB M N row col x

/-- `B[baseColIdx + j + 4][baseRowIdx + i - 4] = tmpDiagData[i]`. -/
def unpark (baseRowIdx baseColIdx j i : Nat) (m : Mem α) : Option (Mem α) := do
  let row ← addInt baseColIdx j
  let row ← addInt row 4
  let col ← addInt baseRowIdx i
  let col ← subInt col 4
  let x ← m.readTmp i
  m.writeB M N row col x

/-- Lower left part of the block: the pass of column `baseColIdx + j`. -/
def lowerLeftPass (baseRowIdx baseColIdx j : Nat) (m : Mem α) : Option (Mem α) := do
  let m ← forInt 4 8 1 (always (exchange M N baseRowIdx baseColIdx j)) m.beginPass
  forInt 4 8 1 (always (unpark M N baseRowIdx baseColIdx j)) m

/-- Lower right part of the block: the pass of column `baseColIdx + j`. -/
def lowerRightPass (baseRowIdx baseColIdx j : Nat) (m : Mem α) : Option (Mem α) := do
  let m ← forInt 4 8 1 (always fun i => loadA M N baseRowIdx baseColIdx i j i) m.beginPass
  forInt 4 8 1 (always fun i => storeB M N baseRowIdx baseColIdx i j i) m

def trans64Block (baseRowIdx baseColIdx : Nat) (m : Mem α) : Option (Mem α) := do
  let m ← forInt 0 4 1 (always (upperPass M N baseRowIdx baseColIdx)) m
  let m ← forInt 0 4 1 (always (lowerLeftPass M N baseRowIdx baseColIdx)) m
  forInt 4 8 1 (always (lowerRightPass M N baseRowIdx baseColIdx)) m

/-- `my_trans64x64`. -/
def myTrans64x64 (m : Mem α) : Option (Mem α) :=
  forInt 0 N splitBlockRowNum (always fun baseRowIdx =>
    forInt 0 M splitBlockColElemNum (always fun baseColIdx =>
      trans64Block M N baseRowIdx baseColIdx)) m

/-! ## The functions that are called -/

/-- `transpose_submit`. -/
def transposeSubmit (m : Mem α) : Option (Mem α) :=
  if M = 64 ∧ N = 64 then myTrans64x64 M N m else myTrans M N m

/-- `tmp = A[i][j]; B[j][i] = tmp`. -/
def copyElement (i j : Nat) (m : Mem α) : Option (Mem α) := do
  let (tmp, m) ← m.readA M N i j
  m.writeB M N j i tmp

/-- `correctTrans`. -/
def correctTrans (m : Mem α) : Option (Mem α) :=
  forInt 0 N 1 (always fun i => forInt 0 M 1 (always fun j => copyElement M N i j)) m

end

end CsappLab.Trans
