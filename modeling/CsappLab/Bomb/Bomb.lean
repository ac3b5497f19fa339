/-
# Bomb.Bomb — the phases of the bomb

The functions of `bomb.s` that decide whether a line defuses a phase, and the data
they read from the program file. Registers are words; a branch compares as the jump
does, signed for `jl`, `jle`, `jg`, `jge` and unsigned for `ja`, `jbe`. A text is the
list of its characters before the NUL, an array of `int`s on the stack a list.

`explode_bomb` does not return: a phase gives `Halt.exploded`. A `Halt.fault` is an
access to memory that holds nothing, or a stack that has run over: recursive calls are
counted, and so are the rounds of the one loop that has no bound of its own.
-/
import CsappLab.Lib.CString
import CsappLab.Lib.Relink
import Mathlib

namespace CsappLab.Bomb

set_option autoImplicit false

open CsappLab.Lib

/-- How a phase ends that does not return. -/
inductive Halt where
  | exploded
  | fault
  deriving DecidableEq, Repr

/-- A test before `callq explode_bomb`. -/
def explodeIf (c : Prop) [Decidable c] : Except Halt Unit :=
  if c then .error .exploded else .ok ()

def orFault {α : Type} : Option α → Except Halt α
  | none => .error .fault
  | some a => .ok a

/-! ## Texts -/

/-- `string_length`: the difference of two pointers, in 32 bits. -/
def stringLength : List Char → BitVec 32
  | [] => 0
  | _ :: s => stringLength s + 1

/-- The loop of `strings_not_equal`. -/
def differ : List Char → List Char → BitVec 32
  | [], _ => 0
  | _ :: _, [] => 1
  | c :: s, d :: t => if c = d then differ s t else 1

def stringsNotEqual (s t : List Char) : BitVec 32 :=
  if stringLength s ≠ stringLength t then 1 else differ s t

/-- `sscanf` with `%d` so many times: the numbers it stores. It returns how many, or -1
at the end of the text, which is less than any number tested for. -/
def sscanf : Nat → List Char → List (BitVec 32)
  | 0, _ => []
  | n + 1, s =>
      match scanNumber 10 s with
      | none => []
      | some (_, _, stored) => BitVec.ofInt 32 (strtol 10 s).1 :: sscanf n (s.drop stored)

def readSixNumbers (input : List Char) : Except Halt (List (BitVec 32)) := do
  let numbers := sscanf 6 input
  explodeIf (numbers.length ≤ 5)
  return numbers

/-! ## `phase_1` to `phase_5` -/

def phase1 (input : List Char) : Except Halt Unit :=
  explodeIf
    (stringsNotEqual input "Border relations with Canada have never been better.".toList ≠ 0)

/-- The loop of `phase_2`: each number is twice the one before it. -/
def doubles : BitVec 32 → List (BitVec 32) → Except Halt Unit
  | _, [] => .ok ()
  | before, number :: numbers => do
      explodeIf (number ≠ before + before)
      doubles number numbers

def phase2 (input : List Char) : Except Halt Unit := do
  match ← readSixNumbers input with
  | [] => .error .fault
  | first :: numbers =>
      explodeIf (first ≠ 1)
      doubles first numbers

/-- The jump table of `phase_3` at 0x402470. -/
def jumpTable : List Nat :=
  [0x400f7c, 0x400fb9, 0x400f83, 0x400f8a, 0x400f91, 0x400f98, 0x400f9f, 0x400fa6]

/-- The constant that is moved to `%eax` where `phase_3` jumps to. -/
def caseAt : Nat → Option (BitVec 32)
  | 0x400f7c => some 0xcf
  | 0x400f83 => some 0x2c3
  | 0x400f8a => some 0x100
  | 0x400f91 => some 0x185
  | 0x400f98 => some 0xce
  | 0x400f9f => some 0x2aa
  | 0x400fa6 => some 0x147
  | 0x400fb9 => some 0x137
  | _ => none

def phase3 (input : List Char) : Except Halt Unit :=
  match sscanf 2 input with
  | [x, y] => do
      explodeIf ((7 : BitVec 32).ult x)
      let eax ← orFault ((jumpTable[x.toNat]?).bind caseAt)
      explodeIf (eax ≠ y)
  | _ => .error .exploded

/-- `func4`, with at most so many calls inside each other. -/
def func4 : Nat → BitVec 32 → BitVec 32 → BitVec 32 → Option (BitVec 32)
  | 0, _, _, _ => none
  | calls + 1, edi, esi, edx =>
      let eax := edx - esi
      let eax := (eax + eax >>> 31).sshiftRight 1
      let ecx := eax + esi
      if edi.slt ecx then (func4 calls edi esi (ecx - 1)).map fun eax => eax + eax
      else if ecx.slt edi then (func4 calls edi (ecx + 1) edx).map fun eax => eax + eax + 1
      else some 0

def phase4 (input : List Char) : Except Halt Unit :=
  match sscanf 2 input with
  | [x, y] => do
      explodeIf ((0xe : BitVec 32).ult x)
      let eax ← orFault (func4 32 x 0 0xe)
      explodeIf (eax ≠ 0)
      explodeIf (y ≠ 0)
  | _ => .error .exploded

/-- The bytes at 0x4024b0. -/
def letters : List Char := "maduiersnfotvbyl".toList

def phase5 (input : List Char) : Except Halt Unit := do
  explodeIf (stringLength input ≠ 6)
  let word ← orFault ((input.take 6).mapM fun c => letters[c.toNat % 16]?)
  explodeIf (stringsNotEqual word "flyers".toList ≠ 0)

/-! ## `phase_6` -/

/-- Nodes of 16 bytes with an `int` and a pointer at offset 8. -/
abbrev Nodes : Type := Links (BitVec 64) (BitVec 32)

/-- The inner loop that looks for `number` among the ones after it. -/
def repeated (number : BitVec 32) : List (BitVec 32) → Except Halt Unit
  | [] => .ok ()
  | other :: numbers => do
      explodeIf (number = other)
      repeated number numbers

/-- The loop over the numbers: each is one of 1 to 6 and not repeated. -/
def checkNumbers : List (BitVec 32) → Except Halt Unit
  | [] => .ok ()
  | number :: numbers => do
      explodeIf ((5 : BitVec 32).ult (number - 1))
      repeated number numbers
      checkNumbers numbers

/-- `rdx = rdx->next; eax++` until `%eax` is `%ecx`, in at most so many rounds. -/
def follow (nodes : Nodes) (ecx : BitVec 32) : Nat → BitVec 32 → BitVec 64 → Option (BitVec 64)
  | 0, _, _ => none
  | rounds + 1, eax, rdx => do
      let rdx ← nodes.next rdx
      if eax + 1 = ecx then some rdx else follow nodes ecx rounds (eax + 1) rdx

/-- The node with the number `ecx`. -/
def nodeOf (nodes : Nodes) (node1 : BitVec 64) (ecx : BitVec 32) : Option (BitVec 64) :=
  if (1 : BitVec 32).slt ecx then follow nodes ecx ecx.toNat 1 node1 else some node1

/-- The loop over the relinked nodes: no value is less than the one after it. -/
def descends (nodes : Nodes) : Nat → BitVec 64 → Except Halt Unit
  | 0, _ => .ok ()
  | ebp + 1, rbx => do
      let rax ← orFault (nodes.next rbx)
      let eax ← orFault (nodes.value rax)
      let value ← orFault (nodes.value rbx)
      explodeIf (value.slt eax)
      descends nodes ebp rax

/-- `phase_6` on six numbers and the list that starts at `node1`. It leaves the list
relinked. -/
def phase6On (nodes : Nodes) (node1 : BitVec 64) (numbers : List (BitVec 32)) :
    Except Halt Nodes := do
  checkNumbers numbers
  match ← orFault ((numbers.map (7 - ·)).mapM (nodeOf nodes node1)) with
  | [] => .error .fault
  | rbx :: pointers =>
      let nodes ← orFault (Links.relink 0 rbx pointers nodes)
      descends nodes 5 rbx
      return nodes

/-- The nodes at 0x6032d0 to 0x603320. -/
def nodeData (p : BitVec 64) : Option (BitVec 32 × BitVec 64) :=
  if p = 0x6032d0 then some (0x14c, 0x6032e0)
  else if p = 0x6032e0 then some (0xa8, 0x6032f0)
  else if p = 0x6032f0 then some (0x39c, 0x603300)
  else if p = 0x603300 then some (0x2b3, 0x603310)
  else if p = 0x603310 then some (0x1dd, 0x603320)
  else if p = 0x603320 then some (0x1bb, 0)
  else none

def phase6 (input : List Char) : Except Halt Nodes := do
  let numbers ← readSixNumbers input
  phase6On nodeData 0x6032d0 numbers

/-! ## `secret_phase` -/

/-- Nodes with an `int` and pointers at offsets 8 and 16. -/
structure TreeNode where
  key : BitVec 32
  left : BitVec 64
  right : BitVec 64

abbrev TreeNodes : Type := BitVec 64 → Option TreeNode

/-- `fun7`, with at most so many calls inside each other. -/
def fun7 (nodes : TreeNodes) : Nat → BitVec 64 → BitVec 32 → Option (BitVec 32)
  | 0, _, _ => none
  | calls + 1, rdi, esi =>
      if rdi = 0 then some 0xffffffff
      else do
        let node ← nodes rdi
        if esi.slt node.key then (fun7 nodes calls node.left esi).map fun eax => eax + eax
        else if node.key = esi then some 0
        else (fun7 nodes calls node.right esi).map fun eax => eax + eax + 1

/-- The nodes at 0x6030f0 to 0x6032b0. -/
def treeData (p : BitVec 64) : Option TreeNode :=
  if p = 0x6030f0 then some ⟨0x24, 0x603110, 0x603130⟩
  else if p = 0x603110 then some ⟨0x8, 0x603190, 0x603150⟩
  else if p = 0x603130 then some ⟨0x32, 0x603170, 0x6031b0⟩
  else if p = 0x603150 then some ⟨0x16, 0x603270, 0x603230⟩
  else if p = 0x603170 then some ⟨0x2d, 0x6031d0, 0x603290⟩
  else if p = 0x603190 then some ⟨0x6, 0x6031f0, 0x603250⟩
  else if p = 0x6031b0 then some ⟨0x6b, 0x603210, 0x6032b0⟩
  else if p = 0x6031d0 then some ⟨0x28, 0, 0⟩
  else if p = 0x6031f0 then some ⟨0x1, 0, 0⟩
  else if p = 0x603210 then some ⟨0x63, 0, 0⟩
  else if p = 0x603230 then some ⟨0x23, 0, 0⟩
  else if p = 0x603250 then some ⟨0x7, 0, 0⟩
  else if p = 0x603270 then some ⟨0x14, 0, 0⟩
  else if p = 0x603290 then some ⟨0x2f, 0, 0⟩
  else if p = 0x6032b0 then some ⟨0x3e9, 0, 0⟩
  else none

/-- `secret_phase` on the line it reads. -/
def secretPhase (input : List Char) : Except Halt Unit := do
  let number := BitVec.ofInt 32 (strtol 10 input).1
  explodeIf ((0x3e8 : BitVec 32).ult (number - 1))
  let eax ← orFault (fun7 treeData 32 0x6030f0 number)
  explodeIf (eax ≠ 2)

end CsappLab.Bomb
