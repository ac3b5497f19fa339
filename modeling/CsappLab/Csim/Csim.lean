/-
# Csim.Csim — the read loop of the simulator

`main` of `csim.c` from `cacheInitialize` on: a line is read and cut into tokens, the
cache is called, and the callbacks count. `optarg` is what the options left in
it, null or a place in an argument; the read loop compares it with the end
pointer of `strtoul`, which is a place in `textLine`.

`calls` lists the addresses that `cacheProcess` has been called with, and `out`
what has been printed. The program is `stopped` when `exit` is called or `main`
returns early.
-/
import CsappLab.Cache.Cache
import CsappLab.Lib.CString

namespace CsappLab.Csim

set_option autoImplicit false

open CsappLab.Lib CsappLab.Cache

def MAX_LINE_LEN : Nat := 100

/-- The delimiters of the tokens. -/
def delims : List Char := [' ', ',']

/-- The places that the read loop compares. -/
inductive Ptr where
  | null
  | argv (arg off : Nat)
  | textLine (off : Nat)
  deriving DecidableEq, Repr

/-- `optarg`. -/
inductive OptArg where
  | null
  | argv (arg off : Nat)
  deriving DecidableEq, Repr

def OptArg.ptr : OptArg → Ptr
  | .null => .null
  | .argv arg off => .argv arg off

/-- `memOpInfo_t`; `memOpType` is the character it is cast from. -/
structure MemOpInfo where
  memOpType : Char
  addr : BitVec 64
  size : BitVec 8
  deriving DecidableEq, Repr

/-- What is printed. -/
inductive Out where
  | verbose (currLine : List Char) (missMsg evictionMsg hitMsg : String)
  | message (text : String)
  | summary (hits misses evictions : Int)
  deriving DecidableEq, Repr

structure Sim where
  memOpInfo : MemOpInfo
  missFlag : Bool
  hitFlag : Bool
  evictionFlag : Bool
  missCnt : BitVec 32
  hitCnt : BitVec 32
  evictionCnt : BitVec 32
  mem : Mem
  calls : List (BitVec 64)
  out : List Out

/-- Where a part of the loop body leaves the program. -/
inductive Step where
  | next (st : Sim)
  | stopped (st : Sim)

/-! ## Tokens -/

/-- The messages of the token loop. -/
def addressText : String := "**Invalid Address.**\n"

def sizeText : String := "**Invalid size.**\n"

/-- One round of the token loop: the token counter and `memOpInfo` after it, or the text
of an error. -/
def takeToken (optarg : OptArg) (tokenCnt : BitVec 8) (pToken : Token) (memOpInfo : MemOpInfo) :
    Except String (BitVec 8 × MemOpInfo) :=
  if tokenCnt = 1 then
    .ok (tokenCnt + 1, { memOpInfo with memOpType := pToken.text.headD NUL })
  else if tokenCnt = 2 then
    let (addr, used) := strtoul 16 pToken.text
    let pEndTmp := Ptr.textLine (pToken.start + used)
    if optarg.ptr = pEndTmp ∨ addr < 0 then .error addressText
    else .ok (tokenCnt + 1, { memOpInfo with addr := addr })
  else if tokenCnt = 3 then
    let (size, used) := strtoul 16 pToken.text
    let pEndTmp := Ptr.textLine (pToken.start + used)
    -- the address is tested again
    if optarg.ptr = pEndTmp ∨ memOpInfo.addr < 0 then .error sizeText
    else .ok (0, { memOpInfo with size := size.setWidth 8 })
  else .ok (tokenCnt, memOpInfo)

/-- `while (pToken != NULL)`. -/
def tokenLoop (optarg : OptArg) :
    Nat → Option Token → BitVec 8 → MemOpInfo → Option (Except String MemOpInfo)
  | _, none, _, memOpInfo => some (.ok memOpInfo)
  | 0, some _, _, _ => none
  | rounds + 1, some pToken, tokenCnt, memOpInfo =>
      match takeToken optarg tokenCnt pToken memOpInfo with
      | .error text => some (.error text)
      | .ok (tokenCnt, memOpInfo) =>
          tokenLoop optarg rounds (strtok delims pToken.next pToken.rest) tokenCnt memOpInfo

/-- The tokens of a line. -/
def parseLine (optarg : OptArg) (textLine : List Char) (memOpInfo : MemOpInfo) :
    Option (Except String MemOpInfo) :=
  tokenLoop optarg (textLine.length + 1) (strtok delims 0 textLine) 1 memOpInfo

/-! ## Callbacks -/

namespace Sim

def miss_callback (st : Sim) : Sim :=
  { st with missFlag := true, missCnt := st.missCnt + 1 }

def hit_callback (st : Sim) : Sim :=
  { st with hitFlag := true, hitCnt := st.hitCnt + 1 }

def eviction_callback (st : Sim) : Sim :=
  { st with evictionFlag := true, evictionCnt := st.evictionCnt + 1 }

def callback (st : Sim) : Event → Sim
  | .hit => st.hit_callback
  | .miss => st.miss_callback
  | .eviction => st.eviction_callback

end Sim

/-! ## The loop body -/

/-- What `cacheProcess` prints before it calls `exit`. -/
def noSpaceText : String := "No enough space for cache.\n"

section

variable (pCache : CacheParams) (calloc : Lines → Option Nat) (optarg : OptArg)
  (configShowVerbose : Bool)

/-- `cacheProcess(&cacheSimObj, &memOpInfo)`. -/
def process (st : Sim) : Option Step := do
  let addr := st.memOpInfo.addr
  match ← cacheProcess pCache calloc st.mem addr with
  | .returned events mem =>
      some (.next (events.foldl Sim.callback
        { st with mem := mem, calls := st.calls ++ [addr] }))
  | .exited events mem =>
      some (.stopped (events.foldl Sim.callback
        { st with mem := mem, calls := st.calls ++ [addr],
                  out := st.out ++ [.message noSpaceText] }))

/-- The simulation of the line's operation. -/
def simulate (st : Sim) : Option Step :=
  if st.memOpInfo.memOpType = 'M' then do
    match ← process pCache calloc st with
    | .stopped st => some (.stopped st)
    | .next st => process pCache calloc st
  else if st.memOpInfo.memOpType = 'L' ∨ st.memOpInfo.memOpType = 'S' then
    process pCache calloc st
  else some (.next st)

/-- The line of the verbose mode. -/
def showLine (currLine : List Char) (st : Sim) : Sim :=
  if configShowVerbose ∧ st.memOpInfo.memOpType ≠ 'I' then
    let missMsg := if st.missFlag then "miss " else ""
    let hitMsg := if st.hitFlag then "hit " else ""
    let evictionMsg := if st.evictionFlag then "eviction " else ""
    { st with out := st.out ++ [.verbose currLine missMsg evictionMsg hitMsg] }
  else st

def clearFlags (st : Sim) : Sim :=
  { st with missFlag := false, hitFlag := false, evictionFlag := false }

/-- The body of the read loop, with what `fgets` has stored in `textLine`. -/
def processLine (buf : List Char) (st : Sim) : Option Step := do
  let textLine := cString buf
  let currLine := textLine.takeWhile (· ≠ '\n')
  match ← parseLine optarg textLine st.memOpInfo with
  | .error text => some (.stopped { st with out := st.out ++ [.message text] })
  | .ok memOpInfo => do
      match ← simulate pCache calloc { st with memOpInfo := memOpInfo } with
      | .stopped st => some (.stopped st)
      | .next st => some (.next (clearFlags (showLine configShowVerbose currLine st)))

/-- `while (fgets(textLine, MAX_LINE_LEN, pInputFile))`. -/
def readLoop : Nat → List Char → Sim → Option Step
  | 0, _, _ => none
  | rounds + 1, file, st =>
      match fgets MAX_LINE_LEN file with
      | none => some (.next st)
      | some (buf, rest) => do
          match ← processLine pCache calloc optarg configShowVerbose buf st with
          | .stopped st => some (.stopped st)
          | .next st => readLoop rounds rest st

end

/-- `printSummary(hitCnt, missCnt, evictionCnt)`, whose parameters are `int`. -/
def printSummary (st : Sim) : Sim :=
  { st with
    out := st.out ++ [.summary st.hitCnt.toInt st.missCnt.toInt st.evictionCnt.toInt] }

/-- The static variables before the read loop. -/
def initSim (mem : Mem) : Sim where
  memOpInfo := ⟨NUL, 0, 0⟩
  missFlag := false
  hitFlag := false
  evictionFlag := false
  missCnt := 0
  hitCnt := 0
  evictionCnt := 0
  mem := mem
  calls := []
  out := []

/-- How the program ends: the sets cannot be allocated, which `cacheInitialize` prints before
it calls `exit`, or in a state of the read loop. -/
inductive End where
  | unallocated
  | ended (st : Sim)

/-- `main` from `cacheInitialize` on, on the file's characters. -/
def runMain (allocated : Bool) (calloc : Lines → Option Nat) (optarg : OptArg)
    (configShowVerbose : Bool) (param_s paramE param_b : BitVec 32) (file : List Char) :
    Option End :=
  match cacheInitialize allocated param_s paramE param_b with
  | (_, none) => some .unallocated
  | (pCache, some mem) => do
      match ← readLoop pCache calloc optarg configShowVerbose (file.length + 1) file
        (initSim mem) with
      | .stopped st => some (.ended st)
      | .next st => some (.ended (printSummary st))

end CsappLab.Csim
