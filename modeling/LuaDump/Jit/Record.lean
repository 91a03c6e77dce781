import LuaDump.Header
import LuaDump.Jit.Constant

/-! # Function records of LuaJIT dumps

Functions are written children first, each as a record with its size in front. A
completed function goes on a stack, from which a later record takes its children.
A record of size zero ends the file, and then exactly one function must be left.
-/

namespace LuaDump.Jit

open Decoder

/-- The names of variables that a loop keeps for itself, by their codes from one
on. -/
def internalNames : List Bytes :=
  ["(for idx)", "(for stop)", "(for step)", "(for gen)", "(for state)", "(for ctl)"].map
    Bytes.ofText

/-- A captured variable: two bits of flags over its number. -/
def upvalue (h : Header) : Decoder Upvalue := do
  let value ← unsigned 2 h.bigEndian
  pure
    { onStack := value.testBit 15
      id := (value % 0x4000 : Nat)
      kind := if value.testBit 14 then 1 else 0 }

/-- The name of a variable from its first byte, which is a code or a part of the name. -/
def localName (code : UInt8) : Decoder Bytes :=
  match internalNames[code.toNat - 1]? with
  | some name => pure name
  | none => do
    let rest ← takeUntil 0
    pure (code :: rest)

/-- One variable, or the end of the list. The state is the instruction at which the
last variable started, and the variables so far, the last one first. -/
def localStep (state : Nat × List Local) : Decoder ((Nat × List Local) ⊕ List Local) := do
  let (lastPc, locals) := state
  let code ← nextByte
  if code = 0 then pure (.inr locals.reverse)
  else
    let name ← localName code
    let startDelta ← varint
    let length ← varint
    let startPc := lastPc + startDelta
    let entry : Local := { name, startPc, endPc := (startPc + length : Nat) }
    pure (.inl (startPc, entry :: locals))

def localVariables : Decoder (List Local) :=
  iterate localStep (0, [])

/-- The width of the entries of a line map that covers the given number of lines. -/
def lineWidth (lineCount : Nat) : Int :=
  if lineCount < 256 then 1 else if lineCount < 65536 then 2 else 4

/-- The debug information of a function. -/
structure DebugInfo where
  lineInfo : List Int := []
  upvalueNames : List Bytes := []
  locals : List Local := []

def lineEntry (h : Header) (lineCount : Nat) : Decoder Int := do
  let line ← unsigned (lineWidth lineCount) h.bigEndian
  pure line

/-- The line map, the names of captured variables and the local variables. -/
def debugInfo (h : Header) (instructionCount upvalueCount lineCount : Nat) :
    Decoder DebugInfo := do
  let lineInfo ← named "line info" (items instructionCount (lineEntry h lineCount))
  let upvalueNames ← named "upvalue names" (collect (fun _ => takeUntil 0) upvalueCount 0)
  let locals ← named "variable info" localVariables
  pure { lineInfo, upvalueNames, locals }

/-- The debug information in a block of the given size; size zero stands for none. -/
def debugBlock (h : Header) (size instructionCount upvalueCount lineCount : Nat) :
    Decoder DebugInfo :=
  if size = 0 then pure {}
  else
    named "debug info" do
      let block ← limit size
      let (info, _) ← inWindow block (debugInfo h instructionCount upvalueCount lineCount)
      skip size
      pure info

/-- The size of the debug information, the first line and the number of lines. -/
def debugHead (h : Header) : Decoder (Nat × Nat × Nat) :=
  if h.stripped then pure (0, 0, 0)
  else do
    let size ← varint
    if size = 0 then pure (0, 0, 0)
    else
      let line ← varint
      let lineCount ← varint
      pure (size, line, lineCount)

def instruction (h : Header) : Decoder Int := do
  let word ← unsigned 4 h.bigEndian
  pure word

/-- The height of a function with the given children. -/
def heightOver (children : List Completed) : Nat :=
  children.foldl (fun height child => max height (child.height + 1)) 0

/-- What a record holds before its constants. -/
structure RecordHead where
  flags : UInt8
  numParams : UInt8
  frameSize : UInt8
  numUpvalues : UInt8
  constantCount : Nat
  numberCount : Nat
  /-- The size of the debug information, zero if there is none. -/
  debugSize : Nat
  line : Nat
  lineCount : Nat
  instructions : List Int
  upvalues : List Upvalue

/-- The fields of a record before its constants. -/
def recordHead (h : Header) : Decoder RecordHead := do
  let flags ← nextByte
  let numParams ← nextByte
  let frameSize ← nextByte
  let numUpvalues ← nextByte
  let constantCount ← varint
  let numberCount ← varint
  let instructionCount ← varint
  let (debugSize, line, lineCount) ← debugHead h
  emit (.jitRecord line lineCount instructionCount constantCount numberCount)
  let instructions ← named "count instruction" (items instructionCount (instruction h))
  let upvalues ← named "count upvals" (items numUpvalues.toNat (upvalue h))
  pure
    { flags, numParams, frameSize, numUpvalues, constantCount, numberCount, debugSize, line,
      lineCount, instructions, upvalues }

/-- The constants of a record, some of which take a child from the stack. -/
def constants (count : Nat) (stack : List Completed) : Decoder Progress :=
  named "count complex_constant" do
    checkCount count
    fold (fun index progress => within (.item "constant" index) (constant progress))
      count 0 { stack }

/-- The own fields of a function from the parts of its record. -/
def RecordHead.body (head : RecordHead) (constants : List Constant) (numConstants : List Number)
    (info : DebugInfo) : Body :=
  { lineDefined := head.line
    lastLineDefined := (head.line + head.lineCount : Nat)
    numUpvalues := head.numUpvalues.toNat
    numParams := head.numParams.toNat
    maxStack := head.frameSize.toNat
    flags := head.flags.toNat
    vararg := if head.flags.toNat.testBit 1 then some ⟨false, false⟩ else none
    instructions := head.instructions
    constants
    numConstants
    sourceLines := info.lineInfo.map fun entry => (head.line + entry, 0)
    lineInfo := info.lineInfo
    locals := info.locals
    upvalues := head.upvalues
    upvalueNames := info.upvalueNames }

/-- The fields of a record. The result is the completed function and the stack
without its children. -/
def fields (h : Header) (maxDepth : Int) (stack : List Completed) :
    Decoder (Completed × List Completed) := do
  let head ← recordHead h
  let progress ← constants head.constantCount stack
  let numConstants ←
    named "count numeric_constants" (labelledItems "number" head.numberCount number)
  let height := heightOver progress.children
  if maxDepth < height then fail (.tooDeep maxDepth)
  let info ←
    debugBlock h head.debugSize head.instructions.length head.numUpvalues.toNat head.lineCount
  let body := head.body progress.constants numConstants info
  pure (⟨⟨body, progress.children.map (·.prototype)⟩, height⟩, progress.stack)

/-- A record, whose fields must fill its size exactly. The result is the stack with
the completed function on it, or `none` at the end of the file. -/
def record (h : Header) (maxDepth : Int) (stack : List Completed) :
    Decoder (Option (List Completed)) := do
  let offset ← position
  let size ← varint
  if size = 0 then pure none
  else
    let start ← position
    let block ← limit size
    let ((completed, rest), reached) ← inWindow block (fields h maxDepth stack)
    if reached ≠ start + size then failAt offset (.recordSize size (reached - start))
    skip size
    pure (some (completed :: rest))

/-- One record or the end of the file. The state is the number of records so far and
the stack. -/
def recordStep (h : Header) (maxDepth : Int) (state : Nat × List Completed) :
    Decoder ((Nat × List Completed) ⊕ List Completed) := do
  let (index, stack) := state
  match ← within (.item "prototype" index) (record h maxDepth stack) with
  | some next => pure (.inl (index + 1, next))
  | none => pure (.inr stack)

/-- The name of the file, unless the dump is stripped. -/
def chunkName (h : Header) : Decoder Bytes :=
  if h.stripped then pure []
  else
    named "chunk name" do
      let size ← varint
      take size

/-- The one function that is left on the stack. -/
def soleCompleted (stack : List Completed) : Decoder Prototype :=
  match stack with
  | [completed] => pure completed.prototype
  | _ => fail (.prototypesLeft stack.length)

/-- The main function, which carries the name of the file. -/
def main (h : Header) (maxDepth : Int) : Decoder Prototype :=
  named "chunk" do
    let name ← chunkName h
    let stack ← iterate (recordStep h maxDepth) (0, [])
    let tree ← soleCompleted stack
    pure { tree with body := { tree.body with name } }

end LuaDump.Jit
