import LuaDump.Header.Sniff
import LuaDump.Proofs.Jit.Reconstruction
import LuaDump.Proofs.Reading.Number

/-! # Writing LuaJIT dumps

A writer for trees of functions, and the trees that it can write. A record holds the fields
of one function; the records of a tree stand in the order of `Prototype.postorder`, so that a
function finds its children on the stack. The bounds on single fields come from the widths in
which they are written, and the only bound on lengths is that on the size of a record.
-/

namespace LuaDump.Jit

open Bytes

/-- Two halves of a word, the low one first. -/
def wordBytes (n : Nat) : Bytes :=
  lowGroups (n % 0x100000000) ++ lowGroups (n / 0x100000000)

/-- A string behind its tag, which holds its length. -/
def stringBytes (value : Bytes) : Bytes :=
  lowGroups (value.length + 5) ++ value

/-- A key or a value of a table. -/
def slotBytes : Constant → Bytes
  | .boolean false => lowGroups 1
  | .boolean true => lowGroups 2
  | .number (.integer value) => lowGroups 3 ++ lowGroups (twosComplement 32 value)
  | .number (.float value) => lowGroups 4 ++ wordBytes value.pattern
  | .string value => stringBytes value
  | _ => lowGroups 0

/-- The constants that can be keys or values of a table. -/
def IsSlot : Constant → Prop
  | .nil | .boolean _ | .number (.float _) | .string _ => True
  | .number (.integer value) => -2 ^ 31 ≤ value ∧ value < 2 ^ 31
  | _ => False

/-- A key and its value. -/
def entryBytes (entry : Constant × Constant) : Bytes :=
  slotBytes entry.1 ++ slotBytes entry.2

/-- A constant of a function. The array part of a table starts at index zero, where there is
nothing. -/
def constantBytes : Constant → Bytes
  | .table array hash =>
    lowGroups 1 ++ (lowGroups (array.length + 1) ++ (lowGroups hash.length ++
      ((Constant.nil :: array).flatMap slotBytes ++ hash.flatMap entryBytes)))
  | .number (.integer value) => lowGroups 2 ++ wordBytes (twosComplement 64 value)
  | .complex re im => lowGroups 4 ++ (wordBytes re.pattern ++ wordBytes im.pattern)
  | .string value => stringBytes value
  | _ => lowGroups 0

/-- The constants that a function can have. -/
def IsWritable : Constant → Prop
  | .proto _ | .complex .. | .string _ => True
  | .table array hash =>
    (∀ slot ∈ array, IsSlot slot) ∧ ∀ entry ∈ hash, IsSlot entry.1 ∧ IsSlot entry.2
  | .number (.integer value) => -2 ^ 63 ≤ value ∧ value < 2 ^ 63
  | _ => False

/-- A numeric constant, an integer or a float by its pattern. -/
def numberBytes : Number → Bytes
  | .integer value => numericHead false (twosComplement 32 value)
  | .float value =>
    numericHead true (value.pattern % 0x100000000) ++ lowGroups (value.pattern / 0x100000000)

/-- The numbers that a function can have. -/
def IsNumber : Number → Prop
  | .integer value => -2 ^ 31 ≤ value ∧ value < 2 ^ 31
  | .float _ => True

def instructionBytes (h : Header) (word : Int) : Bytes :=
  Bytes.ofNat h.bigEndian 4 word.toNat

def upvalueBytes (h : Header) (upvalue : Upvalue) : Bytes :=
  Bytes.ofNat h.bigEndian 2
    (upvalue.id.toNat + upvalue.kind.toNat * 0x4000 + upvalue.onStack.toNat * 0x8000)

/-- The name of a variable: a code for a variable that a loop keeps for itself, and the name
up to a zero otherwise. -/
def localNameBytes (name : Bytes) : Bytes :=
  match internalNames.idxOf? name with
  | some index => [UInt8.ofNat (index + 1)]
  | none => name ++ [0]

/-- A name that is not taken for the code of another one. -/
def IsLocalName (name : Bytes) : Prop :=
  name ∈ internalNames ∨ (0 ∉ name ∧ ∃ first rest, name = first :: rest ∧ 7 ≤ first.toNat)

/-- Variables from the instruction on at which the last one started. -/
def localsBytes : (lastPc : Int) → List Local → Bytes
  | _, [] => [0]
  | lastPc, entry :: rest =>
    localNameBytes entry.name ++ (lowGroups (entry.startPc - lastPc).toNat ++
      (lowGroups (entry.endPc - entry.startPc).toNat ++ localsBytes entry.startPc rest))

/-- Variables that start in order and do not end before they start. -/
def LocalsFollow : (lastPc : Int) → List Local → Prop
  | _, [] => True
  | lastPc, entry :: rest =>
    IsLocalName entry.name ∧ lastPc ≤ entry.startPc ∧ entry.startPc < lastPc + 2 ^ 32 ∧
      entry.startPc ≤ entry.endPc ∧ entry.endPc < entry.startPc + 2 ^ 32 ∧ entry.register = 0 ∧
      LocalsFollow entry.startPc rest

/-- The number of lines of a function. -/
def lineCountOf (body : Body) : Nat :=
  (body.lastLineDefined - body.lineDefined).toNat

/-- Whether a function has no debug information. -/
def isBare (body : Body) : Bool :=
  body.lineDefined == 0 && body.lastLineDefined == 0 && body.lineInfo.isEmpty &&
    body.upvalueNames.isEmpty && body.locals.isEmpty

/-- The debug information of a function, nothing if there is none. -/
def debugBytes (h : Header) (body : Body) : Bytes :=
  if h.stripped || isBare body then []
  else
    body.lineInfo.flatMap (fun entry =>
        Bytes.ofNat h.bigEndian (lineWidth (lineCountOf body)).toNat entry.toNat) ++
      (body.upvalueNames.flatMap (· ++ [0]) ++ localsBytes 0 body.locals)

/-- The size of the debug information and, if there is any, the lines of the function. -/
def debugHeadBytes (h : Header) (body : Body) : Bytes :=
  if h.stripped then []
  else if isBare body then lowGroups 0
  else
    lowGroups (debugBytes h body).length ++
      (lowGroups body.lineDefined.toNat ++ lowGroups (lineCountOf body))

/-- The fields of a function before its constants. -/
def headBytes (h : Header) (body : Body) : Bytes :=
  [UInt8.ofNat body.flags.toNat, UInt8.ofNat body.numParams.toNat,
      UInt8.ofNat body.maxStack.toNat, UInt8.ofNat body.numUpvalues.toNat] ++
    (lowGroups body.constants.length ++ (lowGroups body.numConstants.length ++
      (lowGroups body.instructions.length ++ (debugHeadBytes h body ++
        (body.instructions.flatMap (instructionBytes h) ++
          body.upvalues.flatMap (upvalueBytes h))))))

/-- The fields of a function in the order of a record. -/
def fieldsBytes (h : Header) (body : Body) : Bytes :=
  headBytes h body ++ (body.constants.reverse.flatMap constantBytes ++
    (body.numConstants.flatMap numberBytes ++ debugBytes h body))

/-- A record: its size and its fields. -/
def recordBytes (h : Header) (body : Body) : Bytes :=
  lowGroups (fieldsBytes h body).length ++ fieldsBytes h body

/-- The records of functions. -/
def recordsBytes (h : Header) (chunks : List Prototype) : Bytes :=
  chunks.flatMap fun chunk => recordBytes h chunk.body

/-- The name of the file, unless the dump is stripped. -/
def chunkNameBytes (h : Header) (name : Bytes) : Bytes :=
  if h.stripped then [] else lowGroups name.length ++ name

/-- The header with the given version and flags. -/
def headerOf (version flags : UInt8) : Header :=
  { dialect := if version = 1 then .luaJit1 else .luaJit2
    bigEndian := flags.toNat.testBit 0
    intSize := 4
    sizeTSize := 4
    instructionSize := 4
    numberSize := 4
    stripped := flags.toNat.testBit 1
    hasFfi := flags.toNat.testBit 2 }

/-- Debug information that fits its fields: a line for every instruction, a name for every
captured variable, and variables in order. -/
structure DebugFits (body : Body) : Prop where
  line : 0 ≤ body.lineDefined ∧ body.lineDefined < 2 ^ 32
  lastLine : body.lineDefined ≤ body.lastLineDefined ∧
    body.lastLineDefined < body.lineDefined + 2 ^ 32
  lineInfo_length : body.lineInfo.length = body.instructions.length
  lineInfo : ∀ entry ∈ body.lineInfo,
    0 ≤ entry ∧ entry < 256 ^ (lineWidth (lineCountOf body)).toNat
  upvalueNames_length : body.upvalueNames.length = body.upvalues.length
  upvalueNames : ∀ name ∈ body.upvalueNames, 0 ∉ name
  locals : LocalsFollow 0 body.locals

/-- The own fields of a function that a record can hold. -/
structure Recordable (h : Header) (body : Body) : Prop where
  flags : 0 ≤ body.flags ∧ body.flags < 256
  numParams : 0 ≤ body.numParams ∧ body.numParams < 256
  maxStack : 0 ≤ body.maxStack ∧ body.maxStack < 256
  numUpvalues : body.numUpvalues = body.upvalues.length ∧ body.upvalues.length ≤ 255
  vararg : body.vararg = if body.flags.toNat.testBit 1 then some ⟨false, false⟩ else none
  instructions : ∀ word ∈ body.instructions, 0 ≤ word ∧ word < 2 ^ 32
  upvalues : ∀ upvalue ∈ body.upvalues,
    (0 ≤ upvalue.id ∧ upvalue.id < 2 ^ 14) ∧ (upvalue.kind = 0 ∨ upvalue.kind = 1)
  constants : ∀ constant ∈ body.constants, IsWritable constant
  numConstants : ∀ number ∈ body.numConstants, IsNumber number
  sourceLines : body.sourceLines = body.lineInfo.map fun entry => (body.lineDefined + entry, 0)
  debug : isBare body = true ∨ h.stripped = false ∧ DebugFits body
  typeInfo : body.typeInfo = []
  size : (fieldsBytes h body).length < 2 ^ 32

/-- The trees that a file can hold: every function fits a record and refers to its children
from last to first, and only the main function of a file that is not stripped has a name. -/
structure Representable (h : Header) (tree : Prototype) : Prop where
  records : ∀ chunk ∈ tree.postorder, Recordable h chunk.body
  children : ∀ chunk ∈ tree.postorder, RefersToChildren chunk
  names : ∀ chunk ∈ Prototype.postorderAll tree.children, chunk.body.name = []
  name : (h.stripped = true → tree.body.name = []) ∧ tree.body.name.length < 2 ^ 32

end LuaDump.Jit
