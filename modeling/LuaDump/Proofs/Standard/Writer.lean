import LuaDump.Header.Sniff
import LuaDump.Proofs.Reading.Float
import LuaDump.Standard.Release

/-! # Writing standard dumps

A writer for the functions of all releases of the standard interpreter. What is written is a
tree of sources, which say of every string whether it is there at all, and give a float of
single precision by its pattern. `Source.body` and `Node.prototype` are what a source stands
for in every release. A `Format` holds how a release writes the parts of a function, and
`Format.bytes` is the recursion that all releases share.
-/

namespace LuaDump.Standard

open Bytes

/-- A constant as it is written. -/
inductive Slot where
  | nil
  | boolean (value : Bool)
  | integer (value : Int)
  /-- A float of single precision by its pattern. -/
  | single (pattern : UInt32)
  | double (value : Binary64)
  /-- A string, with the tag for long strings where there is one and it is asked for. -/
  | string (value : Option Bytes) (long : Bool)

/-- A local variable as it is written. -/
structure Variable where
  name : Option Bytes
  startPc : Nat
  endPc : Nat

/-- A captured variable as it is written. -/
structure Capture where
  onStack : Bool
  id : UInt8
  kind : UInt8 := 0

/-- The own fields of a function as they are written. -/
structure Source where
  name : Option Bytes := none
  lineDefined : Nat := 0
  lastLineDefined : Nat := 0
  numUpvalues : Nat := 0
  numParams : UInt8 := 0
  maxStack : UInt8 := 0
  vararg : Option Vararg := none
  instructions : List Nat := []
  slots : List Slot := []
  sourceLines : List (Nat × Nat) := []
  lineInfo : List Int := []
  locals : List Variable := []
  upvalues : List Capture := []
  upvalueNames : List (Option Bytes) := []

/-- A function and the functions nested in it. -/
structure Node where
  source : Source
  children : List Node

section Meaning

/-- A string that is not there is read as an empty one. -/
def textOf (value : Option Bytes) : Bytes :=
  value.getD []

def Slot.constant : Slot → Constant
  | .nil => .nil
  | .boolean value => .boolean value
  | .integer value => .integer value
  | .single pattern => .float (Binary64.ofBinary32 pattern.toNat)
  | .double value => .float value
  | .string value _ => .string (textOf value)

def Variable.entry (source : Variable) : Local where
  name := textOf source.name
  startPc := source.startPc
  endPc := source.endPc

def Capture.upvalue (capture : Capture) : Upvalue where
  onStack := capture.onStack
  id := capture.id.toNat
  kind := capture.kind.toNat

/-- The fields that a source stands for. -/
def Source.body (source : Source) : Body where
  name := textOf source.name
  lineDefined := source.lineDefined
  lastLineDefined := source.lastLineDefined
  numUpvalues := source.numUpvalues
  numParams := source.numParams.toNat
  maxStack := source.maxStack.toNat
  vararg := source.vararg
  instructions := source.instructions.map fun (word : Nat) => (word : Int)
  constants := source.slots.map Slot.constant
  sourceLines := source.sourceLines.map fun (line : Nat × Nat) => ((line.1 : Int), (line.2 : Int))
  lineInfo := source.lineInfo
  locals := source.locals.map Variable.entry
  upvalues := source.upvalues.map Capture.upvalue
  upvalueNames := source.upvalueNames.map textOf

mutual

/-- The tree that a tree of sources stands for. -/
def Node.prototype : Node → Prototype
  | ⟨source, children⟩ => ⟨source.body, Node.prototypes children⟩

def Node.prototypes : List Node → List Prototype
  | [] => []
  | child :: rest => child.prototype :: Node.prototypes rest

end

end Meaning

/-- How a release writes the parts of a function. -/
structure Format where
  count : Nat → Bytes
  head : Source → Bytes
  instruction : Nat → Bytes
  slot : Slot → Bytes
  /-- The captured variables that are described before the nested functions. -/
  upvalues : Source → Bytes
  tail : Source → Bytes

/-- A count and the items of a list. -/
def listBytes {γ : Type} (count : Nat → Bytes) (write : γ → Bytes) (items : List γ) : Bytes :=
  count items.length ++ items.flatMap write

namespace Format

variable (format : Format)

mutual

/-- A function with everything nested in it. -/
def bytes : Node → Bytes
  | ⟨source, children⟩ =>
    format.head source ++ (listBytes format.count format.instruction source.instructions ++
      (listBytes format.count format.slot source.slots ++ (format.upvalues source ++
        (format.count children.length ++ bytesAll children ++ format.tail source))))

/-- Functions that follow one another. -/
def bytesAll : List Node → Bytes
  | [] => []
  | child :: rest => bytes child ++ bytesAll rest

end

end Format

section Fields

variable (h : Header)

def instructionBytes (word : Nat) : Bytes :=
  Bytes.ofNat h.bigEndian h.instructionSize.toNat word

def booleanByte (value : Bool) : UInt8 :=
  if value then 1 else 0

end Fields

/-- The vararg byte of later releases, a plain truth value. -/
def varargFlag (vararg : Option Vararg) : UInt8 :=
  booleanByte vararg.isSome

section Parts

variable (string : Option Bytes → Bytes) (int : Nat → Bytes)

def variableBytes (source : Variable) : Bytes :=
  string source.name ++ (int source.startPc ++ int source.endPc)

/-- The lines of a function and its bytes, as 5.2 and later releases write them. -/
def plainHeadBytes (source : Source) : Bytes :=
  int source.lineDefined ++ (int source.lastLineDefined ++ ([source.numParams] ++
    ([varargFlag source.vararg] ++ [source.maxStack])))

def namedHeadBytes (source : Source) : Bytes :=
  string source.name ++ plainHeadBytes int source

/-- The debug information that the first three releases share. -/
def plainTailBytes (source : Source) : Bytes :=
  listBytes int (fun line => int line.1) source.sourceLines ++
    (listBytes int (variableBytes string int) source.locals ++
      listBytes int string source.upvalueNames)

end Parts

/-- What the fields of a release can hold. -/
structure Limits where
  /-- Counts, lines and instruction numbers stay below this. -/
  int : Nat
  instruction : Nat
  string : Option Bytes → Prop
  slot : Slot → Prop

/-- A function whose fields fit, whatever the release. -/
structure Limits.Hold (limits : Limits) (source : Source) (childCount : Nat) : Prop where
  name : limits.string source.name
  lineDefined : source.lineDefined < limits.int
  lastLineDefined : source.lastLineDefined < limits.int
  instructions_length : source.instructions.length < limits.int
  instructions : ∀ word ∈ source.instructions, word < limits.instruction
  slots_length : source.slots.length < limits.int
  slots : ∀ slot ∈ source.slots, limits.slot slot
  children : childCount < limits.int
  sourceLines_length : source.sourceLines.length < limits.int
  sourceLines : ∀ line ∈ source.sourceLines, line.1 < limits.int ∧ line.2 < limits.int
  lineInfo_length : source.lineInfo.length < limits.int
  locals_length : source.locals.length < limits.int
  locals : ∀ entry ∈ source.locals,
    limits.string entry.name ∧ entry.startPc < limits.int ∧ entry.endPc < limits.int
  upvalues_length : source.upvalues.length < limits.int
  upvalueNames_length : source.upvalueNames.length < limits.int
  upvalueNames : ∀ name ∈ source.upvalueNames, limits.string name

section Limits

variable (h : Header)

end Limits

/-- Lines that are given for each instruction, and no differences between them. -/
structure PlainLines (source : Source) : Prop where
  sourceLines : ∀ line ∈ source.sourceLines, line.2 = 0
  lineInfo : source.lineInfo = []

/-- A function that may be variadic, but has no argument table, and describes every captured
variable, as in all releases but the first. -/
structure Described (source : Source) : Prop where
  vararg : ∀ vararg ∈ source.vararg, vararg = ⟨false, false⟩
  numUpvalues : source.numUpvalues = source.upvalues.length

/-- Every function of a tree fits, given the number of its children. -/
inductive Node.Every (fits : Source → Nat → Prop) : Node → Prop
  | mk {source : Source} {children : List Node} (hown : fits source children.length)
      (hchildren : ∀ child ∈ children, Node.Every fits child) : Node.Every fits ⟨source, children⟩

section Header

/-- A width in bytes that is among the allowed ones. -/
def IsWidth (allowed : List Nat) (width : Int) : Prop :=
  0 ≤ width ∧ width.toNat ∈ allowed

instance (allowed : List Nat) (width : Int) : Decidable (IsWidth allowed width) :=
  inferInstanceAs (Decidable (_ ∧ _))

variable (h : Header)

end Header

end LuaDump.Standard
