import LuaDump.Luau.Record
import LuaDump.Proofs.Reading.Float

/-! # Writing Luau dumps

A writer for trees of functions. A dump lists its functions in one table, and a function
names its children by their numbers in the table. Strings are named by their places in the
table of strings, and the keys of a table constant by the places of earlier constants. What a
reader makes of these names is said by `Slot.raw`, `Source.body` and `Node.prototype`.
-/

namespace LuaDump.Luau

open Bytes

/-- A constant as it is written: a function is named by its index among the children of the
owner, and the keys of a table by the indices of constants. -/
inductive Slot where
  | nil
  | boolean (value : Bool)
  | number (value : Binary64)
  | string (value : Bytes)
  | importPath (id : UInt32)
  | vector (x y z w : Binary64)
  | closure (child : Nat)
  | table (keys : List Nat)

/-- The line information of a function: an entry for each instruction, and for each interval
of `2 ^ gap` instructions the difference of its line from that of the interval before. -/
structure Lines where
  gap : UInt8
  entries : Bytes
  deltas : List Int

/-- The names of the variables of a function. -/
structure Names where
  locals : List Local
  upvalueNames : List Bytes

/-- The own fields of a function as they are written. -/
structure Source where
  name : Bytes := []
  lineDefined : UInt32 := 0
  numUpvalues : UInt8 := 0
  numParams : UInt8 := 0
  maxStack : UInt8 := 0
  flags : UInt8 := 0
  /-- Not zero for a variadic function. -/
  variadic : UInt8 := 0
  instructions : List UInt32 := []
  slots : List Slot := []
  lines : Option Lines := none
  names : Option Names := none
  typeInfo : Bytes := []

/-- A function with its number in the table and the functions nested in it. -/
structure Node where
  number : Nat
  source : Source
  children : List Node

namespace Node

mutual

/-- The functions of a tree. -/
def nodes : Node → List Node
  | ⟨number, source, children⟩ => ⟨number, source, children⟩ :: nodesAll children

/-- The functions of several trees. -/
def nodesAll : List Node → List Node
  | [] => []
  | child :: rest => nodes child ++ nodesAll rest

end

/-- The numbers of the children. -/
def childNumbers (node : Node) : List Nat :=
  node.children.map (·.number)

end Node

section Meaning

/-- The constant that a slot stands for as long as functions go by their numbers, given the
constants before it. A table holds the constants that its keys name as they are at this point, so
a key that names a function is the number of that function in the file, and it stays so when the
constants of the owner are linked. -/
def Slot.raw (numbers : List Nat) (earlier : List Constant) : Slot → Constant
  | .nil => .nil
  | .boolean value => .boolean value
  | .number value => .float value
  | .string value => .string value
  | .importPath id => .importPath id.toNat
  | .vector x y z w => .vector [x, y, z, w]
  | .closure child => .proto (numbers.getD child 0)
  | .table keys => .table [] (keys.map fun key => (earlier.getD key .nil, .integer 0))

def rawConstants (numbers : List Nat) : (earlier : List Constant) → List Slot → List Constant
  | _, [] => []
  | earlier, slot :: rest =>
    slot.raw numbers earlier :: rawConstants numbers (earlier ++ [slot.raw numbers earlier]) rest

/-- A constant of its owner, where functions go by their indices among the children. -/
def Slot.link (constant : Constant) : Slot → Constant
  | .closure child => .proto child
  | _ => constant

/-- The first instruction and the line of each interval; the line is the sum of the
differences so far. -/
def sourceLines (gap : Nat) (deltas : List Int) : List (Int × Int) :=
  (List.range deltas.length).map fun index =>
    ((index * 2 ^ gap : Nat), (deltas.take (index + 1)).sum)

/-- The fields that are read for a function whose children have the given numbers. -/
def Source.body (numbers : List Nat) (source : Source) : Body where
  name := source.name
  lineDefined := source.lineDefined.toNat
  numUpvalues := source.numUpvalues.toNat
  numParams := source.numParams.toNat
  maxStack := source.maxStack.toNat
  flags := source.flags.toNat
  vararg := if source.variadic = 0 then none else some ⟨true, true⟩
  instructions := source.instructions.map fun word => (word.toNat : Int)
  constants :=
    source.slots.zipWith (fun slot constant => slot.link constant)
      (rawConstants numbers [] source.slots)
  sourceLines := source.lines.elim [] fun lines => sourceLines lines.gap.toNat lines.deltas
  lineInfo := source.lines.elim [] fun lines => lines.entries.map fun entry => (entry.toNat : Int)
  locals := source.names.elim [] Names.locals
  upvalueNames := source.names.elim [] Names.upvalueNames
  typeInfo := source.typeInfo

mutual

/-- The tree that is read. -/
def Node.prototype : Node → Prototype
  | ⟨_, source, children⟩ => ⟨source.body (children.map Node.number), Node.prototypes children⟩

def Node.prototypes : List Node → List Prototype
  | [] => []
  | child :: rest => child.prototype :: Node.prototypes rest

end

end Meaning

section Bytes

variable (strings : List Bytes)

/-- A reference to a string. The empty string needs no place in the table. -/
def refBytes (value : Bytes) : Bytes :=
  lowGroups (if value = [] then 0 else strings.idxOf value + 1)

def slotBytes (numbers : List Nat) : Slot → Bytes
  | .nil => [0]
  | .boolean value => [1, if value then 1 else 0]
  | .number value => [2] ++ Bytes.ofNat false 8 value.pattern
  | .string value => [3] ++ refBytes strings value
  | .importPath id => [4] ++ Bytes.ofNat false 4 id.toNat
  | .table keys => [5] ++ (lowGroups keys.length ++ keys.flatMap lowGroups)
  | .closure child => [6] ++ lowGroups (numbers.getD child 0)
  | .vector x y z w => [7] ++ [x, y, z, w].flatMap fun value => ofNatLE 4 value.toBinary32

def typeBytes (version : UInt8) (source : Source) : Bytes :=
  if version < 4 then []
  else [source.flags] ++ (lowGroups source.typeInfo.length ++ source.typeInfo)

def linesBytes : Option Lines → Bytes
  | none => [0]
  | some lines =>
    [1] ++ ([lines.gap] ++ (lines.entries.flatMap (fun entry => [entry]) ++
      lines.deltas.flatMap fun delta => Bytes.ofNat false 4 (twosComplement 32 delta)))

def localBytes (entry : Local) : Bytes :=
  refBytes strings entry.name ++ (lowGroups entry.startPc.toNat ++
    (lowGroups entry.endPc.toNat ++ [UInt8.ofNat entry.register.toNat]))

def namesBytes : Option Names → Bytes
  | none => [0]
  | some names =>
    [1] ++ (lowGroups names.locals.length ++ names.locals.flatMap (localBytes strings) ++
      (lowGroups names.upvalueNames.length ++ names.upvalueNames.flatMap (refBytes strings)))

/-- The fields of a function in the order of a record. -/
def recordBytes (version : UInt8) (node : Node) : Bytes :=
  let source := node.source
  [source.maxStack] ++ ([source.numParams] ++ ([source.numUpvalues] ++ ([source.variadic] ++
    (typeBytes version source ++
      (lowGroups source.instructions.length ++
          source.instructions.flatMap (fun word => Bytes.ofNat false 4 word.toNat) ++
        (lowGroups source.slots.length ++
            source.slots.flatMap (slotBytes strings node.childNumbers) ++
          (lowGroups node.children.length ++
              node.children.flatMap (fun child => lowGroups child.number) ++
            (lowGroups source.lineDefined.toNat ++ (refBytes strings source.name ++
              (linesBytes source.lines ++ namesBytes strings source.names))))))))))

end Bytes

/-- What a file holds: its version and that of its types, the table of strings, the names of
userdata types with their indices, and the functions of a tree in some order. -/
structure Dump where
  version : UInt8
  types : UInt8
  strings : List Bytes
  userdata : List (UInt8 × Bytes)
  order : List Node
  main : Node

namespace Dump

variable (dump : Dump)

/-- Types have a version only in later versions of the format. -/
def typesVersion : UInt8 :=
  if dump.version < 4 then 0 else dump.types

def header : Header where
  dialect := .luau
  formatVersion := dump.version.toNat
  intSize := 4
  sizeTSize := 4
  instructionSize := 4
  numberSize := 8
  typesVersion := dump.typesVersion.toNat

def headerBytes : Bytes :=
  if dump.version < 4 then [dump.version] else [dump.version] ++ [dump.types]

def stringTableBytes : Bytes :=
  lowGroups dump.strings.length ++ dump.strings.flatMap fun value => lowGroups value.length ++ value

def userdataBytes : Bytes :=
  if dump.typesVersion = 3 then
    dump.userdata.flatMap (fun entry => [entry.1] ++ refBytes dump.strings entry.2) ++ [0]
  else []

/-- A whole file: the header, the strings, the userdata types, the functions and the number of
the main one. -/
def bytes : Bytes :=
  dump.headerBytes ++ (dump.stringTableBytes ++ (dump.userdataBytes ++
    (lowGroups dump.order.length ++ (dump.order.flatMap (recordBytes dump.strings dump.version) ++
      lowGroups dump.main.number))))

end Dump

section Fits

variable (strings : List Bytes)

/-- A string that can be referred to. -/
def Listed (value : Bytes) : Prop :=
  value = [] ∨ value ∈ strings

/-- A slot that can stand at the given index of a function with the given number of children. -/
def Slot.Fits (childCount index : Nat) : Slot → Prop
  | .string value => Listed strings value
  | .vector x y z w => x.IsSingle ∧ y.IsSingle ∧ z.IsSingle ∧ w.IsSingle
  | .closure child => child < childCount
  | .table keys => keys.length < 2 ^ 32 ∧ ∀ key ∈ keys, key < index
  | _ => True

/-- Line information for the given number of instructions. -/
structure Lines.Fits (instructionCount : Nat) (lines : Lines) : Prop where
  entries : lines.entries.length = instructionCount
  intervals : lines.deltas.length =
    (instructionCount + 2 ^ lines.gap.toNat - 1) / 2 ^ lines.gap.toNat
  deltas : ∀ delta ∈ lines.deltas, -2 ^ 31 ≤ delta ∧ delta < 2 ^ 31

structure LocalFits (entry : Local) : Prop where
  name : Listed strings entry.name
  startPc : 0 ≤ entry.startPc ∧ entry.startPc < 2 ^ 32
  endPc : 0 ≤ entry.endPc ∧ entry.endPc < 2 ^ 32
  register : 0 ≤ entry.register ∧ entry.register < 256

structure Names.Fits (names : Names) : Prop where
  locals_length : names.locals.length < 2 ^ 32
  locals : ∀ entry ∈ names.locals, LocalFits strings entry
  upvalueNames_length : names.upvalueNames.length < 2 ^ 32
  upvalueNames : ∀ name ∈ names.upvalueNames, Listed strings name

/-- A function whose fields fit a record. -/
structure Node.Fits (version : UInt8) (node : Node) : Prop where
  name : Listed strings node.source.name
  types : version < 4 → node.source.flags = 0 ∧ node.source.typeInfo = []
  typeInfo : node.source.typeInfo.length < 2 ^ 32
  instructions : node.source.instructions.length < 2 ^ 32
  slots_length : node.source.slots.length < 2 ^ 32
  slots : ∀ entry ∈ node.source.slots.zipIdx, entry.1.Fits strings node.children.length entry.2
  lines : ∀ lines ∈ node.source.lines, lines.Fits node.source.instructions.length
  names : ∀ names ∈ node.source.names, names.Fits strings

end Fits

/-- The functions of a tree in an order that agrees with their numbers and places children
before their parents. -/
structure Ordered (order : List Node) (main : Node) : Prop where
  perm : order.Perm main.nodes
  numbers : order.map (·.number) = List.range order.length
  children : ∀ node ∈ order, ∀ child ∈ node.children, child.number < node.number

/-- The dumps that can be written. -/
structure Dump.Fits (dump : Dump) : Prop where
  version : 3 ≤ dump.version ∧ dump.version ≤ 6
  types : 4 ≤ dump.version → 1 ≤ dump.types ∧ dump.types ≤ 3
  strings_length : dump.strings.length < 2 ^ 32
  strings : ∀ value ∈ dump.strings, value.length < 2 ^ 32
  userdata : ∀ entry ∈ dump.userdata, entry.1 ≠ 0 ∧ Listed dump.strings entry.2
  ordered : Ordered dump.order dump.main
  order_length : dump.order.length < 2 ^ 32
  nodes : ∀ node ∈ dump.order, node.Fits dump.strings dump.version

end LuaDump.Luau
