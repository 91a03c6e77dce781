import LuaDump.Header
import LuaDump.Luau.Constant

/-! # Function records of Luau dumps

Functions stand in one table, children before parents. A parent names its children
by their numbers and takes them out of the table, so no function has two parents.
The number of the main function comes last.
-/

namespace LuaDump.Luau

open Decoder

/-- A function of the table with the height of its tree. -/
structure Entry where
  prototype : Prototype
  height : Nat
deriving Inhabited

/-- The functions read so far; one that has a parent leaves an empty place. -/
abbrev Table := Array (Option Entry)

/-- The function with the given number, unless it has a parent. -/
def Table.get? (table : Table) (index : Nat) : Option Entry :=
  table[index]?.join

/-- A child with its number in the file. -/
structure Child where
  number : Nat
  entry : Entry
deriving Inhabited

/-- Take the next child out of the table. -/
def takeChild (state : Table × List Child) : Decoder (Table × List Child) := do
  let (table, children) := state
  let offset ← position
  let number ← varint
  match table.get? number with
  | some entry => pure (table.setIfInBounds number none, children ++ [⟨number, entry⟩])
  | none => failAt offset (.childIndex number)

/-- The children of a function, and the table without them. -/
def takeChildren (table : Table) : Decoder (Table × List Child) :=
  named "count prototypes" do
    let count ← varint
    checkCount count
    fold (fun _ => takeChild) count 0 (table, [])

/-- The index of the child that a function constant names by its number. -/
def childIndex? (numbers : List Nat) (target : Int) : Option Nat :=
  numbers.findIdx? fun (number : Nat) => (number : Int) == target

/-- Make a function constant refer to a child by its index. -/
def linkConstant (numbers : List Nat) (slot : Nat) : Constant → Decoder Constant
  | .proto target =>
    match childIndex? numbers target with
    | some index => pure (.proto index)
    | none => fail (.closureIndex slot target)
  | other => pure other

/-- Link the constants from slot `slot` on. -/
def linkConstants (numbers : List Nat) : (slot : Nat) → List Constant → Decoder (List Constant)
  | _, [] => pure []
  | slot, constant :: rest => do
    let linked ← linkConstant numbers slot constant
    let others ← linkConstants numbers (slot + 1) rest
    pure (linked :: others)

/-- The height of a function with the given children. -/
def heightOver (children : List Child) : Nat :=
  children.foldl (fun height child => max height (child.entry.height + 1)) 0

/-- The number of line intervals of `2 ^ gap` instructions each. -/
def intervalCount (instructionCount gap : Nat) : Nat :=
  if instructionCount = 0 then 0 else (instructionCount - 1) / Nat.pow 2 gap + 1

/-- The line of the next interval, given as a difference. The state is the line of
the interval before it, and the lines so far, the last one first. -/
def nextInterval (gap index : Nat) (state : Int × List (Int × Int)) :
    Decoder (Int × List (Int × Int)) := do
  let delta ← signed 4 false
  let line := state.1 + delta
  pure (line, ((index * Nat.pow 2 gap : Nat), line) :: state.2)

def byte : Decoder Int := do
  let b ← nextByte
  pure b.toNat

/-- The line information of a function: an entry for each instruction, and the line
of each interval. -/
def lineTable (instructionCount : Nat) : Decoder (List Int × List (Int × Int)) :=
  named "line info" do
    let gap ← nextByte
    let lineInfo ← items instructionCount byte
    let (_, lines) ←
      fold (nextInterval gap.toNat) (intervalCount instructionCount gap.toNat) 0 (0, [])
    pure (lineInfo, lines.reverse)

def count : Decoder Int := do
  let value ← varint
  pure value

def localVariable (strings : Array Bytes) : Decoder Local := do
  let name ← stringRef strings
  let startPc ← count
  let endPc ← count
  let register ← byte
  pure { name, startPc, endPc, register }

/-- The names of local and captured variables. -/
def debugTable (strings : Array Bytes) : Decoder (List Local × List Bytes) :=
  named "debug info" do
    let locals ← counted "count locals" count (localVariable strings)
    let upvalueNames ← counted "count upval names" count (stringRef strings)
    pure (locals, upvalueNames)

/-- Read a part if the byte before it is not zero. -/
def optionalPart {α : Type} (absent : α) (part : Decoder α) : Decoder α := do
  let present ← nextByte
  if present = 0 then pure absent else part

/-- The flags and the type information, which older versions do not have. -/
def typeBlock (h : Header) : Decoder (Int × Bytes) :=
  if h.formatVersion < 4 then pure (0, [])
  else do
    let flags ← byte
    let info ← named "type info" do
      let size ← varint
      take size
    pure (flags, info)

def instruction : Decoder Int := do
  let word ← unsigned 4 false
  pure word

/-- One function. The result is the function and the table without its children. -/
def record (h : Header) (strings : Array Bytes) (maxDepth : Int) (table : Table) :
    Decoder (Entry × Table) := do
  let maxStack ← byte
  let numParams ← byte
  let numUpvalues ← byte
  let variadic ← nextByte
  let (flags, typeInfo) ← typeBlock h
  let instructions ← counted "count instruction" count instruction
  let raw ← constants strings
  let (rest, children) ← takeChildren table
  let linked ← linkConstants (children.map (·.number)) 0 raw
  let height := heightOver children
  if maxDepth < height then fail (.tooDeep maxDepth)
  let lineDefined ← count
  let name ← stringRef strings
  emit (.luauRecord name instructions.length linked.length children.length)
  let (lineInfo, sourceLines) ← optionalPart ([], []) (lineTable instructions.length)
  let (locals, upvalueNames) ← optionalPart ([], []) (debugTable strings)
  let body : Body :=
    { name, lineDefined, numUpvalues, numParams, maxStack, flags, instructions
      vararg := if variadic = 0 then none else some ⟨true, true⟩
      constants := linked
      sourceLines, lineInfo, locals, upvalueNames, typeInfo }
  pure (⟨⟨body, children.map (·.entry.prototype)⟩, height⟩, rest)

/-- Read one more function into the table. -/
def nextRecord (h : Header) (strings : Array Bytes) (maxDepth : Int) (index : Nat)
    (table : Table) : Decoder Table :=
  within (.item "prototype" index) do
    let (entry, rest) ← record h strings maxDepth table
    pure (rest.push (some entry))

/-- One entry of the list of userdata types, or its end. -/
def userdataStep (strings : Array Bytes) (_ : Unit) : Decoder (Unit ⊕ Unit) := do
  let index ← nextByte
  if index = 0 then pure (.inr ())
  else
    let _ ← stringRef strings
    pure (.inl ())

/-- The list of userdata types, which only the newest type information has. -/
def userdataTypes (h : Header) (strings : Array Bytes) : Decoder Unit :=
  if h.typesVersion = 3 then named "userdata types" (iterate (userdataStep strings) ())
  else pure ()

/-- The number of the main function, looked up in the table. -/
def mainEntry (table : Table) : Decoder Prototype := do
  let offset ← position
  let index ← varint
  match table.get? index with
  | some entry => pure entry.prototype
  | none => failAt offset (.mainIndex index table.size)

def main (h : Header) (maxDepth : Int) : Decoder Prototype :=
  named "chunk" do
    let strings ← stringTable
    emit (.stringCount strings.size)
    userdataTypes h strings
    let recordCount ← varint
    emit (.prototypeCount recordCount)
    checkCount recordCount
    let table ← fold (nextRecord h strings maxDepth) recordCount 0 #[]
    mainEntry table

end LuaDump.Luau
