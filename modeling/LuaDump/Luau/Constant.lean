import LuaDump.Decoder.Sequence
import LuaDump.Decoder.Varint
import LuaDump.Prototype

/-! # Strings and constants of Luau dumps

A Luau dump has one table of strings. Names and string constants are indices into
it, counted from one, and index zero stands for the empty string. The keys of a
table constant are indices of constants before it.
-/

namespace LuaDump.Luau

open Decoder

def tableString : Decoder Bytes := do
  let size ← varint
  take size

def stringTable : Decoder (Array Bytes) :=
  named "string table" do
    let count ← varint
    let strings ← labelledItems "string" count tableString
    pure strings.toArray

def stringRef (strings : Array Bytes) : Decoder Bytes := do
  let offset ← position
  let index ← varint
  if index = 0 then pure []
  else
    match strings[index - 1]? with
    | some bytes => pure bytes
    | none => failAt offset (.stringIndex index strings.size)

/-- A key of a table constant, which must be one of the constants so far. -/
def tableKey (constants : Array Constant) : Decoder (Constant × Constant) := do
  let offset ← position
  let key ← varint
  match constants[key]? with
  | some constant => pure (constant, .integer 0)
  | none => failAt offset (.tableKey key constants.size)

/-- The tags of constants, with what follows each. -/
def payload? (strings : Array Bytes) (constants : Array Constant) :
    Nat → Option (Decoder Constant)
  | 0 => some (pure .nil)
  | 1 => some do
    let b ← nextByte
    pure (.boolean (b != 0))
  | 2 => some do
    let value ← float 8 false
    pure (.float value)
  | 3 => some do
    let value ← stringRef strings
    pure (.string value)
  | 4 => some do
    let id ← unsigned 4 false
    pure (.importPath id)
  | 5 => some do
    let count ← varint
    let hash ← collect (fun _ => tableKey constants) count 0
    pure (.table [] hash)
  | 6 => some do
    let index ← varint
    pure (.proto index)
  | 7 => some do
    let components ← collect (fun _ => single) 4 0
    pure (.vector components)
  | _ => none

/-- One constant, given the constants before it. A function constant holds the
number of the function in the file. -/
def constant (strings : Array Bytes) (constants : Array Constant) : Decoder Constant := do
  let offset ← position
  let tag ← nextByte
  match payload? strings constants tag.toNat with
  | some payload => payload
  | none => failAt offset (.constantTag .luau tag.toNat)

def nextConstant (strings : Array Bytes) (index : Nat) (constants : Array Constant) :
    Decoder (Array Constant) :=
  within (.item "constant" index) do
    let value ← constant strings constants
    pure (constants.push value)

def constants (strings : Array Bytes) : Decoder (List Constant) :=
  named "count constants" do
    let count ← varint
    checkCount count
    let values ← fold (nextConstant strings) count 0 #[]
    pure values.toList

end LuaDump.Luau
