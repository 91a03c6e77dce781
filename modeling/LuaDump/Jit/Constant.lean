import LuaDump.Decoder.Sequence
import LuaDump.Decoder.Varint
import LuaDump.Prototype

/-! # Constants of LuaJIT dumps

Constants of a LuaJIT function are tagged by low-groups-first integers. A tag that
names a child function takes the function completed last from the stack of
completed functions.
-/

namespace LuaDump.Jit

open Decoder

/-- A completed function with the height of its tree. -/
structure Completed where
  prototype : Prototype
  height : Nat
deriving Inhabited

/-- The integer of sixty-four bits with the given halves. -/
def wordOf (low high : Nat) : Nat :=
  low + high * 0x100000000

/-- Two halves of a word, the low one first in either byte order. -/
def word : Decoder Nat := do
  let low ← varint
  let high ← varint
  pure (wordOf low high)

/-- A float as two halves of its pattern. -/
def double : Decoder Binary64 := do
  let pattern ← word
  pure (Binary64.ofPattern pattern)

/-- The bytes of a string whose length is part of its tag. -/
def taggedString (firstTag tag : Nat) : Decoder Constant :=
  named "string" do
    let bytes ← take ((tag : Int) - firstTag)
    pure (.string bytes)

def tableSlot : Decoder Constant := do
  let tag ← varint
  match tag with
  | 0 => pure .nil
  | 1 => pure (.boolean false)
  | 2 => pure (.boolean true)
  | 3 =>
    let value ← varint
    pure (.integer (signExtend 32 value))
  | 4 =>
    let value ← double
    pure (.float value)
  | other => taggedString 5 other

def tableEntry : Decoder (Constant × Constant) := do
  let key ← tableSlot
  let value ← tableSlot
  pure (key, value)

/-- The table with the given written parts. The array part starts at index zero,
which belongs to no array: its value, unless nil, becomes the last entry of the
hash part. -/
def tableOf (slots : List Constant) (hash : List (Constant × Constant)) : Constant :=
  match slots with
  | [] => .table [] hash
  | first :: array =>
    .table array (if first.isNil then hash else hash ++ [(.integer 0, first)])

def table : Decoder Constant :=
  named "read table" do
    let arrayCount ← varint
    let hashCount ← varint
    let slots ← named "count table array" (items arrayCount tableSlot)
    let hash ← named "count table hash" (items hashCount tableEntry)
    pure (tableOf slots hash)

/-- A constant as it is written, where `none` stands for a child. -/
def writtenConstant : Decoder (Option Constant) := do
  let tag ← varint
  match tag with
  | 0 => pure none
  | 1 =>
    let value ← table
    pure (some value)
  | 2 | 3 =>
    let value ← word
    pure (some (.integer (signExtend 64 value)))
  | 4 =>
    let re ← double
    let im ← double
    pure (some (.complex re im))
  | other =>
    let value ← taggedString 5 other
    pure (some value)

/-- The functions on the stack, the children taken from it so far in the order they
were taken, and the constants read so far, the last one first. -/
structure Progress where
  stack : List Completed
  children : List Completed := []
  constants : List Constant := []

/-- A constant that changes nothing but the list of constants. -/
def Progress.push (progress : Progress) (constant : Constant) : Progress :=
  { progress with constants := constant :: progress.constants }

/-- Take the function completed last as the next child. -/
def Progress.adopt? (progress : Progress) : Option Progress :=
  match progress.stack with
  | [] => none
  | completed :: rest =>
    some
      { stack := rest
        children := progress.children ++ [completed]
        constants := .proto progress.children.length :: progress.constants }

/-- What a written constant adds, unless it is a child and there is none. -/
def Progress.extend? (progress : Progress) : Option Constant → Option Progress
  | none => progress.adopt?
  | some constant => some (progress.push constant)

def constant (progress : Progress) : Decoder Progress := do
  let offset ← position
  let written ← writtenConstant
  match progress.extend? written with
  | some next => pure next
  | none => failAt offset .noCompletedPrototype

/-- A numeric constant. The lowest bit of its first byte tells a float from an
integer. -/
def number : Decoder Number := do
  let selector ← peekByte
  let low ← numericHead
  if selector.toNat.testBit 0 then
    let high ← varint
    pure (.float (Binary64.ofPattern (wordOf low high)))
  else pure (.integer (signExtend 32 low))

end LuaDump.Jit
