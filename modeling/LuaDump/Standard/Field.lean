import LuaDump.Decoder.Varint
import LuaDump.Header
import LuaDump.Prototype

/-! # Fields of standard dumps

Integers, numbers and strings as the header of a standard dump declares them.
-/

namespace LuaDump.Standard

open Decoder

def int (h : Header) : Decoder Int :=
  named "integer" do
    let value ← unsigned h.intSize h.bigEndian
    pure value

def sizeT (h : Header) : Decoder Int :=
  named "size_t" do
    let value ← unsigned h.sizeTSize h.bigEndian
    pure value

/-- An instruction word of the declared width. -/
def instruction (h : Header) : Decoder Int := do
  let word ← unsigned h.instructionSize h.bigEndian
  pure word

/-- A number where all numbers are of one kind. -/
def number (h : Header) : Decoder Number :=
  named "number" do
    if h.numberIntegral then
      let value ← signed h.numberSize h.bigEndian
      pure (.integer value)
    else
      let value ← float h.numberSize h.bigEndian
      pure (.float value)

/-- An integer constant where integers and floats are kept apart. -/
def integerConstant (h : Header) : Decoder Constant :=
  named "integer constant" do
    let value ← signed h.integerSize h.bigEndian
    pure (.integer value)

/-- A float constant where integers and floats are kept apart. -/
def floatConstant (h : Header) : Decoder Constant :=
  named "float constant" do
    let value ← float h.numberSize h.bigEndian
    pure (.float value)

def byte : Decoder Int := do
  let b ← nextByte
  pure b.toNat

def flag : Decoder Bool := do
  let b ← nextByte
  pure (b != 0)

/-- A string with its size in front and a final zero byte, which is dropped. -/
def terminatedString (h : Header) : Decoder Bytes :=
  named "string" do
    let size ← sizeT h
    let bytes ← take size
    pure bytes.dropLast

/-- A string of one byte less than the given size; size zero stands for no string. -/
def sizedBytes (size : Int) : Decoder Bytes :=
  if size = 0 then pure [] else take (size - 1)

/-- A string with a size byte in front; the greatest byte says that a full size
follows. -/
def escapedString (h : Header) : Decoder Bytes :=
  named "string" do
    let short ← byte
    let size ← if short = 0xFF then sizeT h else pure short
    sizedBytes size

/-- A string with its size in the high-groups-first form. -/
def groupedString : Decoder Bytes :=
  named "string" do
    let size ← highSize
    sizedBytes size

/-- A count or a line in the high-groups-first form. -/
def groupedInt : Decoder Int := do
  let value ← highInt
  pure value

def localVariable (string : Decoder Bytes) (int : Decoder Int) : Decoder Local :=
  named "local" do
    let name ← string
    let startPc ← int
    let endPc ← int
    pure { name, startPc, endPc }

def upvalue : Decoder Upvalue :=
  named "upvalue" do
    let onStack ← flag
    let id ← byte
    pure { onStack, id }

def upvalueWithKind : Decoder Upvalue :=
  named "upvalue" do
    let onStack ← flag
    let id ← byte
    let kind ← byte
    pure { onStack, id, kind }

/-- The bits of a vararg byte that tell the oldest release's forms apart. -/
def varargOfBits (bits : Int) : Option Vararg :=
  let n := bits.toNat
  if n.testBit 1 then some ⟨n.testBit 0, n.testBit 2⟩ else none

/-- A vararg byte that is a plain truth value. -/
def varargOfFlag (flag : Int) : Option Vararg :=
  if flag = 0 then none else some ⟨false, false⟩

/-- The line of an instruction where each is written out. -/
def plainLine (int : Decoder Int) : Decoder (Int × Int) := do
  let line ← int
  pure (line, 0)

/-- An instruction and its line where only some are written out. -/
def anchoredLine : Decoder (Int × Int) := do
  let pc ← groupedInt
  let line ← groupedInt
  pure (pc, line)

/-- The difference between the lines of neighbouring instructions, a signed byte. -/
def lineDelta : Decoder Int := do
  let b ← nextByte
  pure (signExtend 8 b.toNat)

end LuaDump.Standard
