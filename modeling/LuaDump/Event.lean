import LuaDump.Header
import LuaDump.Text.Quoted

/-! # Trace events

What a decoder reports while it works: headers, prototypes, table sizes and the
end of the file.
-/

namespace LuaDump

/-- One line of a decoding trace. -/
inductive Event where
  | header (header : Header)
  | luauHeader (version types : Nat)
  | chunk (name : Option Bytes) (firstLine lastLine : Int)
  | jitRecord (line lineCount instructions constants numbers : Nat)
  | stringCount (count : Nat)
  | prototypeCount (count : Nat)
  | luauRecord (name : Bytes) (instructions constants children : Nat)
  | finished (dialect : Dialect) (remaining : Int)
deriving DecidableEq, Repr

namespace Event

def flagText (flag : Bool) : String :=
  if flag then "True" else "False"

/-- A dialect as a trace writes it: the oldest two by their bare number. -/
def dialectText (dialect : Dialect) : String :=
  match dialect with
  | .lua51 | .lua52 => toString dialect.code
  | _ => s!"<Dialect.{dialect.name}: {dialect.code}>"

/-- All fields of a header in their order. -/
def headerText (h : Header) : String :=
  "LuaHeader(" ++ String.intercalate ", "
    ["lua_version=" ++ dialectText h.dialect,
      s!"format_version={h.formatVersion}",
      "big_endian=" ++ flagText h.bigEndian,
      s!"int_size={h.intSize}",
      s!"size_t_size={h.sizeTSize}",
      s!"instruction_size={h.instructionSize}",
      s!"number_size={h.numberSize}",
      "number_integral=" ++ flagText h.numberIntegral,
      s!"integer_size={h.integerSize}",
      "stripped=" ++ flagText h.stripped,
      "has_ffi=" ++ flagText h.hasFfi,
      s!"types_version={h.typesVersion}"] ++ ")"

def text : Event → String
  | .header h => "Header: " ++ headerText h
  | .luauHeader version types => s!"Bytecode version: {version}, types version: {types}"
  | .chunk none first last => s!"chunk: line: {first}-{last}"
  | .chunk (some name) first last => "chunk: " ++ Quoted.bytes name ++ s!", line: {first}-{last}"
  | .jitRecord line lineCount instructions constants numbers =>
    s!"proto: line: {line}+{lineCount}, {instructions} instructions, " ++
      s!"{constants} complex / {numbers} numeric constants"
  | .stringCount count => s!"# of strings: {count}"
  | .prototypeCount count => s!"# of protos: {count}"
  | .luauRecord name instructions constants children =>
    "  proto " ++ Quoted.bytes name ++
      s!": {instructions} instructions, {constants} constants, {children} children"
  | .finished dialect remaining => s!"Decoded {dialect.name}, {remaining} trailing bytes"

end Event

end LuaDump
