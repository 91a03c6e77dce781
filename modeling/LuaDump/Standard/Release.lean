import LuaDump.Standard.Chunk
import LuaDump.Standard.Field

/-! # Releases of the standard interpreter

The grammars of releases 5.1 to 5.4.
-/

namespace LuaDump.Standard

open Decoder

/-- A constant with a tag in front. The table of tags gives the decoder of what
follows; a tag outside the table fails at its own offset. -/
def taggedConstant (dialect : Dialect) (payload? : Nat → Option (Decoder Constant)) :
    Decoder Constant := do
  let offset ← position
  let tag ← nextByte
  match payload? tag.toNat with
  | some payload => payload
  | none => failAt offset (.constantTag dialect tag.toNat)

def booleanConstant : Decoder Constant := do
  let value ← flag
  pure (.boolean value)

def stringConstant (string : Decoder Bytes) : Decoder Constant := do
  let value ← string
  pure (.string value)

/-- The tags of 5.1 and 5.2. -/
def payload51 (h : Header) : Nat → Option (Decoder Constant)
  | 0 => some (pure .nil)
  | 1 => some booleanConstant
  | 3 => some do
    let value ← number h
    pure (.number value)
  | 4 => some (stringConstant (terminatedString h))
  | _ => none

/-- The tags of 5.3, where long strings have a tag of their own. -/
def payload53 (h : Header) : Nat → Option (Decoder Constant)
  | 0x00 => some (pure .nil)
  | 0x01 => some booleanConstant
  | 0x03 => some (floatConstant h)
  | 0x13 => some (integerConstant h)
  | 0x04 | 0x14 => some (stringConstant (escapedString h))
  | _ => none

/-- The tags of 5.4, where truth values are tags as well. -/
def payload54 (h : Header) : Nat → Option (Decoder Constant)
  | 0x00 => some (pure .nil)
  | 0x01 => some (pure (.boolean false))
  | 0x11 => some (pure (.boolean true))
  | 0x03 => some (integerConstant h)
  | 0x13 => some (floatConstant h)
  | 0x04 | 0x14 => some (stringConstant groupedString)
  | _ => none

/-- The debug information that the first three releases share. -/
def plainTail (string : Decoder Bytes) (int : Decoder Int) : Decoder Tail := do
  let sourceLines ← counted "count source lines" int (plainLine int)
  let locals ← counted "count locals" int (localVariable string int)
  let upvalueNames ← counted "count upval names" int string
  pure { sourceLines, locals, upvalueNames }

def head51 (h : Header) : Decoder Head := do
  let name ← terminatedString h
  let lineDefined ← int h
  let lastLineDefined ← int h
  let numUpvalues ← byte
  let numParams ← byte
  let vararg ← byte
  let maxStack ← byte
  pure
    { name, lineDefined, lastLineDefined, numParams, maxStack
      declaredUpvalues := some numUpvalues
      vararg := varargOfBits vararg }

def grammar51 (h : Header) : Grammar where
  count := int h
  head := head51 h
  tracedName head := some head.name
  instruction := instruction h
  constant := taggedConstant h.dialect (payload51 h)
  upvalues := pure []
  tail := plainTail (terminatedString h) (int h)

/-- The head of a 5.2 function, which has its name in the debug information. -/
def head52 (h : Header) : Decoder Head := do
  let lineDefined ← int h
  let lastLineDefined ← int h
  let numParams ← byte
  let vararg ← byte
  let maxStack ← byte
  pure { lineDefined, lastLineDefined, numParams, maxStack, vararg := varargOfFlag vararg }

def tail52 (h : Header) : Decoder Tail := do
  let upvalues ← counted "count upvalues" (int h) upvalue
  let name ← terminatedString h
  let tail ← plainTail (terminatedString h) (int h)
  pure { tail with upvalues, name := some name }

def grammar52 (h : Header) : Grammar where
  count := int h
  head := head52 h
  tracedName _ := none
  instruction := instruction h
  constant := taggedConstant h.dialect (payload51 h)
  upvalues := pure []
  tail := tail52 h

/-- A head that starts with the name, as 5.3 and 5.4 write it. -/
def namedHead (string : Decoder Bytes) (int : Decoder Int) : Decoder Head := do
  let name ← string
  let lineDefined ← int
  let lastLineDefined ← int
  let numParams ← byte
  let vararg ← byte
  let maxStack ← byte
  pure { name, lineDefined, lastLineDefined, numParams, maxStack, vararg := varargOfFlag vararg }

def grammar53 (h : Header) : Grammar where
  count := int h
  head := namedHead (escapedString h) (int h)
  tracedName head := some head.name
  instruction := instruction h
  constant := taggedConstant h.dialect (payload53 h)
  upvalues := counted "count upvalues" (int h) upvalue
  tail := plainTail (escapedString h) (int h)

/-- The tail of a 5.4 function: line differences, anchored lines, and names. -/
def tail54 : Decoder Tail := do
  let lineInfo ← counted "count line info" groupedInt lineDelta
  let sourceLines ← counted "count source lines" groupedInt anchoredLine
  let locals ← counted "count locals" groupedInt (localVariable groupedString groupedInt)
  let upvalueNames ← counted "count upval names" groupedInt groupedString
  pure { lineInfo, sourceLines, locals, upvalueNames }

def grammar54 (h : Header) : Grammar where
  count := groupedInt
  head := named "chunk header" (namedHead groupedString groupedInt)
  tracedName head := some head.name
  instruction := instruction h
  constant := taggedConstant h.dialect (payload54 h)
  upvalues := counted "count upvalues" groupedInt upvalueWithKind
  tail := tail54

end LuaDump.Standard
