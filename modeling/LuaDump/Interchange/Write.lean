import LuaDump.Bytecode
import LuaDump.MessagePack

/-! # Writing interchange documents

A decoded dump as a MessagePack document: a map of a version, the header and the
main function. A constant is a pair of the number of its kind and its payload.
-/

namespace LuaDump.Interchange

open MessagePack

/-- The version of the document format. -/
def version : Int :=
  1

def entry (key : String) (value : Value) : Value × Value :=
  (.text key, value)

def integers (values : List Int) : Value :=
  .array (values.map .integer)

def floats (values : List Binary64) : Value :=
  .array (values.map .float)

def byteStrings (values : List Bytes) : Value :=
  .array (values.map .binary)

/-- A number, whose kind MessagePack keeps. -/
def ofNumber : Number → Value
  | .integer value => .integer value
  | .float value => .float value

def kindPair (kind : ConstantKind) (payload : Value) : Value :=
  .array [.integer kind.code, payload]

mutual

def ofConstant : Constant → Value
  | .nil => kindPair .nil .nil
  | .boolean value => kindPair .boolean (.boolean value)
  | .number value => kindPair .number (ofNumber value)
  | .string bytes => kindPair .string (.binary bytes)
  | .proto index => kindPair .proto (.integer index)
  | .table array hash =>
    kindPair .table (.array [.array (ofConstants array), .array (ofEntries hash)])
  | .importPath id => kindPair .importPath (.integer id)
  | .vector components => kindPair .vector (floats components)
  | .complex re im => kindPair .complex (floats [re, im])

def ofConstants : List Constant → List Value
  | [] => []
  | constant :: rest => ofConstant constant :: ofConstants rest

/-- Table entries, each an array of a key and a value. -/
def ofEntries : List (Constant × Constant) → List Value
  | [] => []
  | (key, value) :: rest => .array [ofConstant key, ofConstant value] :: ofEntries rest

end

def ofHeader (h : Header) : Value :=
  .map
    [entry "lua_version" (.integer h.dialect.code),
      entry "format_version" (.integer h.formatVersion),
      entry "big_endian" (.boolean h.bigEndian),
      entry "int_size" (.integer h.intSize),
      entry "size_t_size" (.integer h.sizeTSize),
      entry "instruction_size" (.integer h.instructionSize),
      entry "number_size" (.integer h.numberSize),
      entry "number_integral" (.boolean h.numberIntegral),
      entry "integer_size" (.integer h.integerSize),
      entry "stripped" (.boolean h.stripped),
      entry "has_ffi" (.boolean h.hasFfi),
      entry "types_version" (.integer h.typesVersion)]

/-- What a variadic function does with its extra arguments. -/
def ofVararg : Option Vararg → Value
  | none => .nil
  | some vararg => .array [.boolean vararg.hasArg, .boolean vararg.needsArg]

def ofLocal (l : Local) : Value :=
  .array [.binary l.name, .integer l.startPc, .integer l.endPc, .integer l.register]

def ofUpvalue (u : Upvalue) : Value :=
  .array [.boolean u.onStack, .integer u.id, .integer u.kind]

def ofSourceLine (line : Int × Int) : Value :=
  .array [.integer line.1, .integer line.2]

/-- A function with the given fields and children. -/
def ofBody (body : Body) (children : List Value) : Value :=
  .map
    [entry "name" (.binary body.name),
      entry "line_defined" (.integer body.lineDefined),
      entry "last_line_defined" (.integer body.lastLineDefined),
      entry "num_upvalues" (.integer body.numUpvalues),
      entry "num_params" (.integer body.numParams),
      entry "max_stack" (.integer body.maxStack),
      entry "flags" (.integer body.flags),
      entry "is_vararg" (ofVararg body.vararg),
      entry "instructions" (integers body.instructions),
      entry "constants" (.array (ofConstants body.constants)),
      entry "num_constants" (.array (body.numConstants.map ofNumber)),
      entry "prototypes" (.array children),
      entry "source_lines" (.array (body.sourceLines.map ofSourceLine)),
      entry "line_info" (integers body.lineInfo),
      entry "locals" (.array (body.locals.map ofLocal)),
      entry "upvalue_infos" (.array (body.upvalues.map ofUpvalue)),
      entry "upvalue_names" (byteStrings body.upvalueNames),
      entry "type_info" (.binary body.typeInfo)]

mutual

/-- A function with everything nested in it. -/
def ofPrototype : Prototype → Value
  | ⟨body, children⟩ => ofBody body (ofPrototypes children)

def ofPrototypes : List Prototype → List Value
  | [] => []
  | child :: rest => ofPrototype child :: ofPrototypes rest

end

def ofBytecode (bytecode : Bytecode) : Value :=
  .map
    [entry "version" (.integer version),
      entry "header" (ofHeader bytecode.header),
      entry "main_chunk" (ofPrototype bytecode.main)]

/-- Why a dump has no document. -/
inductive PackError where
  /-- Values are nested in one another at too many levels. -/
  | tooDeep
  /-- An integer or a length does not fit the format. -/
  | outOfRange
deriving DecidableEq, Repr

/-- The error in words, where it has any. -/
def PackError.message : PackError → Option String
  | .tooDeep => some "recursion limit exceeded."
  | .outOfRange => none

/-- How many levels of values a document may have. -/
def levelLimit : Nat :=
  512

/-- The bytes of the document of a dump. -/
def pack (bytecode : Bytecode) : Except PackError Bytes :=
  let document := ofBytecode bytecode
  if levelLimit < document.levels then .error .tooDeep
  else
    match encode document with
    | some bytes => .ok bytes
    | none => .error .outOfRange

end LuaDump.Interchange
