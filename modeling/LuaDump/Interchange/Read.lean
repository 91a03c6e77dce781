import LuaDump.Interchange.Draft
import LuaDump.Interchange.Write
import LuaDump.MessagePack.Reader

/-! # Reading interchange documents

A document is taken apart first, which judges its version, its entries and the kinds
of its constants, in this order. Then the number of the dialect is judged, and last
every field must be of its type. Keys that a document or a function does not know are
ignored, and those that a header does not know are refused.
-/

namespace LuaDump.Interchange

open MessagePack

/-- An integer, or a value that is equal to one. -/
def toInteger (value : Value) : Result Int :=
  match equalInteger? value with
  | some n => .ok n
  | none => .error .shape

/-- A truth value, or a value that is equal to one. -/
def toBoolean (value : Value) : Result Bool :=
  match equalInteger? value with
  | some 0 => .ok false
  | some 1 => .ok true
  | _ => .error .shape

def toBytes : Value → Result Bytes
  | .binary value => .ok value
  | _ => .error .shape

def toNumber : Value → Result Number
  | .integer value => .ok (.integer value)
  | .float value => .ok (.float value)
  | _ => .error .shape

/-- A list whose items are all of one form. -/
def toList {α : Type} (item : Value → Result α) (value : Value) : Result (List α) := do
  let items ← parts value
  items.mapM item

/-- A constant by its kind and its payload. -/
def plainConstant (kind : ConstantKind) (payload : Value) : Result Constant :=
  match kind with
  | .nil => pure .nil
  | .boolean => Constant.boolean <$> toBoolean payload
  | .number => Constant.number <$> toNumber payload
  | .string => Constant.string <$> toBytes payload
  | .proto => Constant.proto <$> toInteger payload
  | .importPath => Constant.importPath <$> toInteger payload
  | .vector | .complex | .table => .error .shape

namespace DraftConstant

mutual

/-- The constant, if its payload is of the type that its kind asks for. -/
def settle : DraftConstant → Result Constant
  | .plain kind payload => plainConstant kind payload
  | .vector components => Constant.vector <$> components.mapM toFloat
  | .complex re im => pure (.complex re im)
  | .table array hash => do
    let array ← settleAll array
    let hash ← settleEntries hash
    pure (.table array hash)

def settleAll : List DraftConstant → Result (List Constant)
  | [] => pure []
  | draft :: rest => do
    let first ← settle draft
    let others ← settleAll rest
    pure (first :: others)

def settleEntries :
    List (DraftConstant × DraftConstant) → Result (List (Constant × Constant))
  | [] => pure []
  | (key, value) :: rest => do
    let key ← settle key
    let value ← settle value
    let others ← settleEntries rest
    pure ((key, value) :: others)

end

end DraftConstant

/-- What a variadic function does with its extra arguments. -/
def settleVararg : List Value → Result Vararg
  | [hasArg, needsArg] => do
    let hasArg ← toBoolean hasArg
    let needsArg ← toBoolean needsArg
    pure { hasArg, needsArg }
  | _ => .error .shape

/-- A local variable, with or without a register. -/
def settleLocal : List Value → Result Local
  | [name, startPc, endPc] => do
    let name ← toBytes name
    let startPc ← toInteger startPc
    let endPc ← toInteger endPc
    pure { name, startPc, endPc }
  | [name, startPc, endPc, register] => do
    let name ← toBytes name
    let startPc ← toInteger startPc
    let endPc ← toInteger endPc
    let register ← toInteger register
    pure { name, startPc, endPc, register }
  | _ => .error .shape

/-- A captured variable, with or without a kind. -/
def settleUpvalue : List Value → Result Upvalue
  | [onStack, id] => do
    let onStack ← toBoolean onStack
    let id ← toInteger id
    pure { onStack, id }
  | [onStack, id, kind] => do
    let onStack ← toBoolean onStack
    let id ← toInteger id
    let kind ← toInteger kind
    pure { onStack, id, kind }
  | _ => .error .shape

def settleSourceLine : List Value → Result (Int × Int)
  | [first, second] => do
    let first ← toInteger first
    let second ← toInteger second
    pure (first, second)
  | _ => .error .shape

/-- The fields of a function, if they are of their types. -/
def DraftBody.settle (draft : DraftBody) : Result Body := do
  let name ← toBytes draft.name
  let lineDefined ← toInteger draft.lineDefined
  let lastLineDefined ← toInteger draft.lastLineDefined
  let numUpvalues ← toInteger draft.numUpvalues
  let numParams ← toInteger draft.numParams
  let maxStack ← toInteger draft.maxStack
  let flags ← toInteger draft.flags
  let vararg ← draft.vararg.mapM settleVararg
  let instructions ← toList toInteger draft.instructions
  let constants ← DraftConstant.settleAll draft.constants
  let numConstants ← toList toNumber draft.numConstants
  let sourceLines ← draft.sourceLines.mapM settleSourceLine
  let lineInfo ← toList toInteger draft.lineInfo
  let locals ← draft.locals.mapM settleLocal
  let upvalues ← draft.upvalues.mapM settleUpvalue
  let upvalueNames ← toList toBytes draft.upvalueNames
  let typeInfo ← toBytes draft.typeInfo
  pure
    { name, lineDefined, lastLineDefined, numUpvalues, numParams, maxStack, flags, vararg,
      instructions, constants, numConstants, sourceLines, lineInfo, locals, upvalues,
      upvalueNames, typeInfo }

namespace Draft

mutual

/-- The function, if its fields and those of the functions nested in it are of their
types. -/
def settle : Draft → Result Prototype
  | .mk body children => do
    let body ← body.settle
    let children ← settleAll children
    pure ⟨body, children⟩

def settleAll : List Draft → Result (List Prototype)
  | [] => pure []
  | draft :: rest => do
    let first ← settle draft
    let others ← settleAll rest
    pure (first :: others)

end

end Draft

def headerKeys : List String :=
  ["lua_version", "format_version", "big_endian", "int_size", "size_t_size", "instruction_size",
    "number_size", "number_integral", "integer_size", "stripped", "has_ffi", "types_version"]

/-- The entries of a header, which must know all keys, and the number of its
dialect. -/
def toHeader : Value → Result (List (Value × Value) × Value)
  | .map entries => do
    if entries.any fun (key, _) => !headerKeys.any fun name => isText name key then
      .error .shape
    let code ← required "lua_version" entries
    pure (entries, code)
  | _ => .error .shape

/-- The value of an entry that may be missing, in a given form. -/
def optional {α : Type} (item : Value → Result α) (default : α) (name : String)
    (entries : List (Value × Value)) : Result α :=
  match lookup? name entries with
  | some value => item value
  | none => pure default

/-- The header of a dialect from its entries. -/
def settleHeader (dialect : Dialect) (entries : List (Value × Value)) : Result Header := do
  let formatVersion ← optional toInteger 0 "format_version" entries
  let bigEndian ← optional toBoolean false "big_endian" entries
  let intSize ← optional toInteger 4 "int_size" entries
  let sizeTSize ← optional toInteger 8 "size_t_size" entries
  let instructionSize ← optional toInteger 4 "instruction_size" entries
  let numberSize ← optional toInteger 8 "number_size" entries
  let numberIntegral ← optional toBoolean false "number_integral" entries
  let integerSize ← optional toInteger 8 "integer_size" entries
  let stripped ← optional toBoolean false "stripped" entries
  let hasFfi ← optional toBoolean false "has_ffi" entries
  let typesVersion ← optional toInteger 0 "types_version" entries
  pure
    { dialect, formatVersion, bigEndian, intSize, sizeTSize, instructionSize, numberSize,
      numberIntegral, integerSize, stripped, hasFfi, typesVersion }

def toDialect (code : Value) : Result Dialect :=
  match (equalInteger? code).bind Dialect.ofCode? with
  | some dialect => .ok dialect
  | none => .error (.dialect code)

/-- A dump from the entries of its document, once the version is known. -/
def toBytecode (entries : List (Value × Value)) : Result Bytecode := do
  let header ← required "header" entries
  let (header, code) ← toHeader header
  let main ← required "main_chunk" entries
  let main ← toFunction main
  let dialect ← toDialect code
  let header ← settleHeader dialect header
  let main ← main.settle
  pure { header, main }

/-- A dump from its document. -/
def ofDocument : Value → Result Bytecode
  | .map entries =>
    let found := (lookup? "version" entries).getD .nil
    if equalInteger? found = some version then toBytecode entries else .error (.version found)
  | _ => .error .shape

/-- How many arrays and maps of a document may stand around one another. -/
def depthLimit : Nat :=
  1024

/-- A dump from the bytes of its document. -/
def unpack (bytes : Bytes) : Result Bytecode :=
  match decode? depthLimit bytes with
  | some value => ofDocument value
  | none => .error .malformed

end LuaDump.Interchange
