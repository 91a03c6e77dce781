import LuaDump.Constant
import LuaDump.Interchange.DocumentError
import LuaDump.Numeral.Complex

/-! # Drafts

A draft is a document taken apart: its entries are all there, records have the right
number of fields and constants have a kind, but the fields may still hold values of
any type. Whatever has parts can stand for an array: the bytes of a byte string, the
characters of a text, the keys of a map, and the kind and the data of an extension.
-/

namespace LuaDump.Interchange

open MessagePack

def parts? : Value → Option (List Value)
  | .array items => some items
  | .binary bytes => some (bytes.map fun b => .integer b.toNat)
  | .text text => some (text.toList.map fun c => .text (String.singleton c))
  | .map entries => some (entries.map (·.1))
  | .extension kind data => some [.integer kind, .binary data]
  | _ => none

/-- The parts of a value that must have some. -/
def parts (value : Value) : Result (List Value) :=
  match parts? value with
  | some items => .ok items
  | none => .error .shape

def isText (name : String) : Value → Bool
  | .text value => value == name
  | _ => false

/-- The value of the entry with the given key. -/
def lookup? (name : String) : List (Value × Value) → Option Value
  | [] => none
  | (key, value) :: rest => if isText name key then some value else lookup? name rest

/-- The value of an entry that must be there. -/
def required (name : String) (entries : List (Value × Value)) : Result Value :=
  match lookup? name entries with
  | some value => .ok value
  | none => .error .shape

/-- The integer that a value is equal to: an integer itself, a truth value as zero
or one, or a float without a fractional part. -/
def equalInteger? : Value → Option Int
  | .integer value => some value
  | .boolean value => some (if value then 1 else 0)
  | .float value =>
    if value.isIntegral then
      some (if value.isNegative then -(value.wholePart : Int) else value.wholePart)
    else none
  | _ => none

/-- A float. An integer is taken as the float nearest to it, and a truth value as
zero or one. -/
def toFloat : Value → Result Binary64
  | .float value => .ok value
  | .integer value => .ok (Binary64.ofInt value)
  | .boolean value => .ok (Binary64.ofInt (if value then 1 else 0))
  | _ => .error .shape

/-- A constant whose payload may still be of any type. -/
inductive DraftConstant where
  | plain (kind : ConstantKind) (payload : Value)
  | vector (components : List Value)
  | complex (re im : Binary64)
  | table (array : List DraftConstant) (hash : List (DraftConstant × DraftConstant))
deriving Inhabited

/-- The kind of a constant by its number. -/
def toKind (value : Value) : Result ConstantKind :=
  match (equalInteger? value).bind ConstantKind.ofCode? with
  | some kind => .ok kind
  | none => .error (.constantKind value)

/-- A complex number; parts that are not given are zero. -/
def toComplex (payload : Value) : Result DraftConstant := do
  match ← parts payload with
  | [] => pure (.complex (.ofPattern 0) (.ofPattern 0))
  | [.text text] =>
    match Numeral.complex? text with
    | some (re, im) => pure (.complex re im)
    | none => .error .shape
  | [re] =>
    let re ← toFloat re
    pure (.complex re (.ofPattern 0))
  | [re, im] =>
    let re ← toFloat re
    let im ← toFloat im
    pure (.complex re im)
  | _ => .error .shape

/-- A constant of a kind without nested constants. -/
def leaf (kind : ConstantKind) (payload : Value) : Result DraftConstant :=
  match kind with
  | .vector => DraftConstant.vector <$> parts payload
  | .complex => toComplex payload
  | .table => .error .shape
  | kind => pure (.plain kind payload)

/-- A constant that is no array. Its first two parts are the kind and the payload,
and there are no constants in it. -/
def flatConstant : Value → Result DraftConstant
  | .map _ => .error .shape
  | value => do
    match ← parts value with
    | [] => .error .shape
    | [kind] =>
      let _ ← toKind kind
      .error .shape
    | kind :: payload :: _ =>
      let kind ← toKind kind
      leaf kind payload

/-- Constants that are not in an array. -/
def flatConstants (value : Value) : Result (List DraftConstant) := do
  let items ← parts value
  items.mapM flatConstant

/-- A table entry that is no array. -/
def flatEntry (value : Value) : Result (DraftConstant × DraftConstant) := do
  match ← parts value with
  | [key, value] =>
    let key ← flatConstant key
    let value ← flatConstant value
    pure (key, value)
  | _ => .error .shape

/-- Table entries that are not in an array. -/
def flatEntries (value : Value) : Result (List (DraftConstant × DraftConstant)) := do
  let items ← parts value
  items.mapM flatEntry

/-- A table whose two halves are not in an array. -/
def flatTable (value : Value) : Result DraftConstant := do
  match ← parts value with
  | [array, hash] =>
    let array ← flatConstants array
    let hash ← flatEntries hash
    pure (.table array hash)
  | _ => .error .shape

mutual

/-- A constant: a kind and a payload. The kind is judged before the payload. -/
def toConstant : Value → Result DraftConstant
  | .array (kind :: payload :: _) => do
    match ← toKind kind with
    | .table => toTable payload
    | kind => leaf kind payload
  | value => flatConstant value

/-- A table: its array half and its hash half. -/
def toTable : Value → Result DraftConstant
  | .array [array, hash] => do
    let array ← toConstants array
    let hash ← toEntries hash
    pure (.table array hash)
  | value => flatTable value

def toConstants : Value → Result (List DraftConstant)
  | .array items => toConstantList items
  | value => flatConstants value

/-- The constants of an array, one by one. -/
def toConstantList : List Value → Result (List DraftConstant)
  | [] => pure []
  | value :: rest => do
    let first ← toConstant value
    let others ← toConstantList rest
    pure (first :: others)

/-- Table entries, each of a key and a value. -/
def toEntries : Value → Result (List (DraftConstant × DraftConstant))
  | .array items => toEntryList items
  | value => flatEntries value

/-- The table entries of an array, one by one. -/
def toEntryList : List Value → Result (List (DraftConstant × DraftConstant))
  | [] => pure []
  | .array [key, value] :: rest => do
    let key ← toConstant key
    let value ← toConstant value
    let others ← toEntryList rest
    pure ((key, value) :: others)
  | value :: rest => do
    let first ← flatEntry value
    let others ← toEntryList rest
    pure (first :: others)

end

/-- A record, whose number of fields must be among the given ones. -/
def toRecord (sizes : List Nat) (value : Value) : Result (List Value) := do
  let fields ← parts value
  if fields.length ∈ sizes then pure fields else .error .shape

def toRecords (sizes : List Nat) (value : Value) : Result (List (List Value)) := do
  let items ← parts value
  items.mapM (toRecord sizes)

/-- The fields of a function. -/
structure DraftBody where
  name : Value
  lineDefined : Value
  lastLineDefined : Value
  numUpvalues : Value
  numParams : Value
  maxStack : Value
  flags : Value
  /-- None for a function that is not variadic. -/
  vararg : Option (List Value)
  instructions : Value
  constants : List DraftConstant
  numConstants : Value
  sourceLines : List (List Value)
  lineInfo : Value
  locals : List (List Value)
  upvalues : List (List Value)
  upvalueNames : Value
  typeInfo : Value

/-- A function and the functions nested in it. -/
inductive Draft where
  | mk (body : DraftBody) (children : List Draft)

/-- What a variadic function does with its extra arguments. -/
def toVararg : Value → Result (Option (List Value))
  | .nil => pure none
  | value => some <$> toRecord [2] value

/-- A function from its entries, where the children have been taken apart already.
Entries are looked at in a fixed order, the children among them. -/
def toDraft (entries : List (Value × Value)) (children : Result (List Draft)) :
    Result Draft := do
  let vararg ← required "is_vararg" entries
  let name ← required "name" entries
  let lineDefined ← required "line_defined" entries
  let lastLineDefined ← required "last_line_defined" entries
  let numUpvalues ← required "num_upvalues" entries
  let numParams ← required "num_params" entries
  let maxStack ← required "max_stack" entries
  let flags ← required "flags" entries
  let vararg ← toVararg vararg
  let instructions ← required "instructions" entries
  let constants ← required "constants" entries
  let constants ← toConstants constants
  let numConstants ← required "num_constants" entries
  let children ← children
  let sourceLines ← required "source_lines" entries
  let sourceLines ← parts sourceLines
  let sourceLines ← sourceLines.mapM parts
  let lineInfo ← required "line_info" entries
  let locals ← required "locals" entries
  let locals ← toRecords [3, 4] locals
  let upvalues ← required "upvalue_infos" entries
  let upvalues ← toRecords [2, 3] upvalues
  let upvalueNames ← required "upvalue_names" entries
  let typeInfo ← required "type_info" entries
  pure
    (.mk
      { name, lineDefined, lastLineDefined, numUpvalues, numParams, maxStack, flags, vararg,
        instructions, constants, numConstants, sourceLines, lineInfo, locals, upvalues,
        upvalueNames, typeInfo }
      children)

mutual

/-- A function with everything nested in it. -/
def toFunction : Value → Result Draft
  | .map entries => toDraft entries ((childrenIn? entries).getD (.error .shape))
  | _ => .error .shape

/-- The nested functions by the entry that holds them. -/
def childrenIn? : List (Value × Value) → Option (Result (List Draft))
  | [] => none
  | (key, value) :: rest =>
    if isText "prototypes" key then some (toFunctions value) else childrenIn? rest

/-- Functions, one by one. Only those in an array can be functions. -/
def toFunctions : Value → Result (List Draft)
  | .array items => toFunctionList items
  | value => do
    match ← parts value with
    | [] => pure []
    | _ => .error .shape

/-- The functions of an array, one by one. -/
def toFunctionList : List Value → Result (List Draft)
  | [] => pure []
  | value :: rest => do
    let first ← toFunction value
    let others ← toFunctionList rest
    pure (first :: others)

end

end LuaDump.Interchange
