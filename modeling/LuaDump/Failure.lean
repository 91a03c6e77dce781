import LuaDump.Dialect
import LuaDump.Text.Quoted
import LuaDump.Text.Utf8

/-! # Decoding failures

A failure is a cause, the offset it points at and the labels of the constructs
that were being read, outermost first. The kind of a cause tells input that ends
too early from input that no continuation can mend.
-/

namespace LuaDump

/-- The name of a construct that is being read. -/
inductive Label where
  | named (name : String)
  /-- One of several constructs of the same name. -/
  | item (name : String) (index : Nat)
deriving DecidableEq, Repr

def Label.text : Label → String
  | .named name => name
  | .item name index => name ++ " " ++ toString index

/-- The broad kinds of failure. -/
inductive FailureKind where
  /-- A negative number of bytes was asked for. -/
  | general
  /-- Fewer bytes remain than a field declares. -/
  | truncated
  /-- A window reaches beyond the file, and a byte was wanted from there. -/
  | byteOutsideFile
  /-- A window reaches beyond the file, and so does a field of fixed size. -/
  | fieldOutsideFile
  | unsupportedWidth
  /-- An unknown signature, or an unknown selector after a known one. -/
  | unrecognizedDialect
  /-- A dialect that was recognized and is not accepted. -/
  | unsupportedDialect
  | unknownConstantTag
  | integerOverflow
  | unbalancedPrototypeStack
  /-- A block that is not as long as it declares. -/
  | sizeMismatch
  | depthExceeded
  /-- An index outside its table. -/
  | invalidReference
  /-- A compiler's message in place of bytecode. -/
  | embeddedCompileError
deriving DecidableEq, Repr

/-- What went wrong. -/
inductive Cause where
  | negativeRead (count : Int)
  | negativeSkip (count : Int)
  | shortField (what : String) (size position remaining : Int)
  | unterminated (position remaining : Int)
  | shortSequence (declared : String) (remaining : Int)
  | shortSignature (signature : Bytes)
  | byteOutsideFile
  | fieldOutsideFile
  | fieldWidth (width : Int) (allowed : List Nat)
  | headerWidth (field : String) (width : Nat) (allowed : List Nat)
  | luaVersion (selector : Nat)
  | luaJitVersion (selector : Nat)
  | unknownSignature (head : Bytes)
  | luauVersion (version : Nat)
  | typesVersion (version : Nat)
  | dialectDisabled (dialect : Dialect)
  | constantTag (dialect : Dialect) (tag : Nat)
  | groupsTooLarge (bits : Nat)
  | groupsTooMany (bits : Nat)
  | headGroupsTooMany
  | aboveCeiling
  | noCompletedPrototype
  | prototypesLeft (count : Nat)
  | recordSize (declared : Nat) (used : Int)
  | tooDeep (limit : Int)
  | stringIndex (index count : Nat)
  | tableKey (key count : Nat)
  | childIndex (index : Nat)
  | closureIndex (slot : Nat) (target : Int)
  | mainIndex (index count : Nat)
  | compileError (message : Bytes)
deriving DecidableEq, Repr

/-- A failure: its cause, the offset it points at and its context, outermost
label first. -/
structure Failure where
  cause : Cause
  offset : Int
  context : List Label := []
deriving DecidableEq, Repr

namespace Cause

def kind : Cause → FailureKind
  | .negativeRead _ | .negativeSkip _ => .general
  | .shortField .. | .unterminated .. | .shortSequence .. | .shortSignature _ => .truncated
  | .byteOutsideFile => .byteOutsideFile
  | .fieldOutsideFile => .fieldOutsideFile
  | .fieldWidth .. | .headerWidth .. => .unsupportedWidth
  | .luaVersion _ | .luaJitVersion _ | .unknownSignature _ | .luauVersion _ | .typesVersion _ =>
    .unrecognizedDialect
  | .dialectDisabled _ => .unsupportedDialect
  | .constantTag .. => .unknownConstantTag
  | .groupsTooLarge _ | .groupsTooMany _ | .headGroupsTooMany | .aboveCeiling => .integerOverflow
  | .noCompletedPrototype | .prototypesLeft _ => .unbalancedPrototypeStack
  | .recordSize .. => .sizeMismatch
  | .tooDeep _ => .depthExceeded
  | .stringIndex .. | .tableKey .. | .childIndex _ | .closureIndex .. | .mainIndex .. =>
    .invalidReference
  | .compileError _ => .embeddedCompileError

def widthsText (widths : List Nat) : String :=
  "[" ++ String.intercalate ", " (widths.map toString) ++ "]"

/-- The text of an unknown constant tag, which dialects write in different bases. -/
def constantTagText (dialect : Dialect) (tag : Nat) : String :=
  match dialect with
  | .lua53 | .lua54 => "Unknown constant type: 0x" ++ hexText 2 tag
  | .luau => s!"Unrecognized constant type: {tag}"
  | _ => s!"Unknown constant type: {tag}"

def reason : Cause → String
  | .negativeRead count => s!"Cannot read a negative number of bytes ({count})."
  | .negativeSkip count => s!"Cannot skip a negative number of bytes ({count})."
  | .shortField what size position remaining =>
    s!"Attempted to read {what} of {size} bytes at position {position}, " ++
      s!"but only {remaining} bytes remain"
  | .unterminated position remaining =>
    s!"Unterminated string starting at position {position}, only {remaining} bytes remain"
  | .shortSequence declared remaining =>
    s!"Sequence declares {declared} elements but only {remaining} bytes remain"
  | .shortSignature signature => "Input ends inside the " ++ Quoted.bytes signature ++ " signature"
  | .byteOutsideFile => "index out of range"
  | .fieldOutsideFile => "field reaches beyond the end of the file"
  | .fieldWidth width allowed =>
    s!"Unsupported field width {width}, expected one of " ++ widthsText allowed
  | .headerWidth field width allowed =>
    s!"Header declares {field} width {width}, expected one of " ++ widthsText allowed
  | .luaVersion selector => "Unknown Lua version byte 0x" ++ hexText 2 selector
  | .luaJitVersion selector => s!"Unknown LuaJIT version byte {selector}"
  | .unknownSignature head => "Unrecognized signature " ++ Quoted.bytes head
  | .luauVersion version => s!"Unsupported Luau bytecode version {version} (supported: 3-6)"
  | .typesVersion version => s!"Invalid types version (types version: {version})"
  | .dialectDisabled dialect => "No decoder for dialect 0x" ++ hexText 2 dialect.code
  | .constantTag dialect tag => constantTagText dialect tag
  | .groupsTooLarge bits => s!"LEB128 value does not fit in {bits} bits"
  | .groupsTooMany bits => s!"LEB128 value runs past {bits} bits"
  | .headGroupsTooMany => "LEB128-33 value runs past 5 bytes"
  | .aboveCeiling => "integer overflow"
  | .noCompletedPrototype => "Child constant but no completed prototype is on the stack"
  | .prototypesLeft count =>
    s!"Expected exactly one prototype left on the stack, found {count}"
  | .recordSize declared used =>
    s!"Prototype declares {declared} bytes but its fields use {used}"
  | .tooDeep limit => s!"Prototypes nest deeper than {limit} levels"
  | .stringIndex index count =>
    s!"String index {index} out of range for string table with length {count}"
  | .tableKey key count => s!"Table key refers to constant {key}, only {count} precede it"
  | .childIndex index =>
    s!"Child prototype {index} is undefined or already owned by another prototype"
  | .closureIndex slot target =>
    s!"Closure constant {slot} refers to prototype {target}, " ++
      "which is not a child of this prototype"
  | .mainIndex index count =>
    s!"Main prototype {index} out of range for protoTable with length {count}"
  | .compileError message =>
    "bytecode holds a compile error: " ++ Utf8.decodeLossy message

end Cause

namespace Failure

def kind (failure : Failure) : FailureKind :=
  failure.cause.kind

/-- The failure in words, without its place. -/
def reason (failure : Failure) : String :=
  failure.cause.reason

/-- The failure in words, with its offset and, if there is one, its context. -/
def message (failure : Failure) : String :=
  let place := failure.reason ++ s!" at offset {failure.offset}"
  match failure.context with
  | [] => place
  | labels => place ++ " (" ++ String.intercalate " -> " (labels.map Label.text) ++ ")"

/-- The failure seen from the construct around it. -/
def push (label : Label) (failure : Failure) : Failure :=
  { failure with context := label :: failure.context }

end Failure

end LuaDump
