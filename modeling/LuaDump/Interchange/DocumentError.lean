import LuaDump.Decimal.Notation
import LuaDump.MessagePack
import LuaDump.Text.Quoted

/-! # Documents that cannot be read

The reasons why a document cannot be read, and the values of documents as messages
show them.
-/

namespace LuaDump.Interchange

open MessagePack

mutual

def shown : Value → String
  | .nil => "None"
  | .boolean value => if value then "True" else "False"
  | .integer value => toString value
  | .float value => value.text
  | .text value => Quoted.text value
  | .binary value => Quoted.bytes value
  | .array items => "[" ++ String.intercalate ", " (shownItems items) ++ "]"
  | .map entries => "\x7b" ++ String.intercalate ", " (shownEntries entries) ++ "\x7d"
  | .extension kind data => s!"ExtType(code={kind}, data=" ++ Quoted.bytes data ++ ")"
  | .timestamp seconds nanoseconds =>
    s!"Timestamp(seconds={seconds}, nanoseconds={nanoseconds})"

/-- Values as a message shows them, one by one. -/
def shownItems : List Value → List String
  | [] => []
  | item :: rest => shown item :: shownItems rest

/-- Entries of a map as a message shows them, one by one. -/
def shownEntries : List (Value × Value) → List String
  | [] => []
  | (key, value) :: rest => (shown key ++ ": " ++ shown value) :: shownEntries rest

end

/-- Why a document cannot be read. -/
inductive DocumentError where
  /-- The bytes are not exactly one MessagePack value. -/
  | malformed
  /-- The value does not have the shape of a document. -/
  | shape
  | version (found : Value)
  | constantKind (found : Value)
  | dialect (found : Value)

/-- The error in words, where it has any. -/
def DocumentError.message : DocumentError → Option String
  | .malformed | .shape => none
  | .version found => some ("Unsupported interchange version: " ++ shown found)
  | .constantKind found => some (shown found ++ " is not a valid ConstantType")
  | .dialect found => some (shown found ++ " is not a valid Dialect")

/-- A result or the reason why there is none. -/
abbrev Result := Except DocumentError

end LuaDump.Interchange
