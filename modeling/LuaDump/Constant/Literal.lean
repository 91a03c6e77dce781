import LuaDump.Constant
import LuaDump.Decimal.Notation
import LuaDump.Text.Quoted
import LuaDump.Text.Utf8

/-! # Constants as source text

Constants written the way Lua source writes them: strings with escapes, tables with
bare names for keys where the language allows them.
-/

namespace LuaDump

namespace Literal

/-- The words that cannot be used as names. -/
def keywords : List String :=
  ["and", "break", "do", "else", "elseif", "end", "false", "for", "function", "goto", "if", "in",
    "local", "nil", "not", "or", "repeat", "return", "then", "true", "until", "while"]

/-- Whether a character can start a name. -/
def isNameStart (c : Char) : Bool :=
  c.isAlpha || c == '_'

/-- Whether a character can stand in a name. -/
def isNameChar (c : Char) : Bool :=
  c.isAlphanum || c == '_'

/-- Whether a text is a name that is not a keyword. -/
def isName (text : String) : Bool :=
  match text.toList with
  | [] => false
  | first :: rest => isNameStart first && rest.all isNameChar && !keywords.contains text

/-- The letter or mark after the backslash in a named escape. -/
def escapeLetter? (b : UInt8) : Option Char :=
  match b.toNat with
  | 7 => some 'a'
  | 8 => some 'b'
  | 9 => some 't'
  | 10 => some 'n'
  | 11 => some 'v'
  | 12 => some 'f'
  | 13 => some 'r'
  | 34 => some '"'
  | 92 => some '\\'
  | _ => none

def isDigitByte (b : UInt8) : Bool :=
  48 ≤ b.toNat && b.toNat ≤ 57

/-- A numbered escape. It has three digits if a digit follows, since a shorter one
would take that digit in. -/
def numberedEscape (beforeDigit : Bool) (b : UInt8) : List Char :=
  let digits := Nat.toDigits 10 b.toNat
  '\\' :: (if beforeDigit then List.replicate (3 - digits.length) '0' ++ digits else digits)

/-- Whether the bytes start with a decimal digit. -/
def startsWithDigit : Bytes → Bool
  | [] => false
  | b :: _ => isDigitByte b

def escapeByte (beforeDigit : Bool) (b : UInt8) : List Char :=
  match escapeLetter? b with
  | some letter => ['\\', letter]
  | none =>
    if 0x20 ≤ b.toNat && b.toNat < 0x7F then [Char.ofNat b.toNat]
    else numberedEscape beforeDigit b

def escape : Bytes → List Char
  | [] => []
  | b :: rest => escapeByte (startsWithDigit rest) b ++ escape rest

def string (bytes : Bytes) : String :=
  String.ofList ('"' :: escape bytes ++ ['"'])

/-- A float. Numbers without a fractional part keep all their digits, and a quotient
by zero stands for what has no digits. -/
def float (x : Binary64) : String :=
  if x.isNaN then "0/0"
  else if x.isInfinite then if x.isNegative then "-1/0" else "1/0"
  else if x.isIntegral then x.wholeText
  else x.text

def number : Number → String
  | .integer value => toString value
  | .float value => float value

end Literal

namespace Constant

/-- A string constant as text, if it is well-formed UTF-8. -/
def text? : Constant → Option String
  | .string bytes => Utf8.decode? bytes
  | _ => none

/-- A string constant that can be written as a bare name. -/
def name? (constant : Constant) : Option String :=
  constant.text?.filter Literal.isName

mutual

def literal : Constant → String
  | .nil => "nil"
  | .boolean value => if value then "true" else "false"
  | .number value => Literal.number value
  | .string bytes => Literal.string bytes
  | .proto index => s!"function<{index}>"
  | .importPath id => "import<0x" ++ hexText 8 id ++ ">"
  | .vector components =>
    "vector(" ++ String.intercalate ", " (components.map Literal.float) ++ ")"
  | .complex re im => Literal.float re ++ im.signedTextWith .pointZero ++ "i"
  | .table array hash =>
    "\x7b" ++ String.intercalate ", " (literals array ++ literalEntries hash) ++ "\x7d"

/-- Constants as source text, one by one. -/
def literals : List Constant → List String
  | [] => []
  | constant :: rest => literal constant :: literals rest

/-- Table entries as source text; a key that is a name stands bare. -/
def literalEntries : List (Constant × Constant) → List String
  | [] => []
  | (key, value) :: rest =>
    (match name? key with
      | some name => name ++ " = " ++ literal value
      | none => "[" ++ literal key ++ "] = " ++ literal value) :: literalEntries rest

end

end Constant

end LuaDump
