import LuaDump.Bytes
import LuaDump.Text.Hidden

/-! # Quoted text

Byte strings and texts as they stand in messages: inside single quotes, or double
quotes when the content holds a single quote and no double one, with escapes for
everything that does not print.
-/

namespace LuaDump

/-- The digits of a natural number in base sixteen, padded with zeros. -/
def hexDigits (width n : Nat) : List Char :=
  let digits := Nat.toDigits 16 n
  List.replicate (width - digits.length) '0' ++ digits

/-- An integer in base sixteen, padded with zeros to the given width, which
includes the sign. -/
def hexText (width : Nat) (n : Int) : String :=
  if n < 0 then String.ofList ('-' :: hexDigits (width - 1) n.natAbs)
  else String.ofList (hexDigits width n.natAbs)

namespace Quoted

/-- The quote to use around the given characters. -/
def quoteFor (content : List Char) : Char :=
  if content.contains '\'' && !content.contains '"' then '"' else '\''

/-- The escapes shared by bytes and text: the quote, the backslash and the named
control characters. -/
def namedEscape? (quote c : Char) : Option (List Char) :=
  if c = quote then some ['\\', c]
  else if c = '\\' then some ['\\', '\\']
  else if c = '\t' then some ['\\', 't']
  else if c = '\n' then some ['\\', 'n']
  else if c = '\r' then some ['\\', 'r']
  else none

/-- A code point as an escape of two, four or eight digits. -/
def codeEscape (code : Nat) : List Char :=
  if code ≤ 0xFF then '\\' :: 'x' :: hexDigits 2 code
  else if code ≤ 0xFFFF then '\\' :: 'u' :: hexDigits 4 code
  else '\\' :: 'U' :: hexDigits 8 code

def escapeChar (quote c : Char) : List Char :=
  match namedEscape? quote c with
  | some escape => escape
  | none => if Text.isHidden c.toNat then codeEscape c.toNat else [c]

/-- One byte of a quoted byte string; only printable ASCII stands for itself. -/
def escapeByte (quote : Char) (b : UInt8) : List Char :=
  match namedEscape? quote (Char.ofNat b.toNat) with
  | some escape => escape
  | none =>
    if b < 0x20 || 0x7F ≤ b then codeEscape b.toNat else [Char.ofNat b.toNat]

def text (content : String) : String :=
  let quote := quoteFor content.toList
  String.ofList (quote :: content.toList.flatMap (escapeChar quote) ++ [quote])

/-- A byte string in quotes, marked by a leading `b`. -/
def bytes (content : Bytes) : String :=
  let quote := quoteFor (content.map fun b => Char.ofNat b.toNat)
  String.ofList ('b' :: quote :: content.flatMap (escapeByte quote) ++ [quote])

end Quoted

end LuaDump
