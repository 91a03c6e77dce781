import LuaDump.Numeral
import LuaDump.Text.Digit

/-! # Reading complex numerals

A complex numeral is a real part, an imaginary part marked by a letter, or both,
with blanks and one pair of brackets around it. A sign alone, or nothing, stands for
one before the mark. Digits of any script may be used, and single underscores may
separate digits.
-/

namespace LuaDump.Numeral

/-- The blanks beyond plain text. -/
def isWideBlank (c : Char) : Bool :=
  let n := c.toNat
  n == 0x85 || n == 0xA0 || n == 0x1680 || (0x2000 ≤ n && n ≤ 0x200A) || n == 0x2028 ||
    n == 0x2029 || n == 0x202F || n == 0x205F || n == 0x3000

/-- A text with the digits and blanks of all scripts in their plain forms. It is cut
off at the first character that has none, and a mark is put there. -/
def plainText : List Char → List Char
  | [] => []
  | c :: rest =>
    if c.toNat < 127 then c :: plainText rest
    else if isWideBlank c then ' ' :: plainText rest
    else
      match Text.digitValue? c with
      | some value => Nat.digitChar value :: plainText rest
      | none => ['?']

/-- Whether a character is a blank of plain text. -/
def isBlank (c : Char) : Bool :=
  c == ' ' || ('\t' ≤ c && c ≤ '\r')

/-- Leave out underscores, each of which must stand between digits. -/
def dropUnderscores? (previous : Char) : List Char → Option (List Char)
  | [] => if previous = '_' then none else some []
  | '_' :: rest => if previous.isDigit then dropUnderscores? '_' rest else none
  | c :: rest =>
    if previous = '_' ∧ !c.isDigit then none
    else (dropUnderscores? c rest).map (c :: ·)

/-- One or minus one by a sign that has no digits behind it. -/
def unit (negative : Bool) : Binary64 :=
  .ofPattern (if negative then 0xBFF0000000000000 else 0x3FF0000000000000)

/-- The zero that a missing part stands for. -/
def missing : Binary64 :=
  .ofPattern 0

/-- What follows the mark of an imaginary part. -/
def dropMark? : List Char → Option (List Char)
  | 'j' :: rest | 'J' :: rest => some rest
  | _ => none

/-- The imaginary part behind a real part. It starts with a sign. -/
def signedPart? (text : List Char) : Cut Binary64 :=
  match numeral? text with
  | some (part, rest) => (dropMark? rest).map (part, ·)
  | none =>
    let (negative, rest) := sign text
    (dropMark? rest).map (unit negative, ·)

def startsWithSign : List Char → Bool
  | '+' :: _ | '-' :: _ => true
  | _ => false

def parts? (text : List Char) : Cut (Binary64 × Binary64) :=
  match numeral? text with
  | some (first, rest) =>
    if startsWithSign rest then
      (signedPart? rest).map fun (second, rest) => ((first, second), rest)
    else
      match dropMark? rest with
      | some rest => some ((missing, first), rest)
      | none => some ((first, missing), rest)
  | none =>
    let (negative, rest) := sign text
    (dropMark? rest).map ((missing, unit negative), ·)

/-- The parts of a text that holds nothing else but blanks and brackets. -/
def bracketed? (text : List Char) : Option (Binary64 × Binary64) :=
  match text.dropWhile isBlank with
  | '(' :: rest =>
    match parts? (rest.dropWhile isBlank) with
    | some (parts, rest) =>
      match rest.dropWhile isBlank with
      | ')' :: rest => if rest.all isBlank then some parts else none
      | _ => none
    | none => none
  | rest =>
    match parts? rest with
    | some (parts, rest) => if rest.all isBlank then some parts else none
    | none => none

def complex? (text : String) : Option (Binary64 × Binary64) := do
  let digits ← dropUnderscores? ' ' (plainText text.toList)
  bracketed? digits

end LuaDump.Numeral
