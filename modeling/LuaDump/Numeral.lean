import LuaDump.Binary64

/-! # Reading numerals

The double-precision number that a decimal numeral stands for. A numeral is digits
with at most one point among them and an exponent behind them; the words for the
infinities and NaN count as numerals. A sign may stand in front.
-/

namespace LuaDump.Numeral

/-- Texts are cut into what is read of them and the rest. -/
abbrev Cut (α : Type) := Option (α × List Char)

/-- The number that plain digits stand for. -/
def ofDigits (digits : List Char) : Nat :=
  digits.foldl (fun n c => n * 10 + (c.toNat - '0'.toNat)) 0

/-- The pattern of the nearest number to `coefficient * 10 ^ exponent`. The size of
the exponent is looked at first, since powers of ten far out of range need not be
computed. -/
def patternOf (coefficient : Nat) (exponent : Int) : Nat :=
  let size : Int := (Nat.toDigits 10 coefficient).length + exponent
  if coefficient = 0 ∨ size < -400 then 0
  else if 400 < size then 2047 * Binary64.unitWeight
  else
    Binary64.patternOfRatio (coefficient * Nat.pow 10 exponent.toNat)
      (Nat.pow 10 (-exponent).toNat)

/-- A sign, if there is one: whether it is a minus, and the rest. -/
def sign : List Char → Bool × List Char
  | '-' :: rest => (true, rest)
  | '+' :: rest => (false, rest)
  | text => (false, text)

/-- An exponent, if there is one. A letter without digits behind it is none. -/
def exponent (text : List Char) : Int × List Char :=
  match text with
  | c :: rest =>
    if c = 'e' ∨ c = 'E' then
      let (negative, rest) := sign rest
      match rest.span Char.isDigit with
      | ([], _) => (0, text)
      | (digits, rest) => (if negative then -(ofDigits digits : Int) else ofDigits digits, rest)
    else (0, text)
  | [] => (0, text)

/-- The digits after a point, if there is one. -/
def decimals : List Char → List Char × List Char
  | '.' :: rest => rest.span Char.isDigit
  | text => ([], text)

/-- The pattern of a number written in digits. -/
def digits? (text : List Char) : Cut Nat :=
  let (whole, rest) := text.span Char.isDigit
  let (decimals, rest) := decimals rest
  if whole.isEmpty && decimals.isEmpty then none
  else
    let (exponent, rest) := exponent rest
    some (patternOf (ofDigits (whole ++ decimals)) (exponent - decimals.length), rest)

/-- What follows a word at the start of a text, in letters of either case. -/
def dropWord? (word text : List Char) : Option (List Char) :=
  if (text.take word.length).map Char.toLower = word then some (text.drop word.length) else none

/-- The pattern of a number written as a word. -/
def word? (text : List Char) : Cut Nat :=
  match dropWord? "inf".toList text with
  | some rest => some (2047 * Binary64.unitWeight, (dropWord? "inity".toList rest).getD rest)
  | none => (dropWord? "nan".toList text).map (4095 * (Binary64.unitWeight / 2), ·)

def numeral? (text : List Char) : Cut Binary64 :=
  let (negative, rest) := sign text
  ((digits? rest).orElse fun _ => word? rest).map fun (pattern, rest) =>
    (.ofPattern (if negative then pattern + Binary64.signWeight else pattern), rest)

end LuaDump.Numeral
