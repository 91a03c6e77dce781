import LuaDump.Decimal.Shortest

/-! # Written numbers

The text of a double-precision number: positional notation for decimal exponents
from -4 up to 15, scientific notation outside that range, and words for the
infinities and NaN.
-/

namespace LuaDump

namespace Decimal

/-- What follows the digits of a number without a fractional part. -/
inductive WholeMark where
  | pointZero
  | bare
deriving DecidableEq, Repr

def WholeMark.text : WholeMark → String
  | .pointZero => ".0"
  | .bare => ""

def zeros (count : Nat) : List Char :=
  List.replicate count '0'

/-- Drop the zeros at the end of a list of digits. -/
def dropTrailingZeros (digits : List Char) : List Char :=
  (digits.reverse.dropWhile (· == '0')).reverse

/-- The significant digits of a decimal; zero keeps one digit. -/
def significantDigits (d : Decimal) : List Char :=
  match dropTrailingZeros (Nat.toDigits 10 d.coefficient) with
  | [] => ['0']
  | digits => digits

/-- Where the decimal point stands, counted from before the first digit. -/
def pointPosition (d : Decimal) : Int :=
  if d.coefficient = 0 then 1 else (Nat.toDigits 10 d.coefficient).length + d.exponent

/-- Digits with a decimal point after the first `point` of them. -/
def positional (mark : WholeMark) (digits : List Char) (point : Int) : String :=
  if point ≤ 0 then
    String.ofList ('0' :: '.' :: zeros (-point).toNat ++ digits)
  else if digits.length ≤ point then
    String.ofList (digits ++ zeros (point.toNat - digits.length)) ++ mark.text
  else
    String.ofList (digits.take point.toNat ++ '.' :: digits.drop point.toNat)

/-- An exponent with its sign and at least two digits. -/
def exponentText (exponent : Int) : String :=
  let digits := Nat.toDigits 10 exponent.natAbs
  (if exponent < 0 then "-" else "+") ++ String.ofList (zeros (2 - digits.length) ++ digits)

/-- One digit, the others after a point, and the exponent. -/
def scientific (digits : List Char) (exponent : Int) : String :=
  let tail :=
    match digits.drop 1 with
    | [] => []
    | rest => '.' :: rest
  String.ofList (digits.take 1 ++ tail) ++ "e" ++ exponentText exponent

def text (mark : WholeMark) (d : Decimal) : String :=
  let digits := d.significantDigits
  let point := d.pointPosition
  if -4 < point ∧ point ≤ 16 then positional mark digits point
  else scientific digits (point - 1)

end Decimal

namespace Binary64

/-- The text of a number, with the given mark for numbers without a fractional
part. -/
def textWith (mark : Decimal.WholeMark) (x : Binary64) : String :=
  if x.isNaN then "nan"
  else
    (if x.isNegative then "-" else "") ++
      (if x.isInfinite then "inf" else x.shortestDecimal.text mark)

def text (x : Binary64) : String :=
  x.textWith .pointZero

/-- The text of a number with its sign always written; NaN counts as positive. -/
def signedTextWith (mark : Decimal.WholeMark) (x : Binary64) : String :=
  if x.isNegative && !x.isNaN then x.textWith mark else "+" ++ x.textWith mark

/-- All digits of an integral number, followed by `.0`. -/
def wholeText (x : Binary64) : String :=
  (if x.isNegative then "-" else "") ++ toString x.wholePart ++ ".0"

end Binary64

end LuaDump
