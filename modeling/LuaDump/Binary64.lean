import LuaDump.Bytes

/-! # Double-precision numbers by bit pattern

A number is its sixty-four bits, so that every NaN payload and the sign of zero
survive. All arithmetic on the fields is exact arithmetic on naturals.
-/

namespace LuaDump

/-- A double-precision floating-point number, given by its bit pattern. -/
structure Binary64 where
  bits : UInt64
deriving DecidableEq, Repr, Inhabited

namespace Binary64

/-- The weight of the sign bit in a pattern. -/
abbrev signWeight : Nat :=
  0x8000000000000000

/-- The weight of the lowest exponent bit in a pattern, which is also that of the
leading bit in a significand. -/
abbrev unitWeight : Nat :=
  0x10000000000000

/-- The number with the given bit pattern. -/
def ofPattern (pattern : Nat) : Binary64 :=
  ⟨UInt64.ofNat pattern⟩

def pattern (x : Binary64) : Nat :=
  x.bits.toNat

/-- Put a number together from sign, biased exponent and fraction. -/
def assemble (sign exponent fraction : Nat) : Binary64 :=
  ofPattern (sign * signWeight + exponent * unitWeight + fraction)

def isNegative (x : Binary64) : Bool :=
  signWeight ≤ x.pattern

def exponent (x : Binary64) : Nat :=
  x.pattern / unitWeight % 2048

def fraction (x : Binary64) : Nat :=
  x.pattern % unitWeight

/-- Whether the pattern is one of the NaNs. -/
def isNaN (x : Binary64) : Bool :=
  x.exponent == 2047 && x.fraction != 0

/-- Whether the pattern is one of the two infinities. -/
def isInfinite (x : Binary64) : Bool :=
  x.exponent == 2047 && x.fraction == 0

/-- Whether the number is a zero of either sign. -/
def isZero (x : Binary64) : Bool :=
  x.exponent == 0 && x.fraction == 0

/-- The integer significand: a finite number has absolute value
`significand * 2 ^ scale`. -/
def significand (x : Binary64) : Nat :=
  if x.exponent = 0 then x.fraction else unitWeight + x.fraction

/-- The power of two that `significand` is scaled by. -/
def scale (x : Binary64) : Int :=
  (max x.exponent 1 : Nat) - 1075

/-- Whether the number is finite and has no fractional part. -/
def isIntegral (x : Binary64) : Bool :=
  x.exponent != 2047 && (0 ≤ x.scale || x.significand % Nat.pow 2 (-x.scale).toNat == 0)

/-- The integer part of the absolute value of a finite number. -/
def wholePart (x : Binary64) : Nat :=
  x.significand * Nat.pow 2 x.scale.toNat / Nat.pow 2 (-x.scale).toNat

/-- Numerical equality: a NaN differs from everything and the two zeros agree. -/
def numEq (x y : Binary64) : Bool :=
  !x.isNaN && !y.isNaN && (x.bits == y.bits || x.isZero && y.isZero)

/-- Whether the number is greater than an integer. A NaN is greater than nothing. -/
def exceeds (x : Binary64) (n : Int) : Bool :=
  if x.isNaN then false
  else if x.isInfinite then !x.isNegative
  else
    let signed : Int := if x.isNegative then -(x.significand : Int) else x.significand
    n * (Nat.pow 2 (-x.scale).toNat : Nat) < signed * (Nat.pow 2 x.scale.toNat : Nat)

/-- Widen a single-precision pattern. Every finite number and infinity keeps its
value; a NaN keeps its payload and becomes quiet. -/
def ofBinary32 (pattern : Nat) : Binary64 :=
  let sign := pattern / 0x80000000
  let exponent := pattern / 0x800000 % 256
  let fraction := pattern % 0x800000
  if exponent = 255 then
    if fraction = 0 then assemble sign 2047 0
    else assemble sign 2047 (fraction * 0x20000000 ||| 0x8000000000000)
  else if exponent = 0 then
    if fraction = 0 then assemble sign 0 0
    else
      let top := fraction.log2
      assemble sign (top + 874) ((fraction - Nat.pow 2 top) * Nat.pow 2 (52 - top))
  else assemble sign (exponent + 896) (fraction * 0x20000000)

/-- Divide, rounding to nearest and a half to even. -/
def roundDiv (n divisor : Nat) : Nat :=
  let quotient := n / divisor
  let twice := 2 * (n % divisor)
  if twice < divisor ∨ (twice = divisor ∧ quotient % 2 = 0) then quotient else quotient + 1

/-- The nearest number to an integer of at most sixty-four bits, a half going to
the even neighbour. -/
def ofInt (n : Int) : Binary64 :=
  let sign := if n < 0 then 1 else 0
  let size := n.natAbs
  if size = 0 then assemble 0 0 0
  else
    let top := size.log2
    let rounded :=
      if top ≤ 52 then size * Nat.pow 2 (52 - top) else roundDiv size (Nat.pow 2 (top - 52))
    ofPattern (sign * signWeight + (top + 1022) * unitWeight + rounded)

/-- The pattern of the nearest nonnegative number to a quotient, a half going to the
even neighbour, and infinity beyond the greatest number. The quotient is taken in
units of the smallest number; what is left of it after dropping the bits beyond a
significand is a pattern already, and each dropped bit adds one to the exponent. -/
def patternOfRatio (numerator denominator : Nat) : Nat :=
  let units := numerator * Nat.pow 2 1074
  let dropped := (units / denominator).log2 - 52
  let rounded := roundDiv units (denominator * Nat.pow 2 dropped)
  min (dropped * unitWeight + rounded) (2047 * unitWeight)

end Binary64

end LuaDump
