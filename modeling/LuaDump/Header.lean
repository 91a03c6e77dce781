import LuaDump.Dialect

/-! # File headers

What a dump declares before its first function: the dialect and the shapes of the
fields that follow.
-/

namespace LuaDump

/-- The header of a dump. A dialect that does not declare a field leaves it at its
default. -/
structure Header where
  dialect : Dialect
  formatVersion : Int := 0
  bigEndian : Bool := false
  intSize : Int := 4
  sizeTSize : Int := 8
  instructionSize : Int := 4
  numberSize : Int := 8
  /-- Whether numbers are integers throughout. -/
  numberIntegral : Bool := false
  /-- The width of integer constants where they are kept apart from floats. -/
  integerSize : Int := 8
  stripped : Bool := false
  hasFfi : Bool := false
  typesVersion : Int := 0
deriving DecidableEq, Repr, Inhabited

end LuaDump
