import LuaDump.Header
import LuaDump.Prototype

/-! # Decoded dumps -/

namespace LuaDump

/-- A decoded dump: its header and its main function. -/
structure Bytecode where
  header : Header
  main : Prototype
deriving Repr, Inhabited

/-- Equality of dumps in which floats are compared numerically. -/
def Bytecode.numEq (a b : Bytecode) : Bool :=
  a.header == b.header && a.main.numEq b.main

end LuaDump
