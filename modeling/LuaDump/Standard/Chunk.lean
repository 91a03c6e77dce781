import LuaDump.Decoder.Sequence
import LuaDump.Prototype

/-! # Chunks of the standard interpreter

All releases of the standard interpreter write a function in the same way: a head,
its instructions, its constants, the nested functions, and a tail of debug
information. A `Grammar` holds what a release decides for itself, and `Grammar.chunk`
is the recursion that all releases share.
-/

namespace LuaDump.Standard

open Decoder

/-- What stands before the instructions of a function. -/
structure Head where
  name : Bytes := []
  lineDefined : Int
  lastLineDefined : Int
  /-- The number of captured variables, where it is written out. -/
  declaredUpvalues : Option Int := none
  numParams : Int
  vararg : Option Vararg
  maxStack : Int

/-- What stands after the nested functions. -/
structure Tail where
  /-- Captured variables that are described only here. -/
  upvalues : List Upvalue := []
  /-- The name, if it is written only here. -/
  name : Option Bytes := none
  lineInfo : List Int := []
  sourceLines : List (Int × Int)
  locals : List Local
  upvalueNames : List Bytes

/-- What a release decides about the form of a function. -/
structure Grammar where
  /-- A count before a list. -/
  count : Decoder Int
  head : Decoder Head
  /-- The name that a trace shows for a function with the given head. -/
  tracedName : Head → Option Bytes
  instruction : Decoder Int
  constant : Decoder Constant
  /-- The captured variables that are described before the nested functions. -/
  upvalues : Decoder (List Upvalue)
  tail : Decoder Tail

/-- The fields of a function from its parts. -/
def assemble (head : Head) (instructions : List Int) (constants : List Constant)
    (early : List Upvalue) (tail : Tail) : Body :=
  let upvalues := early ++ tail.upvalues
  { name := tail.name.getD head.name
    lineDefined := head.lineDefined
    lastLineDefined := head.lastLineDefined
    numUpvalues := head.declaredUpvalues.getD upvalues.length
    numParams := head.numParams
    maxStack := head.maxStack
    vararg := head.vararg
    instructions
    constants
    sourceLines := tail.sourceLines
    lineInfo := tail.lineInfo
    locals := tail.locals
    upvalues
    upvalueNames := tail.upvalueNames }

namespace Grammar

/-- A function with at most the given number of levels, itself included. The limit
is the one named in the failure when no level is left. -/
def chunk (g : Grammar) (maxDepth : Int) : (levels : Nat) → Decoder Prototype
  | 0 => fail (.tooDeep maxDepth)
  | levels + 1 => named "chunk" do
    let head ← g.head
    emit (.chunk (g.tracedName head) head.lineDefined head.lastLineDefined)
    let instructions ← counted "count instruction" g.count g.instruction
    let constants ← countedLabelled "count constants" "constant" g.count g.constant
    let early ← g.upvalues
    let children ←
      countedLabelled "count prototypes" "prototype" g.count (g.chunk maxDepth levels)
    let tail ← g.tail
    pure ⟨assemble head instructions constants early tail, children⟩

/-- The main function. It stands at depth zero, so a limit of `maxDepth` leaves one
level more than that. -/
def main (g : Grammar) (maxDepth : Int) : Decoder Prototype :=
  g.chunk maxDepth (maxDepth + 1).toNat

end Grammar

end LuaDump.Standard
