import LuaDump.Bytecode
import LuaDump.Constant.Inspect
import LuaDump.Constant.Literal

/-! # Listings

A listing shows the header of a dump, then every function in the order of a walk,
indented by its level, and last the number of functions.
-/

namespace LuaDump.Listing

/-- A number padded with zeros to three digits. -/
def paddedRank (rank : Nat) : String :=
  let digits := toString rank
  String.ofList (List.replicate (3 - digits.length) '0') ++ digits

/-- Four blanks for each level. -/
def indent (level : Int) : String :=
  String.ofList (List.replicate (4 * level.toNat) ' ')

def headerLine (h : Header) : String :=
  s!"--<@ {h.dialect.name} | format {h.formatVersion} | " ++
    (if h.bigEndian then "big" else "little") ++ " endian @>--"

def titleLine (rank : Nat) (body : Body) : String :=
  "--< Proto->" ++ paddedRank rank ++ " " ++
    (if body.displayName.isEmpty then "?" else body.displayName) ++
    s!" | Line {body.lineDefined}-{body.lastLineDefined} >--"

def countsLine (body : Body) : String :=
  s!"  params: {body.numParams}, upvalues: {body.numUpvalues}, stack: {body.maxStack}, vararg: " ++
    (if body.vararg.isSome then "True" else "False") ++
    s!", instructions: {body.instructions.length}"

/-- The lines of the constants, numbered from the given slot on. -/
def constantLines : (slot : Nat) → List Constant → List String
  | _, [] => []
  | slot, constant :: rest =>
    (s!"  [{slot}] = " ++ constant.literal) :: constantLines (slot + 1) rest

/-- The lines of the numeric constants, numbered from the given slot on. -/
def numberLines : (slot : Nat) → List Number → List String
  | _, [] => []
  | slot, number :: rest => (s!"  #{slot} = " ++ number.text) :: numberLines (slot + 1) rest

/-- The lines of a function, without indentation. -/
def functionLines (rank : Nat) (body : Body) : List String :=
  titleLine rank body :: countsLine body ::
    (constantLines 0 body.constants ++ numberLines 0 body.numConstants)

/-- The lines of the functions of a walk, ranked from the given number on. -/
def walkLines : (rank : Nat) → List (Int × Prototype) → List String
  | _, [] => []
  | rank, (level, tree) :: rest =>
    (functionLines rank tree.body).map (indent level ++ ·) ++ walkLines (rank + 1) rest

def lines (bytecode : Bytecode) : List String :=
  let visited := bytecode.main.walk 0
  headerLine bytecode.header :: walkLines 0 visited ++
    [s!"--<@ Protos: {visited.length} @>--"]

def render (bytecode : Bytecode) : String :=
  String.intercalate "\n" (lines bytecode)

end LuaDump.Listing
