import LuaDump.Constant
import LuaDump.Decimal.Notation
import LuaDump.Text.Quoted
import LuaDump.Text.Utf8

/-! # Constants with their kinds

Constants written with the name of their kind, so that every kind can be told from
every other.
-/

namespace LuaDump

def Number.text : Number → String
  | .integer value => toString value
  | .float value => value.text

/-- A complex number. A positive zero as the real part is left out together with the
parentheses. -/
def complexText (re im : Binary64) : String :=
  if re.isZero && !re.isNegative then im.textWith .bare ++ "j"
  else "(" ++ re.textWith .bare ++ im.signedTextWith .bare ++ "j)"

/-- Components in parentheses; a single one is marked by a comma. -/
def tupleText : List String → String
  | [component] => "(" ++ component ++ ",)"
  | components => "(" ++ String.intercalate ", " components ++ ")"

namespace Constant

mutual

def inspect : Constant → String
  | .nil => "Null"
  | .boolean value => if value then "Boolean(True)" else "Boolean(False)"
  | .number (.integer value) => s!"Integer({value})"
  | .number (.float value) => "Number(" ++ value.text ++ ")"
  | .string bytes => "String(" ++ Quoted.text (Utf8.decodeLossy bytes) ++ ")"
  | .proto index => s!"Proto({index})"
  | .importPath id => s!"Import({id})"
  | .vector components => "Vector(" ++ tupleText (components.map Binary64.text) ++ ")"
  | .complex re im => "Complex(" ++ complexText re im ++ ")"
  | .table array hash =>
    "Table(ConstTable(array=[" ++ String.intercalate ", " (inspectList array) ++ "], hash=[" ++
      String.intercalate ", " (inspectEntries hash) ++ "]))"

/-- Constants with their kinds, one by one. -/
def inspectList : List Constant → List String
  | [] => []
  | constant :: rest => inspect constant :: inspectList rest

def inspectEntries : List (Constant × Constant) → List String
  | [] => []
  | (key, value) :: rest =>
    ("(" ++ inspect key ++ ", " ++ inspect value ++ ")") :: inspectEntries rest

end

end Constant

end LuaDump
