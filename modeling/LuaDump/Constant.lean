import LuaDump.Binary64

/-! # Constants

The values in a function's constant slots.
-/

namespace LuaDump

/-- A number, which is an integer or a float and keeps its kind. -/
inductive Number where
  | integer (value : Int)
  | float (value : Binary64)
deriving DecidableEq, Repr, Inhabited

/-- A constant slot of a function. -/
inductive Constant where
  | nil
  | boolean (value : Bool)
  | number (value : Number)
  | string (value : Bytes)
  /-- The function at the given index among the owner's children. -/
  | proto (index : Int)
  | table (array : List Constant) (hash : List (Constant × Constant))
  /-- A packed path of global names. -/
  | importPath (id : Int)
  /-- The components of a vector, four of them in a dump. -/
  | vector (components : List Binary64)
  | complex (re im : Binary64)
deriving Repr, Inhabited

/-- The kinds of constants. -/
inductive ConstantKind where
  | nil
  | boolean
  | number
  | string
  | proto
  | table
  | importPath
  | vector
  | complex
deriving DecidableEq, Repr, Inhabited

namespace ConstantKind

/-- Every kind, in the order of their numbers. -/
def all : List ConstantKind :=
  [.nil, .boolean, .number, .string, .proto, .table, .importPath, .vector, .complex]

/-- The number that stands for a kind in documents. -/
def code : ConstantKind → Nat
  | .nil => 0
  | .boolean => 1
  | .number => 2
  | .string => 3
  | .proto => 4
  | .table => 5
  | .importPath => 6
  | .vector => 7
  | .complex => 8

def ofCode? (code : Int) : Option ConstantKind :=
  all.find? fun kind => (kind.code : Int) == code

@[simp] theorem ofCode?_code (kind : ConstantKind) : ofCode? kind.code = some kind := by
  cases kind <;> rfl

/-- The message for a number that stands for no kind. -/
def unknownMessage (code : Int) : String :=
  s!"Unknown constant type: {code}"

end ConstantKind

def Constant.kind : Constant → ConstantKind
  | .nil => .nil
  | .boolean _ => .boolean
  | .number _ => .number
  | .string _ => .string
  | .proto _ => .proto
  | .table .. => .table
  | .importPath _ => .importPath
  | .vector _ => .vector
  | .complex .. => .complex

namespace Number

/-- Equality of kind and value; a NaN differs from itself. -/
def numEq : Number → Number → Bool
  | .integer m, .integer n => m == n
  | .float x, .float y => x.numEq y
  | _, _ => false

end Number

/-- Componentwise numerical equality of lists of floats. -/
def floatsEq : List Binary64 → List Binary64 → Bool
  | [], [] => true
  | x :: xs, y :: ys => x.numEq y && floatsEq xs ys
  | _, _ => false

/-- Numerical equality of lists of numbers. -/
def numbersEq : List Number → List Number → Bool
  | [], [] => true
  | x :: xs, y :: ys => x.numEq y && numbersEq xs ys
  | _, _ => false

namespace Constant

def integer (value : Int) : Constant :=
  .number (.integer value)

def float (value : Binary64) : Constant :=
  .number (.float value)

def isNil : Constant → Bool
  | .nil => true
  | _ => false

def isInteger : Constant → Bool
  | .number (.integer _) => true
  | _ => false

def isFloat : Constant → Bool
  | .number (.float _) => true
  | _ => false

mutual

/-- Equality of constants in which floats are compared numerically. -/
def numEq : Constant → Constant → Bool
  | .nil, .nil => true
  | .boolean a, .boolean b => a == b
  | .number a, .number b => a.numEq b
  | .string a, .string b => a == b
  | .proto a, .proto b => a == b
  | .table a h, .table a' h' => listEq a a' && entriesEq h h'
  | .importPath a, .importPath b => a == b
  | .vector a, .vector b => floatsEq a b
  | .complex a b, .complex a' b' => a.numEq a' && b.numEq b'
  | _, _ => false

/-- Elementwise `numEq`. -/
def listEq : List Constant → List Constant → Bool
  | [], [] => true
  | a :: as, b :: bs => numEq a b && listEq as bs
  | _, _ => false

/-- Entrywise `numEq` of table entries, in order. -/
def entriesEq : List (Constant × Constant) → List (Constant × Constant) → Bool
  | [], [] => true
  | (k, v) :: rest, (k', v') :: rest' => numEq k k' && numEq v v' && entriesEq rest rest'
  | _, _ => false

end

end Constant

end LuaDump
