import LuaDump.Constant
import LuaDump.Text.Utf8

/-! # Function prototypes

A function prototype is a record of its own fields together with the prototypes
nested in it. `Prototype.walk` visits the tree with an explicit stack of pending
prototypes, parents before children.
-/

namespace LuaDump

/-- The instructions during which a local variable is live. -/
structure Local where
  name : Bytes
  startPc : Int
  endPc : Int
  register : Int := 0
deriving DecidableEq, Repr, Inhabited

/-- What a variadic function does with its extra arguments. -/
structure Vararg where
  hasArg : Bool
  needsArg : Bool
deriving DecidableEq, Repr, Inhabited

/-- Where a captured variable comes from. -/
structure Upvalue where
  onStack : Bool
  id : Int
  kind : Int := 0
deriving DecidableEq, Repr, Inhabited

/-- The fields of a function that belong to it alone. -/
structure Body where
  name : Bytes := []
  lineDefined : Int := 0
  lastLineDefined : Int := 0
  numUpvalues : Int := 0
  numParams : Int := 0
  maxStack : Int := 0
  flags : Int := 0
  vararg : Option Vararg := none
  instructions : List Int := []
  constants : List Constant := []
  /-- Numbers of a dialect that keeps them apart from its other constants. -/
  numConstants : List Number := []
  sourceLines : List (Int × Int) := []
  lineInfo : List Int := []
  locals : List Local := []
  upvalues : List Upvalue := []
  upvalueNames : List Bytes := []
  typeInfo : Bytes := []
deriving Repr, Inhabited

/-- A function prototype: its own fields and the prototypes nested in it. -/
structure Prototype where
  body : Body
  children : List Prototype
deriving Repr, Inhabited

/-- A flag of a LuaJIT function. -/
inductive FunctionFlag where
  | hasChild
  | isVariadic
  | hasFfi
  | jitDisabled
  | hasLoop
deriving DecidableEq, Repr

namespace FunctionFlag

/-- Every flag, from the lowest bit up. -/
def all : List FunctionFlag :=
  [.hasChild, .isVariadic, .hasFfi, .jitDisabled, .hasLoop]

def bit : FunctionFlag → Nat
  | .hasChild => 0
  | .isVariadic => 1
  | .hasFfi => 2
  | .jitDisabled => 3
  | .hasLoop => 4

end FunctionFlag

namespace Body

def displayName (body : Body) : String :=
  Utf8.decodeLossy body.name

/-- Whether the function has no instructions. -/
def isEmpty (body : Body) : Bool :=
  body.instructions.isEmpty

/-- The bits of `flags` that are function flags. -/
def flagBits (body : Body) : Nat :=
  (body.flags % 32).toNat

/-- The function flags that are set, from the lowest bit up. -/
def flagsSet (body : Body) : List FunctionFlag :=
  FunctionFlag.all.filter fun flag => body.flagBits.testBit flag.bit

/-- Equality of bodies in which floats are compared numerically. -/
def numEq (a b : Body) : Bool :=
  a.name == b.name && a.lineDefined == b.lineDefined &&
    a.lastLineDefined == b.lastLineDefined && a.numUpvalues == b.numUpvalues &&
    a.numParams == b.numParams && a.maxStack == b.maxStack && a.flags == b.flags &&
    a.vararg == b.vararg && a.instructions == b.instructions &&
    Constant.listEq a.constants b.constants && numbersEq a.numConstants b.numConstants &&
    a.sourceLines == b.sourceLines && a.lineInfo == b.lineInfo && a.locals == b.locals &&
    a.upvalues == b.upvalues && a.upvalueNames == b.upvalueNames && a.typeInfo == b.typeInfo

end Body

namespace Prototype

mutual

def count : Prototype → Nat
  | ⟨_, children⟩ => countAll children + 1

/-- How many prototypes a list of trees holds. -/
def countAll : List Prototype → Nat
  | [] => 0
  | child :: rest => count child + countAll rest

end

mutual

/-- The nesting depth of a tree; a prototype without children has height zero. -/
def height : Prototype → Nat
  | ⟨_, children⟩ => heightAll children

/-- One more than the greatest height in a list of trees, and zero for none. -/
def heightAll : List Prototype → Nat
  | [] => 0
  | child :: rest => max (height child + 1) (heightAll rest)

end

mutual

/-- Equality of trees in which floats are compared numerically. -/
def numEq : Prototype → Prototype → Bool
  | ⟨body, children⟩, ⟨body', children'⟩ => body.numEq body' && listEq children children'

/-- Elementwise `numEq`. -/
def listEq : List Prototype → List Prototype → Bool
  | [], [] => true
  | a :: as, b :: bs => numEq a b && listEq as bs
  | _, _ => false

end

/-- The total size of the trees on a stack of pending prototypes. -/
def pendingCount : List (Int × Prototype) → Nat
  | [] => 0
  | (_, tree) :: rest => tree.count + pendingCount rest

theorem pendingCount_append (xs ys : List (Int × Prototype)) :
    pendingCount (xs ++ ys) = pendingCount xs + pendingCount ys := by
  induction xs with
  | nil => simp [pendingCount]
  | cons head tail ih => simp [pendingCount, ih, Nat.add_assoc]

theorem count_eq (tree : Prototype) : tree.count = countAll tree.children + 1 := by
  cases tree
  simp [count]

/-- The given prototypes, all at one level. -/
def atLevel (level : Int) : List Prototype → List (Int × Prototype)
  | [] => []
  | tree :: rest => (level, tree) :: atLevel level rest

theorem pendingCount_atLevel (level : Int) (trees : List Prototype) :
    pendingCount (atLevel level trees) = countAll trees := by
  induction trees with
  | nil => simp [atLevel, pendingCount, countAll]
  | cons head tail ih => simp [atLevel, pendingCount, countAll, ih]

/-- Visit every pending prototype with its level: the next one leaves the stack,
and its children take its place one level deeper. -/
def walkFrom : List (Int × Prototype) → List (Int × Prototype)
  | [] => []
  | (level, tree) :: rest =>
    (level, tree) :: walkFrom (atLevel (level + 1) tree.children ++ rest)
termination_by pending => pendingCount pending
decreasing_by
  simp only [pendingCount_append, pendingCount_atLevel, pendingCount, count_eq]
  omega

/-- The prototypes of a tree, parents first, each with its level; the root has the
given level. -/
def walk (tree : Prototype) (level : Int) : List (Int × Prototype) :=
  walkFrom [(level, tree)]

end Prototype

end LuaDump
