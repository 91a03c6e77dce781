/-! # Bytecode dialects

The dialects of precompiled Lua that can be told apart, each with its number and
its name in listings.
-/

namespace LuaDump

/-- A dialect of precompiled Lua. -/
inductive Dialect where
  | lua51
  | lua52
  | lua53
  | lua54
  | luaJit1
  | luaJit2
  | luau
deriving DecidableEq, Repr, Inhabited

namespace Dialect

/-- The number that stands for a dialect in headers and documents. -/
def code : Dialect → Nat
  | .lua51 => 0x51
  | .lua52 => 0x52
  | .lua53 => 0x53
  | .lua54 => 0x54
  | .luaJit1 => 0x11
  | .luaJit2 => 0x12
  | .luau => 0x75

def name : Dialect → String
  | .lua51 => "LUA51"
  | .lua52 => "LUA52"
  | .lua53 => "LUA53"
  | .lua54 => "LUA54"
  | .luaJit1 => "LUAJ1"
  | .luaJit2 => "LUAJ2"
  | .luau => "LUAU"

def all : List Dialect :=
  [.lua51, .lua52, .lua53, .lua54, .luaJit1, .luaJit2, .luau]

def ofCode? (code : Int) : Option Dialect :=
  all.find? fun dialect => (dialect.code : Int) == code

@[simp] theorem ofCode?_code (dialect : Dialect) : ofCode? dialect.code = some dialect := by
  cases dialect <;> rfl

/-- Whether a dialect is one of the LuaJIT dialects. -/
def isLuaJit : Dialect → Bool
  | .luaJit1 | .luaJit2 => true
  | _ => false

end Dialect

end LuaDump
