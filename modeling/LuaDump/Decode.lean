import LuaDump.Bytecode
import LuaDump.Header.Sniff
import LuaDump.Jit.Record
import LuaDump.Luau.Record
import LuaDump.Standard.Release

/-! # Decoding a file

A file is its header followed by its main function in the header's dialect. Bytes
after the main function are left alone. The depth limit is the only bound on how deep
functions nest: an interpreter's own limit on recursion is not modelled.
-/

namespace LuaDump

open Decoder

/-- How the dialect of a file is known. -/
inductive Origin where
  /-- The file shows its dialect by its signature. -/
  | sniffed
  | luau
deriving DecidableEq, Repr, Inhabited

/-- The name of a dialect as a caller gives it. -/
inductive DialectName where
  | text (name : String)
  | code (number : Int)
deriving DecidableEq, Repr

def DialectName.quoted : DialectName → String
  | .text name => Quoted.text name
  | .code number => toString number

/-- The origin that a caller asks for. Luau is the only dialect that can be named;
the error is the message for any other name. -/
def Origin.ofName : Option DialectName → Except String Origin
  | none => .ok .sniffed
  | some name =>
    if name = .text "luau" ∨ name = .code Dialect.luau.code then .ok .luau
    else .error ("Only Luau has to be named explicitly, got dialect " ++ name.quoted)

/-- How to decode a file. -/
structure Options where
  origin : Origin := .sniffed
  /-- The greatest depth at which a function may be nested. -/
  maxDepth : Int := 200
  /-- Dialects that are not accepted. -/
  disabled : List Dialect := []
deriving Repr, Inhabited

/-- The main function after the given header. -/
def mainFunction (h : Header) (maxDepth : Int) : Decoder Prototype :=
  match h.dialect with
  | .lua51 => (Standard.grammar51 h).main maxDepth
  | .lua52 => (Standard.grammar52 h).main maxDepth
  | .lua53 => (Standard.grammar53 h).main maxDepth
  | .lua54 => (Standard.grammar54 h).main maxDepth
  | .luaJit1 | .luaJit2 => Jit.main h maxDepth
  | .luau => Luau.main h maxDepth

/-- The header of a file of the given origin. -/
def Origin.header : Origin → Decoder Header
  | .sniffed => Header.sniff
  | .luau => Header.luau

/-- A whole file. -/
def file (options : Options) : Decoder Bytecode := do
  let header ← options.origin.header
  if header.dialect ∈ options.disabled then failAt 0 (.dialectDisabled header.dialect)
  let main ← mainFunction header options.maxDepth
  let left ← remaining
  emit (.finished header.dialect left)
  pure { header, main }

/-- Decode a file. -/
def decode (options : Options) (data : Array UInt8) : Outcome Bytecode :=
  file options (Window.whole data) 0

end LuaDump
