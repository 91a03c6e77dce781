import LuaDump.Command.Arguments
import LuaDump.Decode
import LuaDump.Interchange.Write
import LuaDump.Listing

/-! # The command

The command decodes one file. On success it prints a listing and, if asked, writes
the interchange document; on failure it prints the failure with the name of the
file.
-/

namespace LuaDump.Command

/-- What a run of the command prints, writes and returns. -/
structure Report where
  exitCode : Nat
  stdout : String := ""
  stderr : String := ""
  /-- A file to be written, with its bytes or the reason why there are none. -/
  output : Option (String × Except Interchange.PackError Bytes) := none
  /-- What is printed once that file is written. -/
  closing : String := ""

/-- Lines of text, each ended by a line break. -/
def unlines (lines : List String) : String :=
  String.join (lines.map (· ++ "\n"))

def helpText : String :=
  unlines
    ["usage: luacparse [-h] [--luau] [--msgpack OUT] [--debug] file",
      "",
      "Decode Lua, LuaJIT and Luau bytecode files.",
      "",
      "positional arguments:",
      "  file           bytecode file to decode",
      "",
      "options:",
      "  -h, --help     show this help message and exit",
      "  --luau         the file is Luau bytecode",
      "  --msgpack OUT  also write the decoded tree as msgpack",
      "  --debug        trace every header and prototype"]

/-- The usage that goes with wrong arguments. -/
def usageText : String :=
  unlines ["usage: luacparse [-h] [--luau] [--msgpack OUT] [--debug] file"]

/-- The options that an invocation decodes with. -/
def Invocation.options (invocation : Invocation) : Options :=
  { origin := if invocation.luau then .luau else .sniffed }

/-- The lines of a trace, if tracing is on. -/
def Invocation.traceLines (invocation : Invocation) (trace : List Event) : List String :=
  if invocation.debug then trace.map fun event => "luacparse: " ++ event.text else []

/-- The report on a decoded file. The time that decoding took is given as text. -/
def Invocation.success (invocation : Invocation) (elapsed : String) (bytecode : Bytecode) :
    Report :=
  let stdout := unlines [Listing.render bytecode, "Decoded bytecode in " ++ elapsed ++ "s"]
  if invocation.msgpack.isEmpty then { exitCode := 0, stdout }
  else
    { exitCode := 0
      stdout
      output := some (invocation.msgpack, Interchange.pack bytecode)
      closing := unlines ["Wrote " ++ invocation.msgpack] }

/-- The report on the outcome of decoding. -/
def Invocation.report (invocation : Invocation) (elapsed : String) (outcome : Outcome Bytecode) :
    Report :=
  let trace := invocation.traceLines outcome.trace
  match outcome.result with
  | .ok bytecode => { invocation.success elapsed bytecode with stderr := unlines trace }
  | .error failure =>
    { exitCode := 1
      stderr := unlines (trace ++ [invocation.file ++ ": " ++ failure.message]) }

end LuaDump.Command
