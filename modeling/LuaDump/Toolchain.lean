import LuaDump.Text.Quoted

/-! # Compilers

The command lines that make dumps with the usual compilers, and the name of the
prebuilt compiler for a machine.
-/

namespace LuaDump.Toolchain

/-- A path with repeated slashes, single dots and final slashes left out. Exactly two
slashes in front are kept, and the empty path is the current directory. -/
def cleanPath (path : String) : String :=
  let chars := path.toList
  let root :=
    match (chars.takeWhile (· == '/')).length with
    | 0 => ""
    | 2 => "//"
    | _ => "/"
  let segments := (path.splitOn "/").filter fun segment => segment ≠ "" ∧ segment ≠ "."
  match root ++ String.intercalate "/" segments with
  | "" => "."
  | cleaned => cleaned

/-- A compiler that makes dumps. -/
inductive Compiler where
  | luac (release : String)
  | luaJit
  | luau
deriving DecidableEq, Repr

namespace Compiler

/-- The releases of the standard compiler. -/
def releases : List String :=
  ["5.1", "5.2", "5.3", "5.4"]

/-- The compiler for a dialect by its name. -/
def ofName? (name : String) : Option Compiler :=
  match releases.find? fun release => "lua" ++ release == name with
  | some release => some (.luac release)
  | none =>
    if name = "luajit" then some .luaJit else if name = "luau" then some .luau else none

/-- The program that is run unless another one is given. -/
def program : Compiler → String
  | .luac release => "luac" ++ release
  | .luaJit => "luajit"
  | .luau => "luau-compile"

/-- The arguments that compile one file. The last compiler writes to its standard
output. -/
def arguments (input output : String) : Compiler → List String
  | .luac _ => ["-o", output, input]
  | .luaJit => ["-b", "-g", input, output]
  | .luau => ["--binary", "-O0", "-g0", input]

end Compiler

/-- The command line that compiles a file for a dialect. The error is the message for
a dialect that is not known. -/
def compileCommand (dialect input output : String) (program : Option String) :
    Except String (List String) :=
  match Compiler.ofName? dialect with
  | some compiler =>
    .ok ((program.map cleanPath).getD compiler.program ::
      compiler.arguments (cleanPath input) (cleanPath output))
  | none => .error ("Unknown dialect " ++ Quoted.text dialect)

/-- Why there is no prebuilt compiler. -/
inductive PlatformError where
  | processor (machine : String)
  | system (name : String)
deriving DecidableEq, Repr

def PlatformError.message : PlatformError → String
  | .processor machine =>
    "The prebuilt binaries for MacOS are for Apple Silicon/aarch64, not " ++ machine ++ "."
  | .system name => "Your OS " ++ name ++ " isn't supported."

/-- The name of the prebuilt compiler for a machine, with a warning if it is a guess. -/
def releasePlatform (system platform machine : String) :
    Except PlatformError String × Option String :=
  if system = "nt" then (.ok "windows", none)
  else if system = "posix" then
    if platform = "linux" then (.ok "ubuntu", none)
    else if platform = "darwin" then
      if machine = "arm64" ∨ machine = "aarch64" then (.ok "macos", none)
      else (.error (.processor machine), none)
    else
      (.ok "ubuntu",
        some ("sys.platform value " ++ platform ++ " not handled, assuming Linux/Ubuntu."))
  else (.error (.system system), none)

end LuaDump.Toolchain
