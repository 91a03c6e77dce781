import LuaDump.Text.Digit

/-! # Command-line arguments

Switches may stand anywhere and long ones may be abbreviated. A value is attached
with an equals sign or given as the next argument. After a double dash everything
is an operand. There is exactly one operand, the file.
-/

namespace LuaDump.Command

/-- The switches of the command. -/
inductive Switch where
  | help
  | luau
  | msgpack
  | debug
deriving DecidableEq, Repr

namespace Switch

def longName : Switch → String
  | .help => "--help"
  | .luau => "--luau"
  | .msgpack => "--msgpack"
  | .debug => "--debug"

def all : List Switch :=
  [.help, .luau, .msgpack, .debug]

/-- The switches whose long names start with the given text. -/
def startingWith (start : String) : List Switch :=
  all.filter fun switch => start.toList.isPrefixOf switch.longName.toList

end Switch

/-- What an argument is. -/
inductive Token where
  | operand (text : String)
  /-- The double dash that ends the switches. -/
  | marker
  | switch (switch : Switch) (attached : Option String)
  /-- The short form of help, with what follows it in the same argument. -/
  | shortHelp (rest : List Char)
  | unknown
  /-- The start of the names of several switches. -/
  | ambiguous
deriving DecidableEq, Repr

/-- A text split at its first equals sign. -/
def splitEquals (text : List Char) : List Char × Option (List Char) :=
  match text.span (· != '=') with
  | (name, '=' :: value) => (name, some value)
  | (name, _) => (name, none)

/-- A text without a line break at its end. -/
def dropLineBreak (text : List Char) : List Char :=
  if text.getLast? = some '\n' then text.dropLast else text

/-- Whether the characters after a dash spell a decimal number. A line break may end
it. -/
def isNumeral (text : List Char) : Bool :=
  match (dropLineBreak text).span Text.isDigit with
  | (whole, []) => !whole.isEmpty
  | (_, '.' :: decimals) => !decimals.isEmpty && decimals.all Text.isDigit
  | _ => false

/-- An argument that starts with a dash and names no switch. Numbers and texts with
blanks are operands all the same. -/
def dashed (argument : String) : Token :=
  if isNumeral (argument.toList.drop 1) || argument.toList.contains ' ' then .operand argument
  else .unknown

/-- An argument that starts with two dashes. -/
def classifyLong (argument : String) : Token :=
  let (name, value) := splitEquals argument.toList
  let attached := value.map String.ofList
  match Switch.all.find? fun switch => switch.longName.toList == name with
  | some switch => .switch switch attached
  | none =>
    match Switch.startingWith (String.ofList name) with
    | [] => dashed argument
    | [switch] => .switch switch attached
    | _ => .ambiguous

/-- What an argument before the double dash is. -/
def classify (argument : String) : Token :=
  match argument.toList with
  | [] | ['-'] => .operand argument
  | ['-', '-'] => .marker
  | '-' :: '-' :: _ => classifyLong argument
  | '-' :: 'h' :: rest => .shortHelp rest
  | '-' :: _ => dashed argument
  | _ => .operand argument

/-- What the arguments are; after the double dash all are operands. -/
def tokens : List String → List Token
  | [] => []
  | argument :: rest =>
    match classify argument with
    | .marker => .marker :: rest.map .operand
    | token => token :: tokens rest

/-- What a run of the command is to do. -/
structure Invocation where
  file : String
  luau : Bool := false
  /-- Where the document is to be written; the empty text stands for nowhere. -/
  msgpack : String := ""
  debug : Bool := false
deriving DecidableEq, Repr

/-- The arguments seen so far. -/
structure Seen where
  file : Option String := none
  luau : Bool := false
  msgpack : String := ""
  debug : Bool := false
  /-- Whether there was an argument that has no place. -/
  surplus : Bool := false
deriving DecidableEq, Repr

/-- What the arguments ask for. -/
inductive Request where
  | run (invocation : Invocation)
  | help
  | misuse
deriving DecidableEq, Repr

/-- The request when no argument is left. -/
def Seen.request (seen : Seen) : Request :=
  match seen.file with
  | some file =>
    if seen.surplus then .misuse
    else
      .run { file, luau := seen.luau, msgpack := seen.msgpack, debug := seen.debug }
  | none => .misuse

/-- Whether the short form of help asks for help. It may be repeated in the same
argument, also after an equals sign, but nothing else may follow it. -/
def asksForHelp : List Char → Bool
  | '=' :: letters => !letters.isEmpty && letters.all (· == 'h')
  | letters => letters.all (· == 'h')

/-- The output path that a value attached to its switch stands for. A double dash
stands for none. -/
def attachedPath (value : String) : String :=
  if value = "--" then "" else value

/-- Go through the arguments from left to right. A double dash next to the file is
passed over; elsewhere it has no place. -/
def interpret (seen : Seen) : List Token → Request
  | [] => seen.request
  | .operand text :: .marker :: rest =>
    if seen.file.isNone then interpret { seen with file := some text } rest
    else interpret { seen with surplus := true } rest
  | .operand text :: rest =>
    if seen.file.isNone then interpret { seen with file := some text } rest
    else interpret { seen with surplus := true } rest
  | .marker :: .operand text :: rest =>
    if seen.file.isNone then interpret { seen with file := some text } rest
    else interpret { seen with surplus := true } rest
  | .marker :: rest => interpret { seen with surplus := true } rest
  | .switch .msgpack (some value) :: rest =>
    interpret { seen with msgpack := attachedPath value } rest
  | .switch .msgpack none :: .operand value :: rest =>
    interpret { seen with msgpack := value } rest
  | .switch .luau none :: rest => interpret { seen with luau := true } rest
  | .switch .debug none :: rest => interpret { seen with debug := true } rest
  | .switch .help none :: _ => .help
  | .switch _ _ :: _ => .misuse
  | .shortHelp rest :: _ => if asksForHelp rest then .help else .misuse
  | .unknown :: rest => interpret { seen with surplus := true } rest
  | .ambiguous :: _ => .misuse

def request (arguments : List String) : Request :=
  let tokens := tokens arguments
  if tokens.contains .ambiguous then .misuse else interpret {} tokens

end LuaDump.Command
