import LuaDump.Decoder.Field
import LuaDump.Header

/-! # Recognizing a dump

The signature and the byte after it select the dialect, and the rest of the header
is read as that dialect lays it out. Luau has no signature, so its header is only
read when the dialect is known beforehand.
-/

namespace LuaDump.Header

open Decoder

/-- The first bytes of a dump of the standard interpreter. -/
def luaSignature : Bytes :=
  [0x1B, 0x4C, 0x75, 0x61]

/-- The first bytes of a LuaJIT dump. -/
def luaJitSignature : Bytes :=
  [0x1B, 0x4C, 0x4A]

/-- Pass a signature if it comes next. Input that ends inside the signature is too
short, and other input is left where it is. -/
def matchSignature (signature : Bytes) : Decoder Bool := fun w pos =>
  let head := w.slice pos (min (pos + signature.length) w.stop)
  if head = signature then .done true (pos + signature.length) []
  else if head.isPrefixOf signature then
    .failed ⟨.shortSignature signature, pos + head.length, []⟩ pos []
  else .done false pos []

def declaredWidth (field : String) (allowed : List Nat) : Decoder Nat := do
  let offset ← position
  let width ← nextByte
  if width.toNat ∈ allowed then pure width.toNat
  else failAt offset (.headerWidth field width.toNat allowed)

/-- The integer that a dump writes to show its byte order. -/
def orderSentinel : Nat :=
  0x5678

/-- Read the two sample numbers of a header. The byte order is big-endian if the
sample integer has its value in that order only. -/
def sampleOrder (integerSize numberSize : Nat) : Decoder Bool := do
  let sample ← take integerSize
  let bigEndian := sample.toNatBE == orderSentinel && sample.toNatLE != orderSentinel
  let _ ← float numberSize bigEndian
  pure bigEndian

/-- The rest of a 5.1 or 5.2 header. The width of numbers is judged once it is known
whether they are integers. -/
def rest51 (dialect : Dialect) : Decoder Header := do
  let format ← nextByte
  let order ← nextByte
  let intSize ← declaredWidth "int" integerWidths
  let sizeTSize ← declaredWidth "size_t" integerWidths
  let instructionSize ← declaredWidth "instruction" integerWidths
  let offset ← position
  let numberSize ← nextByte
  let integral ← nextByte
  let numberIntegral := integral != 0
  let allowed := if numberIntegral then integerWidths else floatWidths
  if numberSize.toNat ∉ allowed then
    failAt offset (.headerWidth "number" numberSize.toNat allowed)
  if dialect = .lua52 then skip 6
  pure
    { dialect
      formatVersion := format.toNat
      bigEndian := order != 1
      intSize
      sizeTSize
      instructionSize
      numberSize := numberSize.toNat
      numberIntegral }

def rest53 : Decoder Header := do
  let format ← nextByte
  skip 6
  let intSize ← declaredWidth "int" integerWidths
  let sizeTSize ← declaredWidth "size_t" integerWidths
  let instructionSize ← declaredWidth "instruction" integerWidths
  let integerSize ← declaredWidth "lua_Integer" integerWidths
  let numberSize ← declaredWidth "lua_Number" floatWidths
  let bigEndian ← sampleOrder integerSize numberSize
  let _ ← nextByte
  pure
    { dialect := .lua53
      formatVersion := format.toNat
      bigEndian
      intSize
      sizeTSize
      instructionSize
      numberSize
      integerSize }

def rest54 : Decoder Header := do
  let format ← nextByte
  skip 6
  let instructionSize ← declaredWidth "instruction" integerWidths
  let integerSize ← declaredWidth "lua_Integer" integerWidths
  let numberSize ← declaredWidth "lua_Number" floatWidths
  let bigEndian ← sampleOrder integerSize numberSize
  let _ ← nextByte
  pure
    { dialect := .lua54
      formatVersion := format.toNat
      bigEndian
      intSize := 4
      sizeTSize := 8
      instructionSize
      numberSize
      integerSize }

/-- The rest of a LuaJIT header: one byte of flags. -/
def restJit (dialect : Dialect) : Decoder Header := do
  let flags ← nextByte
  pure
    { dialect
      bigEndian := flags.toNat.testBit 0
      intSize := 4
      sizeTSize := 4
      instructionSize := 4
      numberSize := 4
      stripped := flags.toNat.testBit 1
      hasFfi := flags.toNat.testBit 2 }

/-- The header after the standard signature. -/
def afterLua : Decoder Header := do
  let offset ← position
  let selector ← nextByte
  match selector.toNat with
  | 0x51 => rest51 .lua51
  | 0x52 => rest51 .lua52
  | 0x53 => rest53
  | 0x54 => rest54
  | other => failAt offset (.luaVersion other)

/-- The header after the LuaJIT signature. -/
def afterLuaJit : Decoder Header := do
  let offset ← position
  let selector ← nextByte
  match selector.toNat with
  | 1 => restJit .luaJit1
  | 2 => restJit .luaJit2
  | other => failAt offset (.luaJitVersion other)

/-- Fail with the bytes that stand where a signature should. -/
def unknownSignature : Decoder Header := fun w pos =>
  .failed ⟨.unknownSignature (w.slice pos (pos + 4)), pos, []⟩ pos []

/-- Recognize the dialect by its signature and read the header. -/
def sniff : Decoder Header := do
  let header ← named "header" do
    if ← matchSignature luaSignature then afterLua
    else if ← matchSignature luaJitSignature then afterLuaJit
    else unknownSignature
  emit (.header header)
  pure header

/-- The version bytes of a Luau dump. Version zero marks a compiler's message. -/
def luauVersions : Decoder (Nat × Nat) := do
  let offset ← position
  let version ← nextByte
  if version = 0 then
    let left ← remaining
    let message ← take left
    failAt offset (.compileError message)
  else if version < 3 || 6 < version then failAt offset (.luauVersion version.toNat)
  else if version < 4 then pure (version.toNat, 0)
  else
    let offset ← position
    let types ← nextByte
    if types < 1 || 3 < types then failAt offset (.typesVersion types.toNat)
    else pure (version.toNat, types.toNat)

def luau : Decoder Header := do
  let (version, types) ← named "header" luauVersions
  emit (.luauHeader version types)
  pure
    { dialect := .luau
      formatVersion := version
      intSize := 4
      sizeTSize := 4
      instructionSize := 4
      numberSize := 8
      typesVersion := types }

end LuaDump.Header
