import LuaDump.Binary64
import LuaDump.Decoder

/-! # Fields of fixed size

Single bytes, runs of bytes, and integers and floats of a declared width in either
byte order. A field that does not fit into the window, or that the file does not
hold, fails and leaves the position where it was.
-/

namespace LuaDump.Decoder

/-- The next byte, without moving past it. -/
def peekByte : Decoder UInt8 := fun w pos =>
  if pos + 1 ≤ w.stop then
    match w.byteAt? pos with
    | some b => .done b pos []
    | none => .failed ⟨.byteOutsideFile, pos, []⟩ pos []
  else short "byte" 1 w pos

def nextByte : Decoder UInt8 := do
  let b ← peekByte
  advance 1
  pure b

/-- The next `size` bytes as a field of the given name. -/
def field (what : String) (size : Nat) : Decoder Bytes := fun w pos =>
  if pos + size ≤ w.stop then
    let bytes := w.slice pos (pos + size)
    if bytes.length = size then .done bytes (pos + size) []
    else .failed ⟨.fieldOutsideFile, pos, []⟩ pos []
  else short what size w pos

/-- The next `count` bytes, or as many of them as the file holds. -/
def take (count : Int) : Decoder Bytes := fun w pos =>
  if count < 0 then fail (.negativeRead count) w pos
  else if pos + count ≤ w.stop then .done (w.slice pos (pos + count)) (pos + count) []
  else short "data" count w pos

def skip (count : Int) : Decoder Unit :=
  if count < 0 then fail (.negativeSkip count)
  else do
    need "padding" count
    advance count

/-- The bytes before the next terminator, which is passed as well. -/
def takeUntil (terminator : UInt8) : Decoder Bytes := fun w pos =>
  let start := (w.place pos).toNat
  match w.before? terminator (w.reach start) start with
  | some bytes => .done bytes (start + bytes.length + 1) []
  | none => .failed ⟨.unterminated pos (w.remaining pos), pos, []⟩ pos []

def integerWidths : List Nat :=
  [1, 2, 4, 8]

def floatWidths : List Nat :=
  [4, 8]

/-- Require that a width is one of the allowed ones. -/
def checkWidth (allowed : List Nat) (width : Int) : Decoder Nat :=
  if 0 ≤ width ∧ width.toNat ∈ allowed then pure width.toNat
  else fail (.fieldWidth width allowed)

/-- An unsigned integer of the given width in bytes. -/
def unsigned (width : Int) (bigEndian : Bool) : Decoder Nat := do
  let size ← checkWidth integerWidths width
  let bytes ← field s!"u{size * 8}" size
  pure (bytes.toNat bigEndian)

/-- A two's complement integer of the given width in bytes. -/
def signed (width : Int) (bigEndian : Bool) : Decoder Int := do
  let size ← checkWidth integerWidths width
  let bytes ← field s!"i{size * 8}" size
  pure (signExtend (size * 8) (bytes.toNat bigEndian))

/-- The float with the given pattern of a width of four or eight bytes. -/
def floatOfPattern (size pattern : Nat) : Binary64 :=
  if size = 4 then Binary64.ofBinary32 pattern else Binary64.ofPattern pattern

def float (width : Int) (bigEndian : Bool) : Decoder Binary64 := do
  let size ← checkWidth floatWidths width
  let bytes ← field s!"f{size * 8}" size
  pure (floatOfPattern size (bytes.toNat bigEndian))

/-- A little-endian single-precision float. -/
def single : Decoder Binary64 := do
  let bytes ← field "float" 4
  pure (floatOfPattern 4 bytes.toNatLE)

end LuaDump.Decoder
