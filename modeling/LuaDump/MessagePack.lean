import LuaDump.Binary64
import LuaDump.Bytes

/-! # MessagePack

Values of the MessagePack format and their canonical form: every integer, string,
array and map in the shortest form there is for it, nonnegative integers in the
unsigned forms, and floats always in double precision.
-/

namespace LuaDump.MessagePack

/-- A MessagePack value. A map keeps its entries in order. -/
inductive Value where
  | nil
  | boolean (value : Bool)
  | integer (value : Int)
  | float (value : Binary64)
  | text (value : String)
  | binary (value : Bytes)
  | array (items : List Value)
  | map (entries : List (Value × Value))
  /-- An extension that an application defines. -/
  | extension (kind : Nat) (data : Bytes)
  /-- A point in time. -/
  | timestamp (seconds : Int) (nanoseconds : Nat)
deriving Repr, Inhabited

/-- A byte from a number below 256. -/
def byte (n : Nat) : UInt8 :=
  UInt8.ofNat n

/-- A tag and a number of the given width, highest byte first. -/
def tagged (tag width n : Nat) : Bytes :=
  byte tag :: Bytes.ofNatBE width n

/-- An integer, if it has at most sixty-four bits. -/
def encodeInt (n : Int) : Option Bytes :=
  if n < -0x8000000000000000 then none
  else if n < -0x80000000 then some (tagged 0xD3 8 (n + 0x10000000000000000).toNat)
  else if n < -0x8000 then some (tagged 0xD2 4 (n + 0x100000000).toNat)
  else if n < -0x80 then some (tagged 0xD1 2 (n + 0x10000).toNat)
  else if n < -32 then some (tagged 0xD0 1 (n + 0x100).toNat)
  else if n < 0 then some [byte (n + 0x100).toNat]
  else if n < 0x80 then some [byte n.toNat]
  else if n < 0x100 then some (tagged 0xCC 1 n.toNat)
  else if n < 0x10000 then some (tagged 0xCD 2 n.toNat)
  else if n < 0x100000000 then some (tagged 0xCE 4 n.toNat)
  else if n < 0x10000000000000000 then some (tagged 0xCF 8 n.toNat)
  else none

/-- The head of a string of the given length. -/
def textHead (length : Nat) : Option Bytes :=
  if length < 32 then some [byte (0xA0 + length)]
  else if length < 0x100 then some (tagged 0xD9 1 length)
  else if length < 0x10000 then some (tagged 0xDA 2 length)
  else if length < 0x100000000 then some (tagged 0xDB 4 length)
  else none

/-- The head of a byte string of the given length. -/
def binaryHead (length : Nat) : Option Bytes :=
  if length < 0x100 then some (tagged 0xC4 1 length)
  else if length < 0x10000 then some (tagged 0xC5 2 length)
  else if length < 0x100000000 then some (tagged 0xC6 4 length)
  else none

/-- The head of an array of the given length. -/
def arrayHead (length : Nat) : Option Bytes :=
  if length < 16 then some [byte (0x90 + length)]
  else if length < 0x10000 then some (tagged 0xDC 2 length)
  else if length < 0x100000000 then some (tagged 0xDD 4 length)
  else none

/-- The head of a map of the given length. -/
def mapHead (length : Nat) : Option Bytes :=
  if length < 16 then some [byte (0x80 + length)]
  else if length < 0x10000 then some (tagged 0xDE 2 length)
  else if length < 0x100000000 then some (tagged 0xDF 4 length)
  else none

/-- The head of an extension of the given length, without its kind. -/
def extensionHead (length : Nat) : Option Bytes :=
  match length with
  | 1 => some [0xD4]
  | 2 => some [0xD5]
  | 4 => some [0xD6]
  | 8 => some [0xD7]
  | 16 => some [0xD8]
  | _ =>
    if length < 0x100 then some (tagged 0xC7 1 length)
    else if length < 0x10000 then some (tagged 0xC8 2 length)
    else if length < 0x100000000 then some (tagged 0xC9 4 length)
    else none

/-- The data of a timestamp, which is an extension of its own kind. Seconds that are
not negative and small enough share eight bytes with the nanoseconds, or have four
bytes if there are none. -/
def timestampData (seconds : Int) (nanoseconds : Nat) : Bytes :=
  if 0 ≤ seconds ∧ seconds < 0x400000000 then
    if nanoseconds = 0 ∧ seconds < 0x100000000 then Bytes.ofNatBE 4 seconds.toNat
    else Bytes.ofNatBE 8 (nanoseconds * 0x400000000 + seconds.toNat)
  else Bytes.ofNatBE 4 nanoseconds ++ Bytes.ofNatBE 8 (seconds % 0x10000000000000000).toNat

mutual

/-- The canonical form of a value; there is none if an integer or a length is out of
range. -/
def encode : Value → Option Bytes
  | .nil => some [0xC0]
  | .boolean value => some [if value then 0xC3 else 0xC2]
  | .integer value => encodeInt value
  | .float value => some (tagged 0xCB 8 value.pattern)
  | .text value => do
    let bytes := Bytes.ofText value
    let head ← textHead bytes.length
    some (head ++ bytes)
  | .binary bytes => do
    let head ← binaryHead bytes.length
    some (head ++ bytes)
  | .array items => do
    let head ← arrayHead items.length
    let body ← encodeList items
    some (head ++ body)
  | .map entries => do
    let head ← mapHead entries.length
    let body ← encodeEntries entries
    some (head ++ body)
  | .extension kind data => do
    let head ← extensionHead data.length
    some (head ++ byte kind :: data)
  | .timestamp seconds nanoseconds => do
    let data := timestampData seconds nanoseconds
    let head ← extensionHead data.length
    some (head ++ 0xFF :: data)

/-- The canonical forms of values, one after another. -/
def encodeList : List Value → Option Bytes
  | [] => some []
  | item :: rest => do
    let first ← encode item
    let others ← encodeList rest
    some (first ++ others)

/-- The canonical forms of keys and values, one after another. -/
def encodeEntries : List (Value × Value) → Option Bytes
  | [] => some []
  | (key, value) :: rest => do
    let first ← encode key
    let second ← encode value
    let others ← encodeEntries rest
    some (first ++ second ++ others)

end

mutual

/-- How many values are nested in one another, from the value itself to the innermost
one. -/
def Value.levels : Value → Nat
  | .array items => levelsOf items + 1
  | .map entries => levelsOfEntries entries + 1
  | _ => 1

/-- The greatest number of levels of several values. -/
def Value.levelsOf : List Value → Nat
  | [] => 0
  | item :: rest => max (Value.levels item) (Value.levelsOf rest)

/-- The greatest number of levels of several keys and values. -/
def Value.levelsOfEntries : List (Value × Value) → Nat
  | [] => 0
  | (key, value) :: rest =>
    max (max (Value.levels key) (Value.levels value)) (Value.levelsOfEntries rest)

end

end LuaDump.MessagePack
