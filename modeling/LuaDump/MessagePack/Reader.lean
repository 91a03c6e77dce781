import LuaDump.MessagePack
import LuaDump.Text.Utf8

/-! # Reading MessagePack

Every form of a value is accepted, not only the canonical one. Text must be
well-formed, and a key of a map must be a text or a byte string. A map that repeats a
key keeps its place and the last of its values. Arrays and maps may be nested up to a
given depth.
-/

namespace LuaDump.MessagePack

/-- The first `count` bytes and the rest, if there are so many. -/
def split? : (count : Nat) → Bytes → Option (Bytes × Bytes)
  | 0, rest => some ([], rest)
  | _ + 1, [] => none
  | count + 1, b :: rest => do
    let (taken, rest) ← split? count rest
    some (b :: taken, rest)

/-- A number of the given width, highest byte first. -/
def number? (width : Nat) (bytes : Bytes) : Option (Nat × Bytes) := do
  let (taken, rest) ← split? width bytes
  some (taken.toNatBE, rest)

/-- A given number of items, one after another. -/
def many? {α : Type} (item : Bytes → Option (α × Bytes)) :
    (count : Nat) → Bytes → Option (List α × Bytes)
  | 0, bytes => some ([], bytes)
  | count + 1, bytes => do
    let (first, bytes) ← item bytes
    let (others, bytes) ← many? item count bytes
    some (first :: others, bytes)

def isKey : Value → Bool
  | .text _ | .binary _ => true
  | _ => false

/-- An unsigned integer of the given width. -/
def unsigned? (width : Nat) (bytes : Bytes) : Option (Value × Bytes) := do
  let (n, rest) ← number? width bytes
  some (.integer n, rest)

def signed? (width : Nat) (bytes : Bytes) : Option (Value × Bytes) := do
  let (n, rest) ← number? width bytes
  some (.integer (signExtend (8 * width) n), rest)

def text? (length : Nat) (bytes : Bytes) : Option (Value × Bytes) := do
  let (taken, rest) ← split? length bytes
  let text ← Utf8.decode? taken
  some (.text text, rest)

def binary? (length : Nat) (bytes : Bytes) : Option (Value × Bytes) := do
  let (taken, rest) ← split? length bytes
  some (.binary taken, rest)

/-- A timestamp from its data. There are less than a billion nanoseconds. -/
def timestamp? (data : Bytes) : Option Value :=
  let moment? :=
    match data.length with
    | 4 => some ((data.toNatBE : Int), 0)
    | 8 => some ((data.toNatBE % 0x400000000 : Nat), data.toNatBE / 0x400000000)
    | 12 => some (signExtend 64 (Bytes.toNatBE (data.drop 4)), Bytes.toNatBE (data.take 4))
    | _ => none
  match moment? with
  | some (seconds, nanoseconds) =>
    if nanoseconds < 1000000000 then some (.timestamp seconds nanoseconds) else none
  | none => none

/-- An extension of the given length, with its kind in front. Of the kinds that are
reserved for the format there are only timestamps. -/
def extension? (length : Nat) (bytes : Bytes) : Option (Value × Bytes) := do
  let (kind, rest) ← number? 1 bytes
  let (taken, rest) ← split? length rest
  if kind < 128 then some (.extension kind taken, rest)
  else if kind = 255 then
    let moment ← timestamp? taken
    some (moment, rest)
  else none

/-- A value whose length has the given width. -/
def withLength? (width : Nat) (part : Nat → Bytes → Option (Value × Bytes)) (bytes : Bytes) :
    Option (Value × Bytes) := do
  let (length, rest) ← number? width bytes
  part length rest

def keyValue? (value : Bytes → Option (Value × Bytes)) (bytes : Bytes) :
    Option ((Value × Value) × Bytes) := do
  let (key, rest) ← value bytes
  if isKey key then
    let (item, rest) ← value rest
    some ((key, item), rest)
  else none

def array? (value : Bytes → Option (Value × Bytes)) (length : Nat) (bytes : Bytes) :
    Option (Value × Bytes) := do
  let (items, rest) ← many? value length bytes
  some (.array items, rest)

def sameKey : Value → Value → Bool
  | .text a, .text b => a == b
  | .binary a, .binary b => a == b
  | _, _ => false

/-- Entries with one more: a new key comes last, a known one gets the new value. -/
def put (entry : Value × Value) : List (Value × Value) → List (Value × Value)
  | [] => [entry]
  | (key, value) :: rest =>
    if sameKey key entry.1 then (key, entry.2) :: rest else (key, value) :: put entry rest

def map? (value : Bytes → Option (Value × Bytes)) (length : Nat) (bytes : Bytes) :
    Option (Value × Bytes) := do
  let (entries, rest) ← many? (keyValue? value) length bytes
  some (.map (entries.foldl (fun known entry => put entry known) []), rest)

/-- What follows a tag of an array or a map, where `value` reads the values in it. -/
def container? (value : Bytes → Option (Value × Bytes)) (tag : Nat) (rest : Bytes) :
    Option (Value × Bytes) :=
  if tag < 0x90 then map? value (tag - 0x80) rest
  else if tag < 0xA0 then array? value (tag - 0x90) rest
  else
    match tag with
    | 0xDC => withLength? 2 (array? value) rest
    | 0xDD => withLength? 4 (array? value) rest
    | 0xDE => withLength? 2 (map? value) rest
    | 0xDF => withLength? 4 (map? value) rest
    | _ => none

/-- Whether a tag opens an array or a map. -/
def isContainer (tag : Nat) : Bool :=
  (0x80 ≤ tag && tag < 0xA0) || (0xDC ≤ tag && tag < 0xE0)

/-- What follows a tag of a value that holds no other values. -/
def scalar? (tag : Nat) (rest : Bytes) : Option (Value × Bytes) :=
  if tag < 0x80 then some (.integer tag, rest)
  else if tag < 0xA0 then none
  else if tag < 0xC0 then text? (tag - 0xA0) rest
  else if 0xE0 ≤ tag then some (.integer ((tag : Int) - 256), rest)
  else
    match tag with
    | 0xC0 => some (.nil, rest)
    | 0xC2 => some (.boolean false, rest)
    | 0xC3 => some (.boolean true, rest)
    | 0xC4 => withLength? 1 binary? rest
    | 0xC5 => withLength? 2 binary? rest
    | 0xC6 => withLength? 4 binary? rest
    | 0xC7 => withLength? 1 extension? rest
    | 0xC8 => withLength? 2 extension? rest
    | 0xC9 => withLength? 4 extension? rest
    | 0xCA => do
      let (pattern, rest) ← number? 4 rest
      some (.float (Binary64.ofBinary32 pattern), rest)
    | 0xCB => do
      let (pattern, rest) ← number? 8 rest
      some (.float (Binary64.ofPattern pattern), rest)
    | 0xCC => unsigned? 1 rest
    | 0xCD => unsigned? 2 rest
    | 0xCE => unsigned? 4 rest
    | 0xCF => unsigned? 8 rest
    | 0xD0 => signed? 1 rest
    | 0xD1 => signed? 2 rest
    | 0xD2 => signed? 4 rest
    | 0xD3 => signed? 8 rest
    | 0xD4 => extension? 1 rest
    | 0xD5 => extension? 2 rest
    | 0xD6 => extension? 4 rest
    | 0xD7 => extension? 8 rest
    | 0xD8 => extension? 16 rest
    | 0xD9 => withLength? 1 text? rest
    | 0xDA => withLength? 2 text? rest
    | 0xDB => withLength? 4 text? rest
    | _ => none

/-- A value with at most the given number of arrays and maps around one another. -/
def valueWithin? : (depth : Nat) → Bytes → Option (Value × Bytes)
  | _, [] => none
  | 0, tag :: rest => scalar? tag.toNat rest
  | depth + 1, tag :: rest =>
    if isContainer tag.toNat then container? (valueWithin? depth) tag.toNat rest
    else scalar? tag.toNat rest

/-- The value that the bytes hold, if they hold exactly one, with at most the given
number of arrays and maps around one another. -/
def decode? (depth : Nat) (bytes : Bytes) : Option Value :=
  match valueWithin? depth bytes with
  | some (value, []) => some value
  | _ => none

end LuaDump.MessagePack
