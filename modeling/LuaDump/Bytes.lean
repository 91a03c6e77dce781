/-! # Byte strings

Strings of bytes as they stand in a dump, and the natural numbers they spell in
either byte order.
-/

namespace LuaDump

/-- A string of bytes, with no assumption on its encoding. -/
abbrev Bytes := List UInt8

namespace Bytes

/-- The number whose base-256 digits are the given bytes, lowest first. -/
def toNatLE : Bytes → Nat
  | [] => 0
  | b :: rest => b.toNat + 256 * toNatLE rest

/-- The number whose base-256 digits are the given bytes, highest first. -/
def toNatBE (bytes : Bytes) : Nat :=
  toNatLE bytes.reverse

/-- The number spelled by the bytes in the given order. -/
def toNat (bigEndian : Bool) (bytes : Bytes) : Nat :=
  if bigEndian then toNatBE bytes else toNatLE bytes

/-- The lowest `count` base-256 digits of a number, lowest first. -/
def ofNatLE : Nat → Nat → Bytes
  | 0, _ => []
  | count + 1, n => UInt8.ofNat (n % 256) :: ofNatLE count (n / 256)

/-- The lowest `count` base-256 digits of a number, highest first. -/
def ofNatBE (count n : Nat) : Bytes :=
  (ofNatLE count n).reverse

def ofText (text : String) : Bytes :=
  text.toUTF8.data.toList

@[simp] theorem length_ofNatLE (count n : Nat) : (ofNatLE count n).length = count := by
  induction count generalizing n with
  | zero => rfl
  | succ count ih => simp [ofNatLE, ih]

@[simp] theorem length_ofNatBE (count n : Nat) : (ofNatBE count n).length = count := by
  simp [ofNatBE]

end Bytes

/-- Read an unsigned number of the given bit width as two's complement. -/
def signExtend (bits n : Nat) : Int :=
  if n < Nat.pow 2 (bits - 1) then n else (n : Int) - Nat.pow 2 bits

end LuaDump
