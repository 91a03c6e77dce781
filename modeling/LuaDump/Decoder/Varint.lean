import LuaDump.Decoder.Field

/-! # Integers of variable length

Three ways to write an integer in groups of seven bits. The low-groups-first form
marks every byte but the last; its variant for numeric constants gives up the
lowest bit of the first byte; the high-groups-first form marks only the last byte
and is bounded by a ceiling.
-/

namespace LuaDump.Decoder

/-- The seven payload bits of a byte. -/
def groupOf (b : UInt8) : Nat :=
  b.toNat % 128

/-- Whether the high bit of a byte is set. -/
def isMarked (b : UInt8) : Bool :=
  128 ≤ b.toNat

/-- One group of a low-groups-first integer. The state is the position of the group
and the value of the groups before it. -/
def lowGroup (bits : Nat) (start : Int) (state : Nat × Nat) : Decoder ((Nat × Nat) ⊕ Nat) := do
  let (shift, value) := state
  let b ← nextByte
  let value := value + groupOf b * Nat.pow 2 shift
  if Nat.pow 2 bits ≤ value then failAt start (.groupsTooLarge bits)
  else if !isMarked b then pure (.inr value)
  else if bits + 7 ≤ shift + 7 then failAt start (.groupsTooMany bits)
  else pure (.inl (shift + 7, value))

/-- A low-groups-first integer of at most `bits` bits. -/
def lowGroups (bits : Nat) : Decoder Nat := do
  let start ← position
  iterate (lowGroup bits start) (0, 0)

/-- A low-groups-first integer of at most thirty-two bits. -/
def varint : Decoder Nat :=
  lowGroups 32

/-- One group after the first byte of the head of a numeric constant. -/
def headGroup (start : Int) (state : Nat × Nat) : Decoder ((Nat × Nat) ⊕ Nat) := do
  let (shift, value) := state
  let b ← nextByte
  let value := value + groupOf b * Nat.pow 2 shift
  if !isMarked b then pure (.inr value)
  else if 27 ≤ shift then failAt start .headGroupsTooMany
  else pure (.inl (shift + 7, value))

/-- The head of a numeric constant: the lowest bit of its first byte is a selector
and not part of the value. -/
def numericHead : Decoder Nat := do
  let start ← position
  let b ← nextByte
  let low := b.toNat / 2
  if low < 64 then pure low
  else
    let value ← iterate (headGroup start) (6, low % 64)
    pure (value % 0x100000000)

/-- One group of a high-groups-first integer. -/
def highGroup (ceiling start : Int) (value : Nat) : Decoder (Nat ⊕ Nat) := do
  let b ← nextByte
  if ceiling ≤ value then failAt start .aboveCeiling
  else
    let value := value * 128 + groupOf b
    pure (if isMarked b then .inr value else .inl value)

/-- A high-groups-first integer that stays below the given limit. -/
def highGroups (limit : Int) : Decoder Nat := do
  let start ← position
  iterate (highGroup (limit / 128) start) 0

/-- The size of a string in the high-groups-first form. -/
def highSize : Decoder Nat :=
  highGroups 0xFFFFFFFFFFFFFFFF

/-- A count or a line in the high-groups-first form. -/
def highInt : Decoder Nat :=
  highGroups 0x7FFFFFFF

end LuaDump.Decoder
