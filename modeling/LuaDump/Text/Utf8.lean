import LuaDump.Bytes

/-! # Reading UTF-8

Byte strings are split into characters and ill-formed stretches. A stretch is the
longest start of a well-formed sequence, or a single byte that starts none, so
each is replaced by exactly one replacement character.
-/

namespace LuaDump.Utf8

def isContinuation (b : UInt8) : Bool :=
  0x80 ≤ b && b ≤ 0xBF

/-- How many continuation bytes a leading byte asks for, if it can lead at all. -/
def followers? (lead : UInt8) : Option Nat :=
  if lead < 0x80 then some 0
  else if 0xC2 ≤ lead && lead ≤ 0xDF then some 1
  else if 0xE0 ≤ lead && lead ≤ 0xEF then some 2
  else if 0xF0 ≤ lead && lead ≤ 0xF4 then some 3
  else none

/-- Whether a byte may stand second after the given leading byte. The narrower
ranges leave out overlong forms, surrogates and values past the last scalar. -/
def isSecond (lead second : UInt8) : Bool :=
  if lead = 0xE0 then 0xA0 ≤ second && second ≤ 0xBF
  else if lead = 0xED then 0x80 ≤ second && second ≤ 0x9F
  else if lead = 0xF0 then 0x90 ≤ second && second ≤ 0xBF
  else if lead = 0xF4 then 0x80 ≤ second && second ≤ 0x8F
  else isContinuation second

/-- The six payload bits of a continuation byte. -/
def payload (b : UInt8) : Nat :=
  b.toNat % 64

/-- Split bytes into characters, with `none` for each ill-formed stretch. -/
def units : Bytes → List (Option Char)
  | [] => []
  | b0 :: r0 =>
    match followers? b0 with
    | none => none :: units r0
    | some 0 => some (Char.ofNat b0.toNat) :: units r0
    | some more =>
      match r0 with
      | [] => [none]
      | b1 :: r1 =>
        if !isSecond b0 b1 then none :: units (b1 :: r1)
        else if more = 1 then
          some (Char.ofNat (b0.toNat % 32 * 64 + payload b1)) :: units r1
        else
          match r1 with
          | [] => [none]
          | b2 :: r2 =>
            if !isContinuation b2 then none :: units (b2 :: r2)
            else if more = 2 then
              some (Char.ofNat (b0.toNat % 16 * 4096 + payload b1 * 64 + payload b2)) :: units r2
            else
              match r2 with
              | [] => [none]
              | b3 :: r3 =>
                if !isContinuation b3 then none :: units (b3 :: r3)
                else
                  some (Char.ofNat (b0.toNat % 8 * 262144 + payload b1 * 4096 + payload b2 * 64 +
                    payload b3)) :: units r3

/-- The character that stands for an ill-formed stretch. -/
def replacement : Char :=
  '�'

/-- Read bytes as text, with one replacement character per ill-formed stretch. -/
def decodeLossy (bytes : Bytes) : String :=
  String.ofList ((units bytes).map (·.getD replacement))

/-- Read bytes as text if they are well-formed throughout. -/
def decode? (bytes : Bytes) : Option String :=
  ((units bytes).mapM id).map String.ofList

end LuaDump.Utf8
