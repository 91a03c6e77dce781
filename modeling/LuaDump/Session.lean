import LuaDump.Decimal.Notation
import LuaDump.Decoder.Sequence
import LuaDump.Decoder.Varint

/-! # Reading sessions

Cursor actions given as data. A session holds a current cursor and the cursors
around it; an action reads at the current cursor, opens a narrower cursor or goes
back to the one around it. An action that comes to nothing leaves the session where
that happened.
-/

namespace LuaDump

/-- What an action yields. -/
inductive Reading where
  | nothing
  | flag (value : Bool)
  | integer (value : Int)
  | float (value : Binary64)
  | bytes (value : Bytes)
  | list (values : List Reading)
deriving Repr, Inhabited

/-- A single reading at a cursor. -/
inductive Operation where
  | canRead (count : Int)
  | remaining
  | peekByte
  | nextByte
  | take (count : Int)
  | skip (count : Int)
  | unsigned (width : Int) (bigEndian : Bool)
  | signed (width : Int) (bigEndian : Bool)
  | float (width : Int) (bigEndian : Bool)
  | single
  | checkCount (count : Int)
  | numericHead
  | highGroups (limit : Int)
deriving DecidableEq, Repr

/-- The decoder that performs an operation. -/
def Operation.decoder : Operation → Decoder Reading
  | .canRead count => do
    let left ← Decoder.remaining
    pure (.flag (count ≤ left))
  | .remaining => do
    let left ← Decoder.remaining
    pure (.integer left)
  | .peekByte => do
    let b ← Decoder.peekByte
    pure (.integer b.toNat)
  | .nextByte => do
    let b ← Decoder.nextByte
    pure (.integer b.toNat)
  | .take count => do
    let bytes ← Decoder.take count
    pure (.bytes bytes)
  | .skip count => do
    Decoder.skip count
    pure .nothing
  | .unsigned width bigEndian => do
    let value ← Decoder.unsigned width bigEndian
    pure (.integer value)
  | .signed width bigEndian => do
    let value ← Decoder.signed width bigEndian
    pure (.integer value)
  | .float width bigEndian => do
    let value ← Decoder.float width bigEndian
    pure (.float value)
  | .single => do
    let value ← Decoder.single
    pure (.float value)
  | .checkCount count => do
    Decoder.checkCount count
    pure .nothing
  | .numericHead => do
    let value ← Decoder.numericHead
    pure (.integer value)
  | .highGroups limit => do
    let value ← Decoder.highGroups limit
    pure (.integer value)

/-- What can be done in a session. -/
inductive Action where
  | read (operation : Operation)
  /-- Read up to a terminator. -/
  | takeUntil (terminator : Int)
  /-- Read a low-groups-first integer of so many bits. -/
  | lowGroups (bits : Int)
  /-- Read so many items, labelled with their indices if a label is given. -/
  | items (count : Int) (item : Action) (label : Option String)
  /-- Read a count and as many items, inside a label. -/
  | counted (label : String) (count item : Action) (itemLabel : Option String)
  /-- Open a cursor over the next `size` bytes. -/
  | limit (size : Int)
  /-- Go back to the cursor around the current one. -/
  | pop
deriving Repr

/-- How an action can be asked for wrongly. -/
inductive Misuse where
  /-- The terminator is not a byte. -/
  | terminator
  /-- The number of bits is negative. -/
  | bits
  /-- The count is not an integer. -/
  | count
deriving DecidableEq, Repr

/-- The misuse in words, where it has any. -/
def Misuse.message : Misuse → Option String
  | .terminator => some "bytes must be in range(0, 256)"
  | .bits => some "negative shift count"
  | .count => none

/-- Why an action came to nothing. -/
inductive Fault where
  | failure (failure : Failure)
  | misuse (misuse : Misuse)
deriving DecidableEq, Repr

/-- The fault seen from the construct around it; only a failure has a context. -/
def Fault.push (label : Label) : Fault → Fault
  | .failure found => .failure (found.push label)
  | .misuse found => .misuse found

/-- A position in a window. -/
structure Cursor where
  window : Window
  pos : Int

/-- A current cursor and the cursors around it, the nearest first. -/
structure Session where
  current : Cursor
  outer : List Cursor := []

/-- What came of an action, and the session after it. -/
abbrev Session.Step (α : Type) := Except Fault α × Session

namespace Session

variable {α : Type}

def Step.within (label : Label) (step : Step α) : Step α :=
  (step.1.mapError (Fault.push label), step.2)

def run (session : Session) (d : Decoder α) : Step α :=
  let outcome := d session.current.window session.current.pos
  (outcome.result.mapError .failure, { session with current.pos := outcome.pos })

/-- Open a cursor over the next `size` bytes. -/
def narrow (session : Session) (size : Int) : Step Reading :=
  match session.run (Decoder.limit size) with
  | (.ok window, session) =>
    (.ok .nothing,
      { current := { session.current with window }, outer := session.current :: session.outer })
  | (.error fault, session) => (.error fault, session)

/-- Go back to the cursor around the current one, if there is one. -/
def widen (session : Session) : Session :=
  match session.outer with
  | [] => session
  | cursor :: rest => { current := cursor, outer := rest }

/-- Require that a reading counts no more items than bytes remain. A truth value
counts one or none; a float is compared like any number but does not count. -/
def checkCount (session : Session) : Reading → Step Nat
  | .integer count => declare (toString count) (count ≤ left) count.toNat
  | .flag value =>
    declare (if value then "True" else "False") ((if value then 1 else 0) ≤ left)
      (if value then 1 else 0)
  | .float value =>
    if value.exceeds left then declare value.text false 0
    else (.error (.misuse .count), session)
  | _ => (.error (.misuse .count), session)
where
  left : Int :=
    session.current.window.remaining session.current.pos
  declare (declared : String) (fits : Bool) (count : Nat) : Step Nat :=
    if fits then (.ok count, session)
    else session.run (Decoder.fail (.shortSequence declared left))

/-- Take one step for each index from `index` on, `count` of them. -/
def collect (item : Nat → Session → Step α) :
    (count index : Nat) → Session → Step (List α)
  | 0, _, session => (.ok [], session)
  | count + 1, index, session =>
    match item index session with
    | (.error fault, session) => (.error fault, session)
    | (.ok first, session) =>
      match collect item count (index + 1) session with
      | (.error fault, session) => (.error fault, session)
      | (.ok rest, session) => (.ok (first :: rest), session)

/-- Take as many steps as a reading counts, labelled with their indices if a label is
given. -/
def repeated (session : Session) (count : Reading) (item : Session → Step Reading)
    (label : Option String) : Step Reading :=
  match session.checkCount count with
  | (.error fault, session) => (.error fault, session)
  | (.ok count, session) =>
    let labelled (index : Nat) (session : Session) : Step Reading :=
      match label with
      | some label => (item session).within (.item label index)
      | none => item session
    match collect labelled count 0 session with
    | (.error fault, session) => (.error fault, session)
    | (.ok readings, session) => (.ok (.list readings), session)

end Session

open Session in
/-- Perform an action. -/
def Action.perform : Action → Session → Step Reading
  | .read operation, session => session.run operation.decoder
  | .takeUntil terminator, session =>
    if 0 ≤ terminator ∧ terminator < 256 then
      session.run (Reading.bytes <$> Decoder.takeUntil (UInt8.ofNat terminator.toNat))
    else (.error (.misuse .terminator), session)
  | .lowGroups bits, session =>
    if 0 ≤ bits then
      session.run ((fun (value : Nat) => Reading.integer value) <$> Decoder.lowGroups bits.toNat)
    else
      match session.run Decoder.nextByte with
      | (.ok _, session) => (.error (.misuse .bits), session)
      | (.error fault, session) => (.error fault, session)
  | .items count item label, session => session.repeated (.integer count) item.perform label
  | .counted label count item itemLabel, session =>
    Step.within (.named label)
      (match count.perform session with
      | (.error fault, session) => (.error fault, session)
      | (.ok declared, session) => session.repeated declared item.perform itemLabel)
  | .limit size, session => session.narrow size
  | .pop, session => (.ok .nothing, session.widen)

/-- Perform an action inside the given labels, the first label outermost. -/
def Session.perform (session : Session) (labels : List Label) (action : Action) :
    Session.Step Reading :=
  labels.foldr Session.Step.within (action.perform session)

end LuaDump
