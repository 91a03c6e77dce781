import LuaDump.Event
import LuaDump.Failure

/-! # Decoders

A decoder reads a window of a file from a position onwards. Its outcome carries the
position it stopped at and the trace it emitted, whether it succeeded or failed, so
that a failure tells how far the decoder had come. A decoder cannot change its
window; `limit` makes a narrower one, and `inWindow` runs a decoder in it.
-/

namespace LuaDump

/-- The part of a file that may be read: it ends before offset `stop`. A window may
end before the position it is read from, and then nothing remains in it. It may also
reach beyond the file, where there are no bytes. -/
structure Window where
  data : Array UInt8
  stop : Int

namespace Window

def whole (data : Array UInt8) : Window :=
  ⟨data, data.size⟩

/-- How many bytes remain from a position onwards. -/
def remaining (w : Window) (pos : Int) : Int :=
  w.stop - pos

/-- Where a position lies in the file: a position before the start counts back from
the end. -/
def place (w : Window) (pos : Int) : Int :=
  if pos < 0 then pos + w.data.size else pos

/-- The byte at a position, if the file has one there. -/
def byteAt? (w : Window) (pos : Int) : Option UInt8 :=
  if 0 ≤ w.place pos then w.data[(w.place pos).toNat]? else none

/-- The bytes between two positions, as far as the file has them. -/
def slice (w : Window) (start stop : Int) : Bytes :=
  (w.data.extract (w.place start).toNat (w.place stop).toNat).toList

/-- How many bytes of the file the window has from the given place onwards. -/
def reach (w : Window) (start : Nat) : Nat :=
  min (w.place w.stop).toNat w.data.size - start

/-- The bytes before the first occurrence of `target` among the `count` bytes of the
file from the given place onwards. -/
def before? (w : Window) (target : UInt8) : (count start : Nat) → Option Bytes
  | 0, _ => none
  | count + 1, start => do
    let b ← w.data[start]?
    if b = target then some []
    else
      let rest ← w.before? target count (start + 1)
      some (b :: rest)

end Window

/-- How a decoder ended: the value or the failure, the position and the trace. -/
inductive Outcome (α : Type) where
  | done (value : α) (pos : Int) (trace : List Event)
  | failed (failure : Failure) (pos : Int) (trace : List Event)

namespace Outcome

variable {α : Type}

def pos : Outcome α → Int
  | .done _ pos _ => pos
  | .failed _ pos _ => pos

def trace : Outcome α → List Event
  | .done _ _ trace => trace
  | .failed _ _ trace => trace

def result : Outcome α → Except Failure α
  | .done value _ _ => .ok value
  | .failed failure _ _ => .error failure

/-- The outcome of a decoder that had emitted a trace before. -/
def after (earlier : List Event) : Outcome α → Outcome α
  | .done value pos trace => .done value pos (earlier ++ trace)
  | .failed failure pos trace => .failed failure pos (earlier ++ trace)

@[simp] theorem after_nil (outcome : Outcome α) : outcome.after [] = outcome := by
  cases outcome <;> rfl

@[simp] theorem after_after (first second : List Event) (outcome : Outcome α) :
    (outcome.after second).after first = outcome.after (first ++ second) := by
  cases outcome <;> simp [after]

end Outcome

/-- A computation that reads a window from a position onwards. -/
def Decoder (α : Type) : Type :=
  Window → Int → Outcome α

namespace Decoder

variable {α β : Type}

/-- Succeed without reading. -/
protected def pure (value : α) : Decoder α :=
  fun _ pos => .done value pos []

/-- Run one decoder and, if it succeeds, another one from where it stopped. -/
protected def bind (first : Decoder α) (next : α → Decoder β) : Decoder β := fun w pos =>
  match first w pos with
  | .done value pos trace => (next value w pos).after trace
  | .failed failure pos trace => .failed failure pos trace

instance : Monad Decoder where
  pure := Decoder.pure
  bind := Decoder.bind

theorem pure_apply (value : α) (w : Window) (pos : Int) :
    (pure value : Decoder α) w pos = .done value pos [] :=
  rfl

theorem bind_apply (first : Decoder α) (next : α → Decoder β) (w : Window) (pos : Int) :
    (first >>= next) w pos =
      match first w pos with
      | .done value pos trace => (next value w pos).after trace
      | .failed failure pos trace => .failed failure pos trace :=
  rfl

protected theorem id_map (d : Decoder α) : id <$> d = d := by
  funext w pos
  change (d >>= fun value => pure value) w pos = d w pos
  rw [bind_apply]
  cases d w pos <;> simp [pure_apply, Outcome.after]

protected theorem pure_bind (value : α) (next : α → Decoder β) :
    (pure value >>= next) = next value := by
  funext w pos
  rw [bind_apply, pure_apply]
  exact Outcome.after_nil _

protected theorem bind_assoc {γ : Type} (d : Decoder α) (next : α → Decoder β)
    (last : β → Decoder γ) :
    (d >>= next) >>= last = d >>= fun value => next value >>= last := by
  funext w pos
  simp only [bind_apply]
  cases d w pos with
  | failed failure pos trace => rfl
  | done value pos trace =>
    dsimp only
    cases next value w pos with
    | failed failure pos' trace' => rfl
    | done value' pos' trace' => exact (Outcome.after_after trace trace' _).symm

instance : LawfulMonad Decoder :=
  LawfulMonad.mk' Decoder Decoder.id_map Decoder.pure_bind Decoder.bind_assoc

def position : Decoder Int :=
  fun _ pos => .done pos pos []

def remaining : Decoder Int :=
  fun w pos => .done (w.remaining pos) pos []

def failAt (offset : Int) (cause : Cause) : Decoder α :=
  fun _ pos => .failed ⟨cause, offset, []⟩ pos []

def fail (cause : Cause) : Decoder α :=
  fun _ pos => .failed ⟨cause, pos, []⟩ pos []

def emit (event : Event) : Decoder Unit :=
  fun _ pos => .done () pos [event]

/-- Label whatever the decoder reads, for the context of its failures. -/
def within (label : Label) (d : Decoder α) : Decoder α := fun w pos =>
  match d w pos with
  | .done value pos trace => .done value pos trace
  | .failed failure pos trace => .failed (failure.push label) pos trace

/-- `within` for a label without an index. -/
def named (name : String) (d : Decoder α) : Decoder α :=
  within (.named name) d

/-- Fail because fewer than `size` bytes remain for a field. -/
def short (what : String) (size : Int) : Decoder α :=
  fun w pos => .failed ⟨.shortField what size pos (w.remaining pos), pos, []⟩ pos []

def need (what : String) (size : Int) : Decoder Unit := fun w pos =>
  if pos + size ≤ w.stop then .done () pos [] else short what size w pos

/-- Move forward without looking at the window. -/
def advance (count : Int) : Decoder Unit :=
  fun _ pos => .done () (pos + count) []

/-- The window over the next `size` bytes. Offsets in it are offsets in the file. -/
def limit (size : Int) : Decoder Window := fun w pos =>
  if pos + size ≤ w.stop then .done ⟨w.data, pos + size⟩ pos [] else short "block" size w pos

/-- Run a decoder in another window from the current position. The position does
not move; the position that the decoder reached is part of the result. -/
def inWindow (inner : Window) (d : Decoder α) : Decoder (α × Int) := fun _ pos =>
  match d inner pos with
  | .done value reached trace => .done (value, reached) pos trace
  | .failed failure _ trace => .failed failure pos trace

/-- Repeat a step from a starting state, at most `rounds` times: a step yields
either the next state or the result. -/
def iterateFor (step : α → Decoder (α ⊕ β)) : (rounds : Nat) → α → Decoder β
  | 0, _ => short "byte" 1
  | rounds + 1, state => do
    match ← step state with
    | .inl next => iterateFor step rounds next
    | .inr result => pure result

/-- Repeat a step that reads at least one byte until it yields a result. There are
no more rounds than bytes, so the bound of one round for each byte that remains,
and one more, is never reached. -/
def iterate (step : α → Decoder (α ⊕ β)) (start : α) : Decoder β := fun w pos =>
  iterateFor step ((w.remaining pos).toNat + 1) start w pos

end Decoder

end LuaDump
