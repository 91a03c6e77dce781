import LuaDump.Decoder.Field

/-! # Sequences

Items that follow one another. Every item takes at least one byte, so a count that
exceeds the remaining bytes is refused before the first item is read.
-/

namespace LuaDump.Decoder

variable {α σ : Type}

/-- Require that no more items are declared than bytes remain. -/
def checkCount (count : Int) : Decoder Unit := fun w pos =>
  if count ≤ w.remaining pos then .done () pos []
  else .failed ⟨.shortSequence (toString count) (w.remaining pos), pos, []⟩ pos []

/-- Read one item for each index from `index` on, `count` of them. -/
def collect (item : Nat → Decoder α) : (count index : Nat) → Decoder (List α)
  | 0, _ => pure []
  | count + 1, index => do
    let first ← item index
    let rest ← collect item count (index + 1)
    pure (first :: rest)

/-- Read `count` items for the indices from `index` on, each of them changing a
state. -/
def fold (item : Nat → σ → Decoder σ) : (count index : Nat) → σ → Decoder σ
  | 0, _, state => pure state
  | count + 1, index, state => do
    let next ← item index state
    fold item count (index + 1) next

/-- Read a declared number of items; a negative number stands for none. -/
def items (count : Int) (item : Decoder α) : Decoder (List α) := do
  checkCount count
  collect (fun _ => item) count.toNat 0

/-- Read a declared number of items, each labelled with its index. -/
def labelledItems (label : String) (count : Int) (item : Decoder α) : Decoder (List α) := do
  checkCount count
  collect (fun index => within (.item label index) item) count.toNat 0

/-- A count and exactly that many items. -/
def counted (label : String) (count : Decoder Int) (item : Decoder α) : Decoder (List α) :=
  named label do
    let declared ← count
    items declared item

/-- A count and exactly that many items, each labelled with its index. -/
def countedLabelled (label itemLabel : String) (count : Decoder Int) (item : Decoder α) :
    Decoder (List α) :=
  named label do
    let declared ← count
    labelledItems itemLabel declared item

end LuaDump.Decoder
