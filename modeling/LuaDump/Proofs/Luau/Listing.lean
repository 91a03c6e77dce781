import LuaDump.Proofs.Everywhere
import LuaDump.Proofs.Raising.Header

/-! # Records as they are listed

A file lists its functions one after another, each with its own fields and the numbers of
its children. The listing of a file is read without a table: no child is looked up, none is
taken, and nothing is said of depth. Whenever a file is decoded, its listing can be read, and
the two readings go through the same bytes.
-/

namespace LuaDump

namespace Decoder

variable {α β γ δ σ : Type}

/-- Whenever the first decoder succeeds, so does the second one. It stops at the same
position, and the two values are related. -/
def MirroredBy (d : Decoder α) (related : α → β → Prop) (e : Decoder β) : Prop :=
  ∀ ⦃w pos value last trace⦄, d w pos = .done value last trace →
    ∃ image trace', e w pos = .done image last trace' ∧ related value image

namespace MirroredBy

variable {d : Decoder α} {e : Decoder β} {related : α → β → Prop}

theorem pure {value : α} {image : β} (hrelated : related value image) :
    (Pure.pure value : Decoder α).MirroredBy related (Pure.pure image) := by
  intro w pos result last trace hdone
  obtain ⟨rfl, rfl, -⟩ := pure_eq_done_iff.mp hdone
  exact ⟨image, [], rfl, hrelated⟩

theorem fail (cause : Cause) : (Decoder.fail cause : Decoder α).MirroredBy related e :=
  fun _ _ _ _ _ hdone => absurd hdone not_fail_eq_done

theorem failAt (offset : Int) (cause : Cause) :
    (Decoder.failAt offset cause : Decoder α).MirroredBy related e :=
  fun _ _ _ _ _ hdone => absurd hdone not_failAt_eq_done

theorem bind {next : α → Decoder γ} {next' : β → Decoder δ} {related' : γ → δ → Prop}
    (hd : d.MirroredBy related e)
    (hnext : ∀ value image, related value image →
      (next value).MirroredBy related' (next' image)) :
    (d >>= next).MirroredBy related' (e >>= next') := by
  intro w pos result last trace hdone
  obtain ⟨value, mid, first, second, hfirst, hsecond, -⟩ := bind_eq_done_iff.mp hdone
  obtain ⟨image, first', himage, hrelated⟩ := hd hfirst
  obtain ⟨result', second', hresult, hlast⟩ := hnext value image hrelated hsecond
  exact ⟨result', first' ++ second',
    bind_eq_done_iff.mpr ⟨image, mid, first', second', himage, hresult, rfl⟩, hlast⟩

/-- Both decoders begin in the same way. -/
theorem bind_same {first : Decoder γ} {next : γ → Decoder α} {next' : γ → Decoder β}
    (hnext : ∀ value, (next value).MirroredBy related (next' value)) :
    (first >>= next).MirroredBy related (first >>= next') := by
  have hfirst : first.MirroredBy Eq first :=
    fun _ _ value _ trace hdone => ⟨value, trace, hdone, rfl⟩
  exact hfirst.bind fun value image heq => heq ▸ hnext value

theorem bind_image {first : Decoder β} {next : β → Decoder α}
    (hnext : ∀ image, (next image).MirroredBy related (Pure.pure image)) :
    (first >>= next).MirroredBy related first := by
  have hfirst : (first >>= next).MirroredBy related (first >>= Pure.pure) := bind_same hnext
  rwa [bind_pure] at hfirst

theorem emit_bind {event : Event} {next : Unit → Decoder α}
    (hnext : (next ()).MirroredBy related e) :
    (emit event >>= next).MirroredBy related e := by
  intro w pos result last trace hdone
  obtain ⟨value, mid, first, second, hemit, hsecond, -⟩ := bind_eq_done_iff.mp hdone
  obtain ⟨-, rfl, -⟩ := Outcome.done.inj hemit
  exact hnext hsecond

theorem position_bind {next : Int → Decoder α}
    (hnext : ∀ offset, (next offset).MirroredBy related e) :
    (position >>= next).MirroredBy related e := by
  intro w pos result last trace hdone
  obtain ⟨offset, mid, first, second, hposition, hsecond, -⟩ := bind_eq_done_iff.mp hdone
  obtain ⟨-, rfl, -⟩ := Outcome.done.inj hposition
  exact hnext offset hsecond

theorem map_image {image : β → γ} {related' : α → γ → Prop}
    (hd : d.MirroredBy (fun value found => related' value (image found)) e) :
    d.MirroredBy related' (e >>= fun found => Pure.pure (image found)) := by
  intro w pos value last trace hdone
  obtain ⟨found, trace', hfound, hrelated⟩ := hd hdone
  exact ⟨image found, trace' ++ [],
    bind_eq_done_iff.mpr ⟨found, last, trace', [], hfound, rfl, rfl⟩, hrelated⟩

theorem map {next : α → γ} {related' : γ → β → Prop} (hd : d.MirroredBy related e)
    (hnext : ∀ value image, related value image → related' (next value) image) :
    (d >>= fun value => Pure.pure (next value)).MirroredBy related' e := by
  intro w pos result last trace hdone
  obtain ⟨value, mid, first, second, hfirst, hsecond, -⟩ := bind_eq_done_iff.mp hdone
  obtain ⟨rfl, rfl, -⟩ := pure_eq_done_iff.mp hsecond
  obtain ⟨image, trace', himage, hrelated⟩ := hd hfirst
  exact ⟨image, trace', himage, hnext value image hrelated⟩

theorem within (hd : d.MirroredBy related e) (label : Label) :
    (Decoder.within label d).MirroredBy related e :=
  fun _ _ _ _ _ hdone => hd (within_eq_done_iff.mp hdone)

/-- Items that change a state are mirrored by a list of items, if what relates the state to
the items so far is kept by every item. -/
theorem fold {item : Nat → σ → Decoder σ} {item' : Nat → Decoder β}
    (related : σ → List β → Prop)
    (hitem : ∀ index state images, related state images →
      (item index state).MirroredBy (fun next image => related next (images ++ [image]))
        (item' index))
    (count index : Nat) {state : σ} (images : List β) (hstate : related state images) :
    (fold item count index state).MirroredBy (fun last more => related last (images ++ more))
      (collect item' count index) := by
  induction count generalizing index state images with
  | zero => exact .pure (by rwa [List.append_nil])
  | succ count ih =>
      refine (hitem index state images hstate).bind fun next image hnext => ?_
      refine .map_image ?_
      simpa using ih (index + 1) (images ++ [image]) hnext

end MirroredBy

end Decoder

namespace Luau

open Decoder

/-- A record as it stands in a file: the own fields of a function, and the numbers of its
children. -/
structure FlatRecord where
  body : Body
  children : List Nat

/-- The functions of a file in their order, and the number of the main one. -/
structure Listing where
  records : List FlatRecord
  main : Nat

def childNumbers : Decoder (List Nat) := do
  let count ← varint
  checkCount count
  collect (fun _ => varint) count 0

theorem settles_childNumbers : childNumbers.Settles 1 :=
  settles_varint.bind fun count => (settles_items count settles_varint).weak

/-- One record. No child is looked up. -/
def flatRecord (h : Header) (strings : Array Bytes) : Decoder FlatRecord := do
  let maxStack ← byte
  let numParams ← byte
  let numUpvalues ← byte
  let variadic ← nextByte
  let (flags, typeInfo) ← typeBlock h
  let instructions ← counted "count instruction" count instruction
  let raw ← constants strings
  let children ← childNumbers
  let linked ← linkConstants children 0 raw
  let lineDefined ← count
  let name ← stringRef strings
  let (lineInfo, sourceLines) ← optionalPart ([], []) (lineTable instructions.length)
  let (locals, upvalueNames) ← optionalPart ([], []) (debugTable strings)
  let body : Body :=
    { name, lineDefined, numUpvalues, numParams, maxStack, flags, instructions
      vararg := if variadic = 0 then none else some ⟨true, true⟩
      constants := linked
      sourceLines, lineInfo, locals, upvalueNames, typeInfo }
  pure ⟨body, children⟩

/-- The listing after the given header. -/
def listing (h : Header) : Decoder Listing := do
  let strings ← stringTable
  userdataTypes h strings
  let recordCount ← varint
  checkCount recordCount
  let records ← collect (fun _ => flatRecord h strings) recordCount 0
  let main ← varint
  pure ⟨records, main⟩

/-- The listing of a whole file. -/
def fileListing : Decoder Listing := do
  let header ← Header.luau
  listing header

section Claiming

theorem get?_setIfInBounds_self (table : Table) (number : Nat) :
    Table.get? (table.setIfInBounds number none) number = none := by
  unfold Table.get?
  rw [Array.getElem?_setIfInBounds, if_pos rfl]
  by_cases hnumber : number < table.size <;> simp [hnumber]

theorem get?_push_of_lt {table : Table} {entry : Option Entry} {number : Nat}
    (hnumber : number < table.size) :
    Table.get? (table.push entry) number = table.get? number := by
  rw [Table.get?, Table.get?, Array.getElem?_push_lt hnumber, Array.getElem?_eq_getElem hnumber]

theorem TakenFrom.get?_eq_none {table : Table} {taken : Table × List Child}
    (htaken : TakenFrom table taken) {number : Nat} (hget : table.get? number = none) :
    taken.1.get? number = none := by
  refine Option.eq_none_iff_forall_ne_some.mpr fun entry hentry => ?_
  simp [htaken.rest hentry] at hget

/-- Children are taken from the table once: they have different numbers, and leave their
places empty. -/
structure Claims (table : Table) (taken : Table × List Child) : Prop extends
    TakenFrom table taken where
  nodup : (taken.2.map (·.number)).Nodup
  empty : ∀ child ∈ taken.2, taken.1.get? child.number = none

theorem Claims.take {table rest : Table} {children : List Child} {number : Nat} {entry : Entry}
    (hclaims : Claims table (rest, children)) (hget : rest.get? number = some entry) :
    Claims table (rest.setIfInBounds number none, children ++ [⟨number, entry⟩]) where
  size_eq := by rw [Array.size_setIfInBounds, hclaims.size_eq]
  rest hother := hclaims.rest (get?_of_setIfInBounds_none hother)
  children := List.forall_mem_append.mpr ⟨hclaims.children, by simpa using hclaims.rest hget⟩
  nodup := by
    have hnew : ∀ child ∈ children, child.number ≠ number := by
      rintro child hchild rfl
      simp [hclaims.empty child hchild] at hget
    rw [List.map_append, List.map_singleton]
    refine List.nodup_append.mpr ⟨hclaims.nodup, by simp, ?_⟩
    rintro _ hold _ hlast rfl
    obtain ⟨child, hchild, rfl⟩ := List.mem_map.mp hold
    exact hnew child hchild (List.mem_singleton.mp hlast)
  empty := by
    refine List.forall_mem_append.mpr ⟨fun child hchild => ?_, ?_⟩
    · refine Option.eq_none_iff_forall_ne_some.mpr fun found hfound => ?_
      have hbefore := get?_of_setIfInBounds_none hfound
      simp [hclaims.empty child hchild] at hbefore
    · simpa using get?_setIfInBounds_self rest number

theorem claims_nil (table : Table) : Claims table (table, []) where
  size_eq := rfl
  rest := id
  children := by simp
  nodup := List.nodup_nil
  empty := by simp

theorem takeChildren_mirrored (table : Table) :
    (takeChildren table).MirroredBy
      (fun taken numbers => Claims table taken ∧ numbers = taken.2.map (·.number))
      childNumbers := by
  refine .within (.bind_same fun count => .bind_same fun _ => ?_) _
  refine .fold (fun taken numbers => Claims table taken ∧ numbers = taken.2.map (·.number)) ?_
    count 0 [] ⟨claims_nil table, rfl⟩
  rintro index ⟨rest, children⟩ numbers ⟨hclaims, rfl⟩
  refine .position_bind fun offset => ?_
  refine .bind_image fun number => ?_
  split
  next entry hget => exact .pure ⟨hclaims.take hget, by simp⟩
  next => exact .failAt _ _

end Claiming

section Reading

variable {h : Header} {strings : Array Bytes} {maxDepth : Int}

/-- A function that was read, the table without its children, and its record. -/
def ReadAs (table : Table) (found : Entry × Table) (flat : FlatRecord) : Prop :=
  ∃ children, Claims table (found.2, children) ∧ flat.children = children.map (·.number) ∧
    found.1.prototype = ⟨flat.body, children.map (·.entry.prototype)⟩

theorem record_mirrored (table : Table) :
    (record h strings maxDepth table).MirroredBy (ReadAs table) (flatRecord h strings) := by
  refine .bind_same fun maxStack => .bind_same fun numParams => .bind_same fun numUpvalues => ?_
  refine .bind_same fun variadic => .bind_same fun types => .bind_same fun instructions => ?_
  refine .bind_same fun raw => (takeChildren_mirrored table).bind ?_
  rintro ⟨rest, children⟩ numbers ⟨hclaims, rfl⟩
  refine .bind_same fun linked => ?_
  dsimp only
  split
  next =>
    rw [fail_bind]
    exact .fail _
  next =>
    refine .bind_same fun lineDefined => .bind_same fun name => .emit_bind ?_
    refine .bind_same fun lines => .bind_same fun names => ?_
    exact .pure ⟨children, hclaims, rfl, rfl⟩

/-- What every record keeps between the table and the records so far holds of the whole
listing, and the tree that was read stands in the table under the number of the main
function. -/
theorem main_mirrored (related : Table → List FlatRecord → Prop) (hstart : related #[] [])
    (hrecord : ∀ table records entry rest flat, related table records →
      ReadAs table (entry, rest) flat → related (rest.push (some entry)) (records ++ [flat])) :
    (main h maxDepth).MirroredBy
      (fun tree found => ∃ table height, related table found.records ∧
        table.get? found.main = some ⟨tree, height⟩)
      (listing h) := by
  refine .within (.bind_same fun strings => .emit_bind (.bind_same fun _ => ?_)) _
  refine .bind_same fun recordCount => .emit_bind (.bind_same fun _ => ?_)
  refine (MirroredBy.fold related ?_ recordCount 0 [] hstart).bind fun table records htable => ?_
  · intro index table records htable
    refine .within ((record_mirrored table).map ?_) _
    rintro ⟨entry, rest⟩ flat hread
    exact hrecord table records entry rest flat htable hread
  · refine .position_bind fun offset => .bind_same fun number => ?_
    split
    next entry hget => exact .pure ⟨table, entry.height, htable, hget⟩
    next => exact .failAt _ _

end Reading

/-- A decoded file is a header and a main function that end where the file was read to. -/
theorem exists_main_of_decode {options : Options} {data : Array UInt8} {bytecode : Bytecode}
    {last : Int} {trace : List Event} (horigin : options.origin = .luau)
    (hdecode : decode options data = .done bytecode last trace) :
    ∃ mid first second,
      Header.luau (Window.whole data) 0 = .done bytecode.header mid first ∧
        main bytecode.header options.maxDepth (Window.whole data) mid =
          .done bytecode.main last second := by
  obtain ⟨mid, first, second, hheader, hmain, -⟩ := trace_of_decode hdecode
  have hdialect := (Header.header_readable options.origin hheader).2.mpr horigin
  rw [horigin] at hheader
  rw [mainFunction, hdialect] at hmain
  exact ⟨mid, first, second, hheader, hmain⟩

/-- The listing of a decoded file is related to its tree as the listing behind a header is. -/
theorem exists_fileListing_of_decode {options : Options} {data : Array UInt8}
    {bytecode : Bytecode} {last : Int} {trace : List Event} {related : Prototype → Listing → Prop}
    (hrelated : ∀ h maxDepth, (main h maxDepth).MirroredBy related (listing h))
    (horigin : options.origin = .luau)
    (hdecode : decode options data = .done bytecode last trace) :
    ∃ found trace', fileListing (Window.whole data) 0 = .done found last trace' ∧
      related bytecode.main found := by
  obtain ⟨mid, first, second, hheader, hmain⟩ := exists_main_of_decode horigin hdecode
  obtain ⟨found, second', hfound, htree⟩ := hrelated _ _ hmain
  have hlisting : fileListing (Window.whole data) 0 = .done found last (first ++ second') :=
    bind_eq_done_iff.mpr ⟨bytecode.header, mid, first, second', hheader, hfound, rfl⟩
  exact ⟨found, first ++ second', hlisting, htree⟩

end Luau

end LuaDump
