import LuaDump.Proofs.Luau.Listing

/-! # Linked constants

A record names its children by their numbers in the file, and so do its function constants. When
the record is decoded, a constant refers to a child by its index instead. The index leads to the
same function: to the tree that was read from the record with the number. A constant that names
no child is refused.
-/

namespace LuaDump

namespace Decoder

/-- The last item of a fold follows the others. -/
theorem fold_succ_eq_bind {σ : Type} (item : Nat → σ → Decoder σ) (count index : Nat) (state : σ) :
    fold item (count + 1) index state = fold item count index state >>= item (index + count) := by
  induction count generalizing index state with
  | zero =>
      rw [fold, fold, pure_bind]
      exact bind_pure _
  | succ count ih =>
      rw [fold, fold, bind_assoc]
      refine congrArg _ (funext fun next => ?_)
      rw [ih (index + 1) next, Nat.succ_add_eq_add_succ]

end Decoder

namespace Luau

open Decoder

variable {h : Header} {strings : Array Bytes} {maxDepth : Int} {table : Table} {w : Window}
  {pos : Int}

section Parts

/-- What stands before the constants of a record. -/
structure Opening where
  maxStack : Int
  numParams : Int
  numUpvalues : Int
  variadic : UInt8
  types : Int × Bytes
  instructions : List Int

def opening (h : Header) : Decoder Opening := do
  let maxStack ← byte
  let numParams ← byte
  let numUpvalues ← byte
  let variadic ← nextByte
  let types ← typeBlock h
  let instructions ← counted "count instruction" count instruction
  pure { maxStack, numParams, numUpvalues, variadic, types, instructions }

/-- What stands behind the numbers of the children. -/
def closing (strings : Array Bytes) (maxDepth : Int) (first : Opening)
    (taken : Table × List Child) (linked : List Constant) : Decoder (Entry × Table) := do
  let height := heightOver taken.2
  if maxDepth < height then fail (.tooDeep maxDepth)
  let lineDefined ← count
  let name ← stringRef strings
  emit (.luauRecord name first.instructions.length linked.length taken.2.length)
  let (lineInfo, sourceLines) ← optionalPart ([], []) (lineTable first.instructions.length)
  let (locals, upvalueNames) ← optionalPart ([], []) (debugTable strings)
  let body : Body :=
    { name, lineDefined
      numUpvalues := first.numUpvalues
      numParams := first.numParams
      maxStack := first.maxStack
      flags := first.types.1
      instructions := first.instructions
      vararg := if first.variadic = 0 then none else some ⟨true, true⟩
      constants := linked
      sourceLines, lineInfo, locals, upvalueNames
      typeInfo := first.types.2 }
  pure (⟨⟨body, taken.2.map (·.entry.prototype)⟩, height⟩, taken.1)

theorem record_eq (h : Header) (strings : Array Bytes) (maxDepth : Int) (table : Table) :
    record h strings maxDepth table = opening h >>= fun first => constants strings >>= fun raw =>
      takeChildren table >>= fun taken =>
        linkConstants (taken.2.map (·.number)) 0 raw >>= closing strings maxDepth first taken := by
  simp only [opening, bind_assoc, pure_bind]
  rfl

theorem closing_yields (first : Opening) (taken : Table × List Child) (linked : List Constant) :
    (closing strings maxDepth first taken linked).Yields fun found =>
      found.1.prototype.body.constants = linked ∧
        found.1.prototype.children = taken.2.map (·.entry.prototype) ∧ found.2 = taken.1 := by
  unfold closing
  dsimp only
  split
  next =>
    rw [fail_bind]
    exact fun _ _ _ _ _ hdone => absurd hdone not_fail_eq_done
  next =>
    refine (Yields.any _).bind fun _ _ => (Yields.any _).bind fun _ _ => ?_
    refine (Yields.any _).bind fun _ _ => (Yields.any _).bind fun _ _ => ?_
    refine (Yields.any _).bind fun _ _ => ?_
    exact .pure ⟨rfl, rfl, rfl⟩

/-- The constants of a record as they are written, and the numbers of the children. -/
def writtenLinks (h : Header) (strings : Array Bytes) : Decoder (List Constant × List Nat) := do
  let _ ← opening h
  let raw ← constants strings
  let numbers ← childNumbers
  pure (raw, numbers)

end Parts

section Children

/-- The functions with the given numbers can all become children: they differ, and none of them
has a parent. -/
structure Free (table : Table) (numbers : List Nat) : Prop where
  nodup : numbers.Nodup
  found : ∀ number ∈ numbers, ∃ entry, table.get? number = some entry

theorem get?_setIfInBounds_of_ne {number other : Nat} (hne : number ≠ other) :
    Table.get? (table.setIfInBounds number none) other = table.get? other := by
  rw [Table.get?, Table.get?, Array.getElem?_setIfInBounds_ne hne]

theorem Free.tail {number : Nat} {numbers : List Nat} (hfree : Free table (number :: numbers)) :
    Free (table.setIfInBounds number none) numbers := by
  obtain ⟨hnew, hnodup⟩ := List.nodup_cons.mp hfree.nodup
  refine ⟨hnodup, fun other hother => ?_⟩
  have hne : number ≠ other := fun heq => hnew (heq ▸ hother)
  rw [get?_setIfInBounds_of_ne hne]
  exact hfree.found other (List.mem_cons_of_mem _ hother)

theorem takeChild_of_varint {number : Nat} {entry : Entry} {last : Int} {trace : List Event}
    (children : List Child) (hnumber : varint w pos = .done number last trace)
    (hget : table.get? number = some entry) :
    takeChild (table, children) w pos =
      .done (table.setIfInBounds number none, children ++ [⟨number, entry⟩]) last trace := by
  have hposition : position w pos = .done pos pos [] := rfl
  unfold takeChild
  dsimp only
  rw [bind_of_done hposition, bind_of_done hnumber]
  simp [hget, pure_apply, Outcome.after]

theorem fold_takeChild_of_free {count index : Nat} {numbers : List Nat} {last : Int}
    {trace : List Event} (children : List Child)
    (hnumbers : collect (fun _ => varint) count index w pos = .done numbers last trace)
    (hfree : Free table numbers) :
    ∃ taken trace', fold (fun _ => takeChild) count index (table, children) w pos =
      .done taken last trace' := by
  induction count generalizing index numbers children table pos trace with
  | zero =>
      obtain ⟨-, rfl, -⟩ := pure_eq_done_iff.mp hnumbers
      exact ⟨_, _, rfl⟩
  | succ count ih =>
      obtain ⟨number, mid, first, second, hnumber, hmore, -⟩ := bind_eq_done_iff.mp hnumbers
      obtain ⟨others, _, third, _, hothers, hpure, -⟩ := bind_eq_done_iff.mp hmore
      obtain ⟨rfl, rfl, -⟩ := pure_eq_done_iff.mp hpure
      -- The child that is taken is none of the others, which stay free.
      obtain ⟨entry, hget⟩ := hfree.found number List.mem_cons_self
      have hchild := takeChild_of_varint children hnumber hget
      obtain ⟨taken, trace', htaken⟩ := ih _ hothers hfree.tail
      exact ⟨taken, _, bind_eq_done_iff.mpr ⟨_, mid, first, trace', hchild, htaken, rfl⟩⟩

/-- Children that are all free are accepted. -/
theorem takeChildren_of_free {numbers : List Nat} {last : Int} {trace : List Event}
    (hnumbers : childNumbers w pos = .done numbers last trace) (hfree : Free table numbers) :
    ∃ taken trace', takeChildren table w pos = .done taken last trace' ∧
      numbers = taken.2.map (·.number) := by
  obtain ⟨count, mid, first, second, hcount, hrest, -⟩ := bind_eq_done_iff.mp hnumbers
  obtain ⟨_, mid', third, fourth, hcheck, hcollect, -⟩ := bind_eq_done_iff.mp hrest
  obtain ⟨taken, trace', htaken⟩ := fold_takeChild_of_free [] hcollect hfree
  have hall : takeChildren table w pos = .done taken last (first ++ (third ++ trace')) :=
    within_eq_done_iff.mpr (bind_eq_done_iff.mpr ⟨count, mid, first, _, hcount,
      bind_eq_done_iff.mpr ⟨(), mid', third, trace', hcheck, htaken, rfl⟩, rfl⟩)
  obtain ⟨numbers', _, hnumbers', -, heq⟩ := takeChildren_mirrored table hall
  obtain ⟨rfl, -, -⟩ := Outcome.done.inj (hnumbers.symm.trans hnumbers')
  exact ⟨taken, _, hall, heq⟩

end Children

section Constants

variable {numbers : List Nat}

/-- Constants that are linked in their places. -/
structure LinkedInPlace (numbers : List Nat) (raw linked : List Constant) : Prop where
  length_eq : linked.length = raw.length
  place : ∀ {slot : Nat} {constant : Constant}, raw[slot]? = some constant →
    ∃ result, linked[slot]? = some result ∧ LinkedTo numbers constant result

theorem linkConstant_cases (numbers : List Nat) (slot : Nat) (constant : Constant) :
    (∃ linked, linkConstant numbers slot constant = pure linked ∧
      LinkedTo numbers constant linked) ∨
    ∃ target, constant = .proto target ∧ childIndex? numbers target = none ∧
      linkConstant numbers slot constant = fail (.closureIndex slot target) := by
  unfold linkConstant
  split
  next target =>
    split
    next place hplace => exact .inl ⟨_, rfl, .proto hplace⟩
    next hnone => exact .inr ⟨target, rfl, hnone, rfl⟩
  next hother => exact .inl ⟨_, rfl, .other fun target heq => hother target heq⟩

/-- Either all constants are linked, or one that names no child is refused. -/
theorem linkConstants_cases (numbers : List Nat) (slot : Nat) (raw : List Constant) :
    (∃ linked, linkConstants numbers slot raw = pure linked ∧ LinkedInPlace numbers raw linked) ∨
    ∃ place target, linkConstants numbers slot raw = fail (.closureIndex place target) := by
  induction raw generalizing slot with
  | nil => exact .inl ⟨[], rfl, rfl, by simp⟩
  | cons constant rest ih =>
      rw [linkConstants]
      rcases linkConstant_cases numbers slot constant with
        ⟨result, hresult, hlinked⟩ | ⟨target, -, -, hfail⟩
      · rw [hresult, pure_bind]
        rcases ih (slot + 1) with ⟨others, hothers, hplaces⟩ | ⟨place, target, hfail⟩
        · refine .inl ⟨result :: others, by rw [hothers, pure_bind], ?_, ?_⟩
          · rw [List.length_cons, List.length_cons, hplaces.length_eq]
          · rintro (_ | slot) found hfound
            · obtain rfl : constant = found := Option.some.inj hfound
              exact ⟨result, rfl, hlinked⟩
            · exact hplaces.place hfound
        · exact .inr ⟨place, target, by rw [hfail, fail_bind]⟩
      · exact .inr ⟨slot, target, by rw [hfail, fail_bind]⟩

/-- Some function constant names none of the children. -/
def Dangling (raw : List Constant) (numbers : List Nat) : Prop :=
  ∃ target, .proto target ∈ raw ∧ ∀ number ∈ numbers, (number : Int) ≠ target

theorem LinkedInPlace.not_dangling {raw linked : List Constant}
    (hlinked : LinkedInPlace numbers raw linked) : ¬ Dangling raw numbers := by
  rintro ⟨target, hmem, hnone⟩
  obtain ⟨slot, hslot⟩ := List.mem_iff_getElem?.mp hmem
  obtain ⟨result, -, hresult⟩ := hlinked.place hslot
  cases hresult with
  | proto hplace =>
      obtain ⟨number, hnumber, rfl⟩ := getElem?_of_childIndex? hplace
      exact hnone number (List.mem_of_getElem? hnumber) rfl
  | other hother => exact hother target rfl

end Constants

section Records

/-- A record that is accepted: its constants as they are written, its children, and how the two
are found in the function. -/
theorem record_eq_done {entry : Entry} {rest : Table} {last : Int} {trace : List Event}
    (hdone : record h strings maxDepth table w pos = .done (entry, rest) last trace) :
    ∃ raw children mid trace',
      writtenLinks h strings w pos = .done (raw, children.map (·.number)) mid trace' ∧
        Claims table (rest, children) ∧
          LinkedInPlace (children.map (·.number)) raw entry.prototype.body.constants ∧
            entry.prototype.children = children.map (·.entry.prototype) := by
  rw [record_eq] at hdone
  obtain ⟨first, mid, trace₁, _, hfirst, hdone, -⟩ := bind_eq_done_iff.mp hdone
  obtain ⟨raw, mid', trace₂, _, hraw, hdone, -⟩ := bind_eq_done_iff.mp hdone
  obtain ⟨taken, mid'', _, _, htaken, hdone, -⟩ := bind_eq_done_iff.mp hdone
  obtain ⟨linked, _, _, _, hlinked, hclosing, -⟩ := bind_eq_done_iff.mp hdone
  obtain ⟨numbers, trace₃, hnumbers, hclaims, rfl⟩ := takeChildren_mirrored table htaken
  obtain ⟨rfl, hchildren, rfl⟩ := closing_yields first taken linked hclosing
  refine ⟨raw, taken.2, mid'', trace₁ ++ (trace₂ ++ (trace₃ ++ [])), ?_, hclaims, ?_, hchildren⟩
  · refine bind_eq_done_iff.mpr ⟨first, mid, trace₁, _, hfirst, ?_, rfl⟩
    refine bind_eq_done_iff.mpr ⟨raw, mid', trace₂, _, hraw, ?_, rfl⟩
    exact bind_eq_done_iff.mpr ⟨_, mid'', trace₃, [], hnumbers, rfl, rfl⟩
  · rcases linkConstants_cases (taken.2.map (·.number)) 0 raw with
      ⟨found, hfound, hplaces⟩ | ⟨slot, target, hfail⟩
    · rw [hfound] at hlinked
      obtain ⟨rfl, -, -⟩ := pure_eq_done_iff.mp hlinked
      exact hplaces
    · rw [hfail] at hlinked
      exact absurd hlinked not_fail_eq_done

/-- A record whose children are free is refused if a function constant names none of them. -/
theorem record_eq_failed {raw : List Constant} {numbers : List Nat} {mid : Int}
    {trace : List Event} (hwritten : writtenLinks h strings w pos = .done (raw, numbers) mid trace)
    (hfree : Free table numbers) (hdangling : Dangling raw numbers) :
    ∃ slot target last trace', record h strings maxDepth table w pos =
      .failed ⟨.closureIndex slot target, last, []⟩ last trace' := by
  obtain ⟨first, _, trace₁, _, hfirst, hwritten, -⟩ := bind_eq_done_iff.mp hwritten
  obtain ⟨found, _, trace₂, _, hraw, hwritten, -⟩ := bind_eq_done_iff.mp hwritten
  obtain ⟨numbers', last, _, _, hnumbers, hpair, -⟩ := bind_eq_done_iff.mp hwritten
  obtain ⟨heq, -, -⟩ := pure_eq_done_iff.mp hpair
  obtain ⟨rfl, rfl⟩ := Prod.mk.inj heq
  obtain ⟨taken, trace₃, htaken, rfl⟩ := takeChildren_of_free hnumbers hfree
  rcases linkConstants_cases (taken.2.map (·.number)) 0 found with
    ⟨linked, -, hplaces⟩ | ⟨slot, target, hfail⟩
  · exact absurd hdangling hplaces.not_dangling
  · refine ⟨slot, target, last, trace₁ ++ (trace₂ ++ (trace₃ ++ [])), ?_⟩
    rw [record_eq, bind_of_done hfirst, bind_of_done hraw, bind_of_done htaken, hfail, fail_bind]
    rfl

theorem nextRecord_eq_done {index : Nat} {next : Table} {last : Int} {trace : List Event}
    (hdone : nextRecord h strings maxDepth index table w pos = .done next last trace) :
    ∃ entry rest trace', record h strings maxDepth table w pos = .done (entry, rest) last trace' ∧
      next = rest.push (some entry) := by
  obtain ⟨⟨entry, rest⟩, mid, trace', _, hrecord, hpush, -⟩ :=
    bind_eq_done_iff.mp (within_eq_done_iff.mp hdone)
  obtain ⟨rfl, rfl, -⟩ := pure_eq_done_iff.mp hpush
  exact ⟨entry, rest, trace', hrecord, rfl⟩

/-- The records of a file are read one after another from `start` on, and the one with the given
number gives the function. -/
def DecodedFrom (h : Header) (strings : Array Bytes) (maxDepth : Int) (w : Window) (start : Int)
    (number : Nat) (chunk : Prototype) : Prop :=
  ∃ table pos trace found last trace',
    fold (nextRecord h strings maxDepth) number 0 #[] w start = .done table pos trace ∧
      record h strings maxDepth table w pos = .done found last trace' ∧ found.1.prototype = chunk

/-- The table holds under a number what the record with that number gave. -/
theorem decodedFrom_of_get? {start : Int} {count : Nat} {before : List Event}
    (htable : fold (nextRecord h strings maxDepth) count 0 #[] w start = .done table pos before) :
    table.size = count ∧ ∀ {number entry}, table.get? number = some entry →
      DecodedFrom h strings maxDepth w start number entry.prototype := by
  induction count generalizing table pos before with
  | zero =>
      obtain ⟨rfl, -, -⟩ := pure_eq_done_iff.mp htable
      exact ⟨rfl, fun hget => by simp [Table.get?] at hget⟩
  | succ count ih =>
      rw [fold_succ_eq_bind, Nat.zero_add] at htable
      obtain ⟨earlier, mid, first, second, hearlier, hnext, -⟩ := bind_eq_done_iff.mp htable
      obtain ⟨entry, rest, trace, hrecord, rfl⟩ := nextRecord_eq_done hnext
      obtain ⟨hsize, hdecoded⟩ := ih hearlier
      obtain ⟨raw, children, _, _, -, hclaims, -⟩ := record_eq_done hrecord
      have hrest : rest.size = count := hclaims.size_eq.trans hsize
      refine ⟨by rw [Array.size_push, hrest], fun hget => ?_⟩
      -- The new record takes the number of records before it. The others were there already.
      rcases get?_push hget with ⟨rfl, rfl⟩ | hold
      · rw [hrest]
        exact ⟨earlier, mid, first, _, _, trace, hearlier, hrecord, rfl⟩
      · exact hdecoded (hclaims.rest hold)

/-- How the function constants of a record are resolved: every one of them refers to the child
whose number it names, which comes from the record with that number. -/
structure Resolved (raw : List Constant) (numbers : List Nat) (chunk : Prototype)
    (comesFrom : Nat → Prototype → Prop) : Prop where
  nodup : numbers.Nodup
  length_eq : chunk.body.constants.length = raw.length
  other : ∀ {slot : Nat} {constant : Constant}, raw[slot]? = some constant →
    (∀ target, constant ≠ .proto target) → chunk.body.constants[slot]? = some constant
  closure : ∀ {slot : Nat} {target : Int}, raw[slot]? = some (.proto target) →
    ∃ (index number : Nat) (child : Prototype), target = number ∧ numbers[index]? = some number ∧
      chunk.body.constants[slot]? = some (.proto index) ∧ chunk.children[index]? = some child ∧
        comesFrom number child

theorem resolved_of_claims {raw : List Constant} {rest : Table} {children : List Child}
    {chunk : Prototype} {comesFrom : Nat → Prototype → Prop}
    (hclaims : Claims table (rest, children))
    (hlinked : LinkedInPlace (children.map (·.number)) raw chunk.body.constants)
    (hchildren : chunk.children = children.map (·.entry.prototype))
    (hcomes : ∀ {number entry}, table.get? number = some entry → comesFrom number entry.prototype) :
    Resolved raw (children.map (·.number)) chunk comesFrom where
  nodup := hclaims.nodup
  length_eq := hlinked.length_eq
  other := by
    intro slot constant hslot hconstant
    obtain ⟨result, hresult, hlink⟩ := hlinked.place hslot
    cases hlink with
    | proto => exact absurd rfl (hconstant _)
    | other => exact hresult
  closure := by
    intro slot target hslot
    obtain ⟨result, hresult, hlink⟩ := hlinked.place hslot
    cases hlink with
    | other hother => exact absurd rfl (hother target)
    | @proto _ index hindex =>
        obtain ⟨number, hnumber, rfl⟩ := getElem?_of_childIndex? hindex
        have hplace := hnumber
        rw [List.getElem?_map, Option.map_eq_some_iff] at hplace
        obtain ⟨child, hchild, rfl⟩ := hplace
        have hentry := hclaims.children child (List.mem_of_getElem? hchild)
        refine ⟨index, child.number, child.entry.prototype, rfl, hnumber, hresult, ?_,
          hcomes hentry⟩
        rw [hchildren, List.getElem?_map, hchild, Option.map_some]

/-- Linking keeps what function constants mean. In a record that is accepted, the constants that
name no functions stay as they are written, and each of the others refers to the child whose
number it names, the function that the record with that number gave. If the children are accepted
and a function constant names none of them, the record is refused for an invalid reference. -/
theorem record_resolves (h : Header) (strings : Array Bytes) (maxDepth : Int) (table : Table)
    (w : Window) (pos : Int) :
    (∀ entry rest last trace,
      record h strings maxDepth table w pos = .done (entry, rest) last trace →
        ∃ raw numbers mid trace', writtenLinks h strings w pos = .done (raw, numbers) mid trace' ∧
          Resolved raw numbers entry.prototype fun number child =>
            (∃ height, table.get? number = some ⟨child, height⟩) ∧
              ∀ start count before,
                fold (nextRecord h strings maxDepth) count 0 #[] w start =
                    .done table pos before →
                  DecodedFrom h strings maxDepth w start number child) ∧
    ∀ raw numbers mid trace, writtenLinks h strings w pos = .done (raw, numbers) mid trace →
      Free table numbers → Dangling raw numbers →
        ∃ failure last trace', record h strings maxDepth table w pos =
            .failed failure last trace' ∧ failure.kind = .invalidReference := by
  constructor
  · intro entry rest last trace hdone
    obtain ⟨raw, children, mid, trace', hwritten, hclaims, hlinked, hchildren⟩ :=
      record_eq_done hdone
    refine ⟨raw, _, mid, trace', hwritten, resolved_of_claims hclaims hlinked hchildren ?_⟩
    intro number entry hget
    exact ⟨⟨entry.height, hget⟩, fun start count before htable =>
      (decodedFrom_of_get? htable).2 hget⟩
  · intro raw numbers mid trace hwritten hfree hdangling
    obtain ⟨slot, target, last, trace', hfailed⟩ := record_eq_failed hwritten hfree hdangling
    exact ⟨_, last, trace', hfailed, rfl⟩

/-- Two functions without fields, and a third one that has both as children, the second one
first. The third one has two function constants, which name functions 0 and `target`. -/
def sampleClosures (target : UInt8) : Array UInt8 :=
  ([0, 0, 0, 0, 0, 0, 0, 0, 0, 0, 0] ++ [0, 0, 0, 0, 0, 0, 0, 0, 0, 0, 0] ++
    [0, 0, 0, 0, 0, 2, 6, 0, 6, target, 2, 1, 0, 0, 0, 0, 0]).toArray

/-- A constant that names function 0 refers to the child with the index 1, and one that names
function 2, which is no child, is refused. -/
theorem record_resolves_sampleClosures :
    let header : Header := { dialect := .luau, formatVersion := 3 }
    let w := Window.whole (sampleClosures 1)
    let w' := Window.whole (sampleClosures 2)
    (∃ table mid before found last trace child,
      fold (nextRecord header #[] 200) 2 0 #[] w 0 = .done table mid before ∧
        record header #[] 200 table w mid = .done found last trace ∧
          found.1.prototype.body.constants[0]? = some (.proto 1) ∧
            found.1.prototype.children[1]? = some child ∧
              DecodedFrom header #[] 200 w 0 0 child) ∧
    ∃ table mid before failure last trace,
      fold (nextRecord header #[] 200) 2 0 #[] w' 0 = .done table mid before ∧
        record header #[] 200 table w' mid = .failed failure last trace ∧
          failure.kind = .invalidReference := by
  intro header w w'
  constructor
  · have hread : ∃ table mid before found last trace raw mid' trace',
        fold (nextRecord header #[] 200) 2 0 #[] w 0 = .done table mid before ∧
          record header #[] 200 table w mid = .done found last trace ∧
            found.1.prototype.body.constants[0]? = some (.proto 1) ∧
              writtenLinks header #[] w mid = .done (raw, [1, 0]) mid' trace' ∧
                raw[0]? = some (.proto 0) :=
      ⟨_, _, _, _, _, _, _, _, _, rfl, rfl, rfl, rfl, rfl⟩
    obtain ⟨table, mid, before, found, last, trace, raw, mid', trace', htable, hrecord,
      hconstant, hwritten, hraw⟩ := hread
    obtain ⟨raw', numbers, _, _, hwritten', hresolved⟩ :=
      (record_resolves header #[] 200 table w mid).1 found.1 found.2 last trace hrecord
    obtain ⟨heq, -, -⟩ := Outcome.done.inj (hwritten.symm.trans hwritten')
    obtain ⟨rfl, rfl⟩ := Prod.mk.inj heq
    obtain ⟨index, number, child, hnumber, -, hlinked, hchild, -, hdecoded⟩ :=
      hresolved.closure hraw
    obtain rfl : number = 0 := by omega
    obtain rfl : index = 1 := by simpa [hconstant, eq_comm] using hlinked
    exact ⟨table, mid, before, found, last, trace, child, htable, hrecord, hconstant, hchild,
      hdecoded 0 2 before htable⟩
  · have hread : ∃ table mid before raw mid' trace,
        fold (nextRecord header #[] 200) 2 0 #[] w' 0 = .done table mid before ∧
          writtenLinks header #[] w' mid = .done (raw, [1, 0]) mid' trace ∧
            Free table [1, 0] ∧ Dangling raw [1, 0] :=
      ⟨_, _, _, _, _, _, rfl, rfl, ⟨by decide, by simp [Table.get?]⟩,
        ⟨2, .tail _ (.head _), by decide⟩⟩
    obtain ⟨table, mid, before, raw, mid', trace, htable, hwritten, hfree, hdangling⟩ := hread
    obtain ⟨failure, last, trace', hfailed, hkind⟩ :=
      (record_resolves header #[] 200 table w' mid).2 raw _ _ _ hwritten hfree hdangling
    exact ⟨table, mid, before, failure, last, trace', htable, hfailed, hkind⟩

end Records

end Luau

end LuaDump
