import Mathlib.Algebra.BigOperators.Group.List.Basic
import Mathlib.Algebra.Order.Ring.Int
import Mathlib.Data.List.Range
import LuaDump.Proofs.Interchange.RecordRange
import LuaDump.Proofs.Luau.Ownership
import LuaDump.Proofs.Luau.RoundTrip

/-! # Line tables of Luau dumps

A line table has an entry for every instruction, and a line for every interval of instructions.
The intervals are as long as a power of two that stands in front of the table, so an instruction
finds its interval by a shift.
-/

namespace LuaDump

namespace Decoder

variable {α β : Type} {room : Nat} {w : Window} {d : Decoder α} {property : α → Prop}

/-- From a place in the given window on, the decoder gets to another such place, with a value
that has the property, unless it fails. -/
def Finds (room : Nat) (w : Window) (d : Decoder α) (property : α → Prop) : Prop :=
  ∀ ⦃pos⦄, Place room w pos → ∀ ⦃value last trace⦄, d w pos = .done value last trace →
    Place room w last ∧ property value

theorem Delivers.finds (hd : d.Delivers room property) : d.Finds room w property := by
  intro pos hplace value last trace hdone
  obtain ⟨hle, hinside, hvalue⟩ := hd hplace hdone
  exact ⟨hplace.next hle hinside, hvalue⟩

/-- The value comes from the decoder itself at a place in the window. -/
theorem Settles.finds {least : Nat} (hsettles : d.Settles least) :
    d.Finds room w fun value =>
      ∃ pos last trace, Place room w pos ∧ d w pos = .done value last trace := by
  intro pos hplace value last trace hdone
  exact ⟨(hsettles.any.finds hplace hdone).1, pos, last, trace, hplace, hdone⟩

namespace Finds

theorem mono {property' : α → Prop} (hd : d.Finds room w property)
    (himp : ∀ value, property value → property' value) : d.Finds room w property' :=
  fun _ hplace _ _ _ hdone => (hd hplace hdone).imp_right (himp _)

theorem bind {next : α → Decoder β} {property' : β → Prop} (hd : d.Finds room w property)
    (hnext : ∀ value, property value → (next value).Finds room w property') :
    (d >>= next).Finds room w property' := by
  intro pos hplace result last trace hdone
  obtain ⟨value, mid, first, second, hfirst, hsecond, -⟩ := bind_eq_done_iff.mp hdone
  obtain ⟨hmid, hvalue⟩ := hd hplace hfirst
  exact hnext value hvalue hmid hsecond

theorem skip {least : Nat} {next : α → Decoder β} {property' : β → Prop}
    (hsettles : d.Settles least) (hnext : ∀ value, (next value).Finds room w property') :
    (d >>= next).Finds room w property' :=
  hsettles.finds.bind fun value _ => hnext value

theorem pure {value : α} (hvalue : property value) :
    (Pure.pure value : Decoder α).Finds room w property :=
  (Delivers.pure hvalue).finds

theorem collect {item : Nat → Decoder α} (hitem : ∀ index, (item index).Finds room w property)
    (count index : Nat) :
    (collect item count index).Finds room w fun values => ∀ value ∈ values, property value := by
  induction count generalizing index with
  | zero => exact .pure (by simp)
  | succ count ih =>
      refine (hitem index).bind fun first hfirst => (ih (index + 1)).bind fun rest hrest => ?_
      exact .pure (List.forall_mem_cons.mpr ⟨hfirst, hrest⟩)

end Finds

end Decoder

namespace Luau

open Decoder

variable {room : Nat} {w : Window} {h : Header} {strings : Array Bytes}

/-- One line follows another. The difference between them has thirty-two bits. -/
def LineStep (before line : Int) : Prop :=
  -2 ^ 31 ≤ line - before ∧ line - before < 2 ^ 31

/-- The lines of `instructionCount` instructions in intervals of `2 ^ gap`. -/
structure LinesCover (instructionCount gap : Nat) (lineInfo : List Int)
    (sourceLines : List (Int × Int)) : Prop where
  lineInfo_length : lineInfo.length = instructionCount
  length : sourceLines.length = (instructionCount + 2 ^ gap - 1) / 2 ^ gap
  start : ∀ {index : Nat} {entry : Int × Int}, sourceLines[index]? = some entry →
    entry.1 = index * 2 ^ gap ∧ entry.1 < instructionCount
  steps : (0 :: sourceLines.map Prod.snd).IsChain LineStep
  /-- An instruction stands in the interval that it finds by a shift. -/
  covers : ∀ pc < instructionCount, ∃ entry, sourceLines[pc >>> gap]? = some entry ∧
    entry.1 ≤ pc ∧ (pc : Int) < entry.1 + 2 ^ gap

section Intervals

variable {instructionCount gap : Nat}

theorem shiftRight_lt_intervalCount {pc : Nat} (hpc : pc < instructionCount) :
    pc >>> gap < intervalCount instructionCount gap := by
  rw [Nat.shiftRight_eq_div_pow, intervalCount, if_neg (by omega)]
  exact Nat.lt_succ_of_le (Nat.div_le_div_right (by omega))

/-- A line is the sum of the differences so far, so two lines that follow one another differ by
one of them. -/
theorem sourceLines_steps (gap : Nat) {deltas : List Int}
    (hdeltas : ∀ delta ∈ deltas, -2 ^ 31 ≤ delta ∧ delta < 2 ^ 31) :
    (0 :: (sourceLines gap deltas).map Prod.snd).IsChain LineStep := by
  have hlines : 0 :: (sourceLines gap deltas).map Prod.snd =
      (List.range (deltas.length + 1)).map fun index => (deltas.take index).sum := by
    rw [List.range_succ_eq_map]
    simp [sourceLines, Function.comp_def]
  rw [hlines, List.isChain_map, List.isChain_range_succ]
  intro index hindex
  have hdelta := hdeltas _ (List.getElem_mem hindex)
  rw [LineStep, Nat.succ_eq_add_one, List.sum_take_succ _ _ hindex]
  omega

theorem getElem?_sourceLines {deltas : List Int} {index : Nat} {entry : Int × Int}
    (hentry : (sourceLines gap deltas)[index]? = some entry) :
    index < deltas.length ∧ entry.1 = index * 2 ^ gap := by
  rw [sourceLines, List.getElem?_map, Option.map_eq_some_iff] at hentry
  obtain ⟨place, hplace, rfl⟩ := hentry
  obtain ⟨hindex, rfl⟩ := List.getElem?_eq_some_iff.mp hplace
  rw [List.length_range] at hindex
  refine ⟨hindex, ?_⟩
  simp

theorem sourceLines_cover {deltas : List Int} {lineInfo : List Int}
    (hlineInfo : lineInfo.length = instructionCount)
    (hlength : deltas.length = intervalCount instructionCount gap)
    (hdeltas : ∀ delta ∈ deltas, -2 ^ 31 ≤ delta ∧ delta < 2 ^ 31) :
    LinesCover instructionCount gap lineInfo (sourceLines gap deltas) where
  lineInfo_length := hlineInfo
  length := by rw [sourceLines, List.length_map, List.length_range, hlength, intervalCount_eq]
  start := by
    intro index entry hentry
    obtain ⟨hindex, hstart⟩ := getElem?_sourceLines hentry
    have hbound := mul_pow_lt_of_lt_intervalCount (hlength ▸ hindex)
    refine ⟨hstart, ?_⟩
    rw [hstart]
    exact_mod_cast hbound
  steps := sourceLines_steps gap hdeltas
  covers := by
    intro pc hpc
    have hindex : pc >>> gap < (sourceLines gap deltas).length := by
      rw [sourceLines, List.length_map, List.length_range, hlength]
      exact shiftRight_lt_intervalCount hpc
    have hentry := List.getElem?_eq_getElem hindex
    refine ⟨_, hentry, ?_⟩
    rw [(getElem?_sourceLines hentry).2, Nat.shiftRight_eq_div_pow]
    have hlow := Nat.div_mul_le_self pc (2 ^ gap)
    have hhigh := Nat.lt_div_mul_add (Nat.two_pow_pos gap) (a := pc)
    exact ⟨by exact_mod_cast hlow, by exact_mod_cast hhigh⟩

/-- What a table holds behind its first byte, which is the gap. -/
theorem lines_deliver (instructionCount gap : Nat) :
    (do
      let lineInfo ← items instructionCount byte
      let (_, lines) ← fold (nextInterval gap) (intervalCount instructionCount gap) 0 (0, [])
      pure (lineInfo, lines.reverse)).Delivers room fun lines =>
        LinesCover instructionCount gap lines.1 lines.2 := by
  refine (delivers_items_length _ settles_byte.any).bind fun lineInfo hlineInfo => ?_
  refine (delivers_fold (fun index state => ∃ deltas : List Int, deltas.length = index ∧
    (∀ delta ∈ deltas, -2 ^ 31 ≤ delta ∧ delta < 2 ^ 31) ∧
      state = (deltas.sum, (sourceLines gap deltas).reverse)) _ ⟨[], rfl, by simp, rfl⟩ ?_).map ?_
  · rintro index _ - ⟨deltas, rfl, hdeltas, rfl⟩
    refine (delivers_signed 31 false rfl rfl).map fun delta hdelta => ?_
    have hall := List.forall_mem_append.mpr ⟨hdeltas, List.forall_mem_singleton.mpr hdelta⟩
    refine ⟨deltas ++ [delta], by simp, hall, ?_⟩
    rw [sourceLines_snoc, List.reverse_append, List.sum_append, List.sum_singleton]
    rfl
  · rintro _ ⟨deltas, hlength, hdeltas, rfl⟩
    rw [List.reverse_reverse]
    exact sourceLines_cover hlineInfo.1 hlength hdeltas

/-- The gap is the byte of the file at which the table begins. -/
theorem lineTable_covers {pos last : Int} {lines : List Int × List (Int × Int)}
    {trace : List Event} (hplace : Place room w pos)
    (hdone : lineTable instructionCount w pos = .done lines last trace) :
    ∃ gap : UInt8, w.data[pos.toNat]? = some gap ∧
      LinesCover instructionCount gap.toNat lines.1 lines.2 := by
  obtain ⟨gap, mid, first, second, hgap, hrest, -⟩ :=
    bind_eq_done_iff.mp (within_eq_done_iff.mp hdone)
  obtain ⟨hbyte, rfl⟩ := getElem?_of_nextByte hplace hgap
  obtain ⟨hpassed, hinside⟩ := settles_nextByte.passed hplace hgap
  have hnext := hplace.next (by omega) hinside
  exact ⟨gap, hbyte, (lines_deliver instructionCount gap.toNat hnext hrest).2.2⟩

end Intervals

section Files

/-- A function has no line table, or one that begins at a place in the window. -/
def HasLines (room : Nat) (w : Window) (body : Body) : Prop :=
  (body.lineInfo = [] ∧ body.sourceLines = []) ∨
    ∃ pos last trace, Place room w pos ∧
      lineTable body.instructions.length w pos =
        .done (body.lineInfo, body.sourceLines) last trace

theorem flatRecord_finds : (flatRecord h strings).Finds room w fun flat =>
    HasLines room w flat.body := by
  refine .skip settles_byte fun maxStack => .skip settles_byte fun numParams => ?_
  refine .skip settles_byte fun numUpvalues => .skip settles_nextByte fun variadic => ?_
  refine .skip (settles_typeBlock h) fun types => ?_
  refine .skip (settles_counted _ settles_count settles_instruction) fun instructions => ?_
  refine .skip (settles_constants strings) fun raw => .skip settles_childNumbers fun children => ?_
  refine .skip (settles_linkConstants _ _ _) fun linked => .skip settles_count fun line => ?_
  refine .skip (settles_stringRef strings) fun name => ?_
  have hlines : (optionalPart ([], []) (lineTable instructions.length)).Finds room w
      fun lines => lines = ([], []) ∨ ∃ pos last trace, Place room w pos ∧
        lineTable instructions.length w pos = .done lines last trace := by
    refine .skip settles_nextByte fun present => ?_
    split
    · exact .pure (.inl rfl)
    · exact (settles_lineTable _).finds.mono fun lines hlines => .inr hlines
  refine hlines.bind fun lines hlines => ?_
  refine .skip (settles_optionalPart _ (settles_debugTable strings)) fun names => .pure ?_
  exact hlines.imp_left Prod.mk.inj

theorem listing_finds : (listing h).Finds room w fun found =>
    ∀ flat ∈ found.records, HasLines room w flat.body := by
  refine .skip settles_stringTable fun strings => ?_
  refine .skip (settles_userdataTypes h strings) fun _ => ?_
  refine .skip settles_varint fun count => (delivers_checkCount count).finds.bind fun _ _ => ?_
  refine (Finds.collect (fun _ => flatRecord_finds) count 0).bind fun records hrecords => ?_
  exact .skip settles_varint fun main => .pure hrecords

theorem fileListing_finds : fileListing.Finds room w fun found =>
    ∀ flat ∈ found.records, HasLines room w flat.body :=
  .skip (settles_header .luau) fun _ => listing_finds

variable {options : Options} {data : Array UInt8} {bytecode : Bytecode} {last : Int}
  {trace : List Event}

theorem hasLines_of_decode (horigin : options.origin = .luau)
    (hdecode : decode options data = .done bytecode last trace) :
    ∀ chunk ∈ bytecode.main.postorder, HasLines data.size (Window.whole data) chunk.body := by
  intro chunk hchunk
  obtain ⟨found, trace', hfound, -, htree⟩ := sound_of_decode horigin hdecode
  obtain ⟨path, hpath⟩ := Prototype.exists_descend_of_mem_postorder hchunk
  obtain ⟨reached, flat, -, hflat, hbody, -⟩ := htree hpath
  rw [← hbody]
  exact (fileListing_finds (.whole data) hfound).2 flat (List.mem_of_getElem? hflat)

/-- The lines of a function cover all of its instructions, in intervals whose length is given by
the byte at which the table begins. -/
theorem lines_cover_instructions (hdecode : decode options data = .done bytecode last trace)
    (hluau : bytecode.header.dialect = .luau) :
    ∀ chunk ∈ bytecode.main.postorder,
      (chunk.body.lineInfo = [] ∧ chunk.body.sourceLines = []) ∨
        ∃ (place : Nat) (gap : UInt8) (last' : Int) (trace' : List Event),
          lineTable chunk.body.instructions.length (Window.whole data) place =
            .done (chunk.body.lineInfo, chunk.body.sourceLines) last' trace' ∧
          data[place]? = some gap ∧
          LinesCover chunk.body.instructions.length gap.toNat chunk.body.lineInfo
            chunk.body.sourceLines := by
  intro chunk hchunk
  obtain ⟨w, pos, last', trace', -, hheader⟩ := (decode_gives hdecode).1
  have horigin := (Header.header_readable options.origin hheader).2.mp hluau
  rcases hasLines_of_decode horigin hdecode chunk hchunk with
    hnone | ⟨pos, last', trace', hplace, hdone⟩
  · exact .inl hnone
  · obtain ⟨place, rfl⟩ := Int.eq_ofNat_of_zero_le hplace.nonneg
    obtain ⟨gap, hgap, hcover⟩ := lineTable_covers hplace hdone
    exact .inr ⟨place, gap, last', trace', hdone, hgap, hcover⟩

/-- One function with three instructions in intervals of two, from line 5 back to line 3. -/
def intervalSample : Array UInt8 :=
  #[3, 0, 1] ++ #[2, 0, 0, 0] ++ #[3, 0, 0, 0, 0, 1, 0, 0, 0, 2, 0, 0, 0] ++ #[0, 0, 5, 0] ++
    #[1, 1, 0, 0, 1, 5, 0, 0, 0, 0xfe, 0xff, 0xff, 0xff] ++ #[0] ++ #[0]

theorem lines_cover_instructions_intervalSample : ∃ bytecode last trace,
    decode { origin := .luau } intervalSample = .done bytecode last trace ∧
      bytecode.main.body.sourceLines = [(0, 5), (2, 3)] ∧
      ∃ (place : Nat) (gap : UInt8), intervalSample[place]? = some gap ∧
        LinesCover 3 gap.toNat bytecode.main.body.lineInfo bytecode.main.body.sourceLines := by
  obtain ⟨bytecode, last, trace, hdecode, hluau, hcount, hlines⟩ : ∃ bytecode last trace,
      decode { origin := .luau } intervalSample = .done bytecode last trace ∧
        bytecode.header.dialect = .luau ∧ bytecode.main.body.instructions.length = 3 ∧
        bytecode.main.body.sourceLines = [(0, 5), (2, 3)] := ⟨_, _, _, rfl, rfl, rfl, rfl⟩
  refine ⟨bytecode, last, trace, hdecode, hlines, ?_⟩
  rcases lines_cover_instructions hdecode hluau bytecode.main (Prototype.mem_postorder_self _) with
    ⟨-, hnone⟩ | ⟨place, gap, last', trace', -, hgap, hcover⟩
  · simp [hnone] at hlines
  · exact ⟨place, gap, hgap, hcount ▸ hcover⟩

end Files

end Luau

end LuaDump
