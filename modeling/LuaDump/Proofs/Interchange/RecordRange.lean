import LuaDump.Proofs.Interchange.Range

/-! # Decoded records fit the document format

The records of LuaJIT and of Luau. Here numbers are added up: the starts of local variables
and the lines of intervals are differences, and a sum stays in range since every term has at
most thirty-two bits and passes a byte of the file.
-/

namespace LuaDump

open Decoder Constant

variable {room : Nat}

namespace Jit

variable {h : Header}

theorem delivers_word : word.Delivers room fun n => n < 2 ^ 64 := by
  refine delivers_varint.bind fun low hlow => delivers_varint.map fun high hhigh => ?_
  rw [wordOf]
  omega

/-- Looking at a byte passes nothing, so it does not settle, but it delivers. -/
theorem delivers_peekByte : peekByte.Delivers room fun _ => True := by
  intro w pos hplace b last trace hdone
  unfold peekByte at hdone
  split at hdone
  next =>
    split at hdone
    next =>
      obtain ⟨-, rfl, -⟩ := Outcome.done.inj hdone
      exact ⟨Int.le_refl _, hplace.inside, trivial⟩
    next => exact absurd hdone (by simp)
  next => exact absurd hdone (by simp [short])

theorem delivers_number : number.Delivers room Number.Fits := by
  refine delivers_peekByte.bind fun selector _ => delivers_numericHead.bind fun low hlow => ?_
  split
  · exact .skip settles_varint fun high => .pure trivial
  · exact .pure (signExtend_isWord (by decide) hlow)

theorem delivers_upvalue : (upvalue h).Delivers room Upvalue.Fits := by
  refine .skip (settles_unsigned _ _) fun value => .pure ⟨?_, ?_⟩
  · have hlt : value % 0x4000 < 0x4000 := Nat.mod_lt _ (by decide)
    exact isWord_natCast (Nat.lt_trans hlt (by decide))
  · dsimp only
    split <;> exact ⟨by decide, by decide⟩

section Constants

variable (hroom : IsLength room)

include hroom

theorem delivers_taggedString (firstTag tag : Nat) :
    (taggedString firstTag tag).Delivers room Constant.Fits :=
  .named ((delivers_take_isLength hroom _).map fun _ hlength => .string hlength) _

theorem delivers_tableSlot : tableSlot.Delivers room Constant.Fits := by
  refine .skip settles_varint fun tag => ?_
  split
  · exact .pure .nil
  · exact .pure (.boolean false)
  · exact .pure (.boolean true)
  · exact delivers_varint.map fun _ hvalue => fits_integer (signExtend_isWord (by decide) hvalue)
  · exact .skip settles_double fun value => .pure (fits_float value)
  · exact delivers_taggedString hroom 5 _

omit hroom in
/-- The value at index zero may make the hash part longer by one. -/
theorem tableOf_fits {slots : List Constant} {hash : List (Constant × Constant)}
    (hslots : FitList Constant.Fits slots) (hlength : IsLength (hash.length + 1))
    (hhash : ∀ entry ∈ hash, entry.1.Fits ∧ entry.2.Fits) : (tableOf slots hash).Fits := by
  have hshort : FitList (fun entry : Constant × Constant => entry.1.Fits ∧ entry.2.Fits) hash :=
    ⟨hlength.of_le (Nat.le_succ _), hhash⟩
  cases slots with
  | nil => exact fits_table .nil hshort
  | cons first array =>
      obtain ⟨hfirst, hall⟩ := List.forall_mem_cons.mp hslots.all
      have harray : FitList Constant.Fits array :=
        ⟨hslots.length.of_le (Nat.le_succ array.length), hall⟩
      unfold tableOf
      dsimp only
      split
      · exact fits_table harray hshort
      · refine fits_table harray ⟨by simpa using hlength, ?_⟩
        exact List.forall_mem_append.mpr ⟨hhash, by simpa using ⟨fits_integer isWord_zero, hfirst⟩⟩

/-- The counts of a table take up bytes, so the hash part is shorter than the room. -/
theorem delivers_table : table.Delivers room Constant.Fits := by
  have hless : IsLength (room - 1) := hroom.of_le (Nat.sub_le _ _)
  have hslot := delivers_tableSlot hless
  have hentry : tableEntry.Delivers (room - 1) fun entry => entry.1.Fits ∧ entry.2.Fits :=
    hslot.bind fun key hkey => hslot.map fun value hvalue => ⟨hkey, hvalue⟩
  refine .named (.bind_settled settles_varint settles_varint.any fun arrayCount _ => ?_) _
  refine .skip settles_varint fun hashCount => ?_
  refine ((delivers_items _ hslot).named _).bind fun slots hslots => ?_
  refine ((delivers_items _ hentry).named _).map fun hash hhash => ?_
  have hlength := hhash.length_le
  refine tableOf_fits (hslots.fitList hless) ?_ hhash.all
  unfold IsLength at hroom ⊢
  omega

theorem delivers_writtenConstant :
    writtenConstant.Delivers room fun written => ∀ value ∈ written, value.Fits := by
  refine .skip settles_varint fun tag => ?_
  split
  · exact .pure (by simp)
  · exact (delivers_table hroom).map fun value hvalue => by simpa using hvalue
  · exact delivers_word.map fun _ hvalue => by
      simpa using fits_integer (signExtend_isWord (by decide) hvalue)
  · exact delivers_word.map fun _ hvalue => by
      simpa using fits_integer (signExtend_isWord (by decide) hvalue)
  · exact .skip settles_double fun re => .skip settles_double fun im => .pure (by
      simpa using Constant.Fits.complex re im)
  · exact (delivers_taggedString hroom 5 _).map fun value hvalue => by simpa using hvalue

/-- The constants and the children of a record, each of which is as many as there are bytes at
most. -/
theorem delivers_constants (count : Nat) (stack : List Completed) :
    (constants count stack).Delivers room fun progress =>
      FitList Constant.Fits progress.constants ∧ IsLength progress.children.length := by
  -- A function constant is only known to fit once the number of constants is bounded.
  refine (constants_delivers (fun index (progress : Progress) =>
    progress.constants.length = index ∧ progress.children.length ≤ index ∧
      ∀ constant ∈ progress.constants,
        constant.Fits ∨ ∃ place : Nat, constant = .proto place ∧ place < index)
    (by simp) ?_ count).mono ?_
  · rintro index progress ⟨hlength, hchildren, hconstants⟩
    have hlater : ∀ constant ∈ progress.constants,
        constant.Fits ∨ ∃ place : Nat, constant = .proto place ∧ place < index + 1 :=
      fun constant hmem => (hconstants constant hmem).imp_right fun ⟨place, hplace, hlt⟩ =>
        ⟨place, hplace, Nat.lt_succ_of_lt hlt⟩
    refine (constant_delivers progress).mono ?_
    rintro next (⟨found, hfound, rfl⟩ | ⟨completed, rest, -, rfl⟩)
    · have hfits := (delivers_writtenConstant hroom).of_gives hfound found rfl
      exact ⟨by simp [Progress.push, hlength], Nat.le_succ_of_le hchildren,
        List.forall_mem_cons.mpr ⟨.inl hfits, hlater⟩⟩
    · exact ⟨by simp [hlength], by simpa using hchildren,
        List.forall_mem_cons.mpr ⟨.inr ⟨_, rfl, Nat.lt_succ_of_le hchildren⟩, hlater⟩⟩
  · rintro progress ⟨hcount, hlength, hchildren, hconstants⟩
    refine ⟨⟨hroom.of_le (hlength ▸ hcount), fun constant hmem => ?_⟩,
      hroom.of_le (Nat.le_trans hchildren hcount)⟩
    rcases hconstants constant hmem with hfits | ⟨place, rfl, hlt⟩
    · exact hfits
    · exact .proto (hroom.of_le (by omega)).isWord

end Constants

section DebugInfo

variable (hroom : IsLength room)

include hroom

theorem delivers_localName (code : UInt8) :
    (localName code).Delivers room fun name => IsLength name.length := by
  unfold localName
  split
  next name hname =>
    have hshort : ∀ name ∈ internalNames, name.length < 32 := by decide
    have hlength := hshort name (List.mem_of_getElem? hname)
    exact .pure (Nat.lt_trans hlength (by decide))
  next =>
    exact (delivers_takeUntil 0).map fun rest hlength => hroom.of_le hlength

/-- Every variable starts less than 2 ^ 32 instructions after the one before it. -/
theorem delivers_localVariables : localVariables.Delivers room (FitList Local.Fits) := by
  refine delivers_iterate settles_localStep (fun count (state : Nat × List Local) =>
    state.1 ≤ count * (2 ^ 32 - 1) ∧ state.2.length = count ∧ ∀ entry ∈ state.2, entry.Fits)
    ?_ (by simp)
  rintro count ⟨lastPc, locals⟩ hcount ⟨hlast, hlength, hlocals⟩
  dsimp only at hlast hlength hlocals
  unfold IsLength at hroom
  refine .skip settles_nextByte fun code => ?_
  split
  · refine .pure ⟨?_, by simpa using hlocals⟩
    rw [List.length_reverse, hlength]
    exact Nat.lt_trans hcount hroom
  · refine (delivers_localName hroom code).bind fun name hname => ?_
    refine delivers_varint.bind fun delta hdelta => delivers_varint.map fun length hend => ?_
    -- There are fewer than 2 ^ 32 - 1 variables before this one, and its end adds one more term.
    have hstart : IsWord (lastPc + delta : Nat) := isWord_natCast (by omega)
    have hstop : IsWord (lastPc + delta + length : Nat) := isWord_natCast (by omega)
    refine ⟨by dsimp only; omega, by simp [hlength], ?_⟩
    exact List.forall_mem_cons.mpr ⟨⟨hname, hstart, hstop, isWord_zero⟩, hlocals⟩

/-- The debug information fits, and its lines still do when a line is added to them. -/
structure DebugInfo.Fits (info : DebugInfo) : Prop where
  lineInfo : FitList (fun line => 0 ≤ line ∧ line < 2 ^ 32) info.lineInfo
  upvalueNames : FitList (fun name => IsLength name.length) info.upvalueNames
  locals : FitList Local.Fits info.locals

omit hroom in
theorem delivers_lineEntry (lineCount : Nat) :
    (lineEntry h lineCount).Delivers room fun line => 0 ≤ line ∧ line < 2 ^ 32 := by
  refine (delivers_unsigned _ _).map fun line hline => ⟨Int.natCast_nonneg line, ?_⟩
  have hwidth : (lineWidth lineCount).toNat ≤ 4 := by
    unfold lineWidth
    split
    · decide
    · split <;> decide
  have hlt : line < 2 ^ 32 :=
    Nat.lt_of_lt_of_le hline.1 (Nat.pow_le_pow_right (by decide : 0 < 256) hwidth)
  omega

theorem delivers_debugInfo (instructionCount lineCount : Nat) {upvalueCount : Nat}
    (hupvalues : IsLength upvalueCount) :
    (debugInfo h instructionCount upvalueCount lineCount).Delivers room DebugInfo.Fits := by
  have hname : (takeUntil 0).Delivers room fun name => IsLength name.length :=
    (delivers_takeUntil 0).mono fun _ hlength => hroom.of_le (Nat.le_of_succ_le hlength)
  refine ((delivers_items _ (delivers_lineEntry lineCount)).named _).bind fun lines hlines => ?_
  refine ((delivers_collect (fun _ => hname) upvalueCount 0).named _).bind fun names hnames => ?_
  refine ((delivers_localVariables hroom).named _).map fun locals hlocals => ?_
  exact ⟨hlines.fitList hroom, ⟨hnames.1.symm ▸ hupvalues, hnames.2⟩, hlocals⟩

theorem delivers_debugBlock (size instructionCount lineCount : Nat) {upvalueCount : Nat}
    (hupvalues : IsLength upvalueCount) :
    (debugBlock h size instructionCount upvalueCount lineCount).Delivers room
      DebugInfo.Fits := by
  unfold debugBlock
  split
  · exact .pure ⟨.nil, .nil, .nil⟩
  · refine .named (.block (delivers_debugInfo hroom instructionCount lineCount hupvalues) ?_) _
    exact fun info _ hinfo => .skip (settles_skip size) fun _ => .pure hinfo

end DebugInfo

section Records

/-- What stands before the constants of a record fits, and its lines still do when they are
added up. -/
structure RecordHead.Fits (head : RecordHead) : Prop where
  line : head.line < 2 ^ 32
  lineCount : head.lineCount < 2 ^ 32
  instructions : FitList IsWord head.instructions
  upvalues : FitList Upvalue.Fits head.upvalues

theorem delivers_debugHead : (debugHead h).Delivers room fun found =>
    found.2.1 < 2 ^ 32 ∧ found.2.2 < 2 ^ 32 := by
  unfold debugHead
  split
  · exact .pure ⟨by decide, by decide⟩
  · refine .skip settles_varint fun size => ?_
    split
    · exact .pure ⟨by decide, by decide⟩
    · exact delivers_varint.bind fun line hline => delivers_varint.map fun lineCount hlineCount =>
        ⟨hline, hlineCount⟩

theorem delivers_recordHead (hroom : IsLength room) :
    (recordHead h).Delivers room RecordHead.Fits := by
  refine .skip settles_nextByte fun flags => .skip settles_nextByte fun numParams => ?_
  refine .skip settles_nextByte fun frameSize => .skip settles_nextByte fun numUpvalues => ?_
  refine .skip settles_varint fun constantCount => .skip settles_varint fun numberCount => ?_
  refine .skip settles_varint fun instructionCount => ?_
  refine delivers_debugHead.bind fun found hfound => .skip (settles_emit _) fun _ => ?_
  have hinstruction : (instruction h).Delivers room IsWord :=
    (delivers_unsigned_isWord _ _).map fun _ hword => hword
  refine ((delivers_items _ hinstruction).named _).bind fun instructions hinstructions => ?_
  refine ((delivers_items _ delivers_upvalue).named _).map fun upvalues hupvalues => ?_
  exact ⟨hfound.1, hfound.2, hinstructions.fitList hroom, hupvalues.fitList hroom⟩

theorem RecordHead.Fits.body {head : RecordHead} (hhead : head.Fits) {constants : List Constant}
    (hconstants : FitList Constant.Fits constants) {numbers : List Number}
    (hnumbers : FitList Number.Fits numbers) {info : DebugInfo} (hinfo : info.Fits) :
    (head.body constants numbers info).Fits where
  name := isLength_zero
  lineDefined := isWord_natCast (Nat.lt_trans hhead.line (by decide))
  lastLineDefined := isWord_natCast (by have := hhead.line; have := hhead.lineCount; omega)
  numUpvalues := isWord_byte _
  numParams := isWord_byte _
  maxStack := isWord_byte _
  flags := isWord_byte _
  instructions := hhead.instructions
  constants := hconstants
  numConstants := hnumbers
  sourceLines := by
    refine ⟨by simpa [RecordHead.body] using hinfo.lineInfo.length, List.forall_mem_map.mpr ?_⟩
    intro line hline
    have hentry := hinfo.lineInfo.all line hline
    have hstart := hhead.line
    exact ⟨⟨by dsimp only; omega, by dsimp only; omega⟩, isWord_zero⟩
  lineInfo := by
    refine ⟨hinfo.lineInfo.length, fun line hline => ?_⟩
    have hentry := hinfo.lineInfo.all line hline
    exact ⟨by omega, by omega⟩
  locals := hinfo.locals
  upvalues := hhead.upvalues
  upvalueNames := hinfo.upvalueNames
  typeInfo := isLength_zero

theorem RecordParts.From.fits (hroom : IsLength room) {stack : List Completed}
    {parts : RecordParts} (hparts : parts.From room h stack) : parts.prototype.Fits := by
  have hhead := (delivers_recordHead hroom).of_gives hparts.head
  have hprogress := (delivers_constants hroom _ _).of_gives hparts.constants
  have hnumbers := (delivers_labelledItems _ _ delivers_number).of_gives hparts.numbers
  have hupvalues : IsLength parts.head.numUpvalues.toNat :=
    Nat.lt_trans parts.head.numUpvalues.toNat_lt (by decide)
  have hinfo := (delivers_debugBlock hroom _ _ _ hupvalues).of_gives hparts.info
  exact ⟨hhead.body hprogress.1 (hnumbers.fitList hroom) hinfo, by
    simpa [prototype] using hprogress.2⟩

theorem main_fits (hroom : IsLength room) (h : Header) (maxDepth : Int) :
    (main h maxDepth).Delivers room (Prototype.Everywhere Prototype.Fits) :=
  main_delivers (fun hparts => hparts.fits hroom) fun hname hchunk =>
    ⟨{ hchunk.body with name := hroom.of_le hname }, hchunk.children⟩

end Records

end Jit

namespace Luau

variable {h : Header} {strings : Array Bytes}

/-- The strings of a file fit. -/
def StringsFit (strings : Array Bytes) : Prop :=
  ∀ bytes ∈ strings.toList, IsLength bytes.length

section Fields

theorem delivers_byte : byte.Delivers room IsWord :=
  .skip settles_nextByte fun b => .pure (isWord_byte b)

theorem delivers_count : count.Delivers room IsWord :=
  delivers_varint.map fun _ hvalue => isWord_natCast (Nat.lt_trans hvalue (by decide))

theorem delivers_stringTable (hroom : IsLength room) : stringTable.Delivers room StringsFit := by
  refine .named (.skip settles_varint fun count => ?_) _
  have hstring : tableString.Delivers room fun bytes => IsLength bytes.length :=
    .skip settles_varint fun size => delivers_take_isLength hroom _
  exact (delivers_labelledItems _ _ hstring).map fun strings hstrings => hstrings.all

theorem delivers_stringRef (hstrings : StringsFit strings) :
    (stringRef strings).Delivers room fun bytes => IsLength bytes.length := by
  refine .skip settles_position fun offset => .skip settles_varint fun index => ?_
  split
  · exact .pure isLength_zero
  · split
    next bytes hget =>
      exact .pure (hstrings bytes (Array.mem_toList_iff.mpr (Array.mem_of_getElem? hget)))
    next => exact .failAt _ _

theorem delivers_localVariable (hstrings : StringsFit strings) :
    (localVariable strings).Delivers room Local.Fits := by
  refine (delivers_stringRef hstrings).bind fun name hname => ?_
  refine delivers_count.bind fun startPc hstart => delivers_count.bind fun endPc hend => ?_
  exact delivers_byte.map fun register hregister => ⟨hname, hstart, hend, hregister⟩

theorem delivers_debugTable (hroom : IsLength room) (hstrings : StringsFit strings) :
    (debugTable strings).Delivers room fun names => FitList Local.Fits names.1 ∧
      FitList (fun name => IsLength name.length) names.2 := by
  refine .named ?_ _
  refine (delivers_counted _ settles_count (delivers_localVariable hstrings)).bind
    fun locals hlocals => ?_
  refine (delivers_counted _ settles_count (delivers_stringRef hstrings)).map
    fun names hnames => ?_
  exact ⟨hlocals.fitList hroom, hnames.fitList hroom⟩

theorem delivers_optionalPart {α : Type} {property : α → Prop} {absent : α} {part : Decoder α}
    (habsent : property absent) (hpart : part.Delivers room property) :
    (optionalPart absent part).Delivers room property := by
  refine .skip settles_nextByte fun present => ?_
  split
  · exact .pure habsent
  · exact hpart

theorem delivers_typeBlock (hroom : IsLength room) : (typeBlock h).Delivers room fun types =>
    IsWord types.1 ∧ IsLength types.2.length := by
  unfold typeBlock
  split
  · exact .pure ⟨isWord_zero, isLength_zero⟩
  · refine delivers_byte.bind fun flags hflags => ?_
    have hinfo : (named "type info" do
        let size ← varint
        take size).Delivers room fun info => IsLength info.length :=
      .named (.skip settles_varint fun size => delivers_take_isLength hroom _) _
    exact hinfo.map fun info hlength => ⟨hflags, hlength⟩

/-- An interval starts within the instructions, so there are no more intervals than
instructions. -/
theorem mul_pow_lt_of_lt_intervalCount {instructionCount gap index : Nat}
    (hindex : index < intervalCount instructionCount gap) :
    index * 2 ^ gap < instructionCount := by
  unfold intervalCount at hindex
  split at hindex
  next => omega
  next hpos =>
    have hle : index ≤ (instructionCount - 1) / 2 ^ gap := Nat.le_of_lt_succ hindex
    have hmul := (Nat.le_div_iff_mul_le (Nat.two_pow_pos gap)).mp hle
    omega

theorem intervalCount_le (instructionCount gap : Nat) :
    intervalCount instructionCount gap ≤ instructionCount := by
  unfold intervalCount
  split
  next => omega
  next hpos =>
    have hle := Nat.div_le_self (instructionCount - 1) (Nat.pow 2 gap)
    omega

/-- Every line differs from the one before it by at most 2 ^ 31. -/
theorem delivers_lineTable (hroom : IsLength room) {instructionCount : Nat}
    (hcount : IsLength instructionCount) :
    (lineTable instructionCount).Delivers room fun lines => FitList IsWord lines.1 ∧
      FitList (fun line => IsWord line.1 ∧ IsWord line.2) lines.2 := by
  refine .named (.skip settles_nextByte fun gap => ?_) _
  refine (delivers_items _ delivers_byte).bind fun lineInfo hlineInfo => ?_
  have hintervals := intervalCount_le instructionCount gap.toNat
  refine (delivers_fold (fun index (state : Int × List (Int × Int)) =>
    (-(index * 2 ^ 31) ≤ state.1 ∧ state.1 ≤ index * 2 ^ 31) ∧ state.2.length = index ∧
      ∀ line ∈ state.2, IsWord line.1 ∧ IsWord line.2) _ (by simp) ?_).map ?_
  · rintro index ⟨line, lines⟩ hindex ⟨hline, hlength, hlines⟩
    have hstart := mul_pow_lt_of_lt_intervalCount hindex
    dsimp only at hline hlength hlines
    -- The index is below the number of instructions, so the line stays within 2 ^ 63.
    unfold IsLength at hcount
    refine (delivers_signed 31 false rfl rfl).map fun delta hdelta => ?_
    refine ⟨?_, by simp [hlength], List.forall_mem_cons.mpr ⟨⟨?_, ?_⟩, hlines⟩⟩
    · dsimp only
      omega
    · exact isWord_natCast (by dsimp only [Nat.pow_eq]; omega)
    · exact ⟨by dsimp only; omega, by dsimp only; omega⟩
  · rintro ⟨line, lines⟩ ⟨-, hlength, hlines⟩
    refine ⟨hlineInfo.fitList hroom, ?_, by simpa using hlines⟩
    dsimp only at hlength ⊢
    rw [List.length_reverse, hlength]
    exact hcount.of_le hintervals

end Fields

section Constants

theorem delivers_tableKey {known : Array Constant}
    (hknown : ∀ constant ∈ known.toList, constant.Fits) :
    (tableKey known).Delivers room fun entry => entry.1.Fits ∧ entry.2.Fits := by
  refine .skip settles_position fun offset => .skip settles_varint fun key => ?_
  split
  next constant hget =>
    exact .pure ⟨hknown constant (Array.mem_toList_iff.mpr (Array.mem_of_getElem? hget)),
      fits_integer isWord_zero⟩
  next => exact .failAt _ _

/-- The keys of a table are not checked against the room, but their number has thirty-two
bits. -/
theorem delivers_constant {known : Array Constant} (hstrings : StringsFit strings)
    (hknown : ∀ constant ∈ known.toList, constant.Fits) :
    (constant strings known).Delivers room Constant.Fits := by
  refine .skip settles_position fun offset => .skip settles_nextByte fun tag => ?_
  split
  next payload hsome =>
    unfold payload? at hsome
    split at hsome <;> simp only [Option.some.injEq, reduceCtorEq] at hsome <;> subst hsome
    · exact .pure .nil
    · exact .skip settles_nextByte fun b => .pure (.boolean _)
    · exact .skip (settles_float _ _) fun value => .pure (fits_float value)
    · exact (delivers_stringRef hstrings).map fun _ hlength => .string hlength
    · exact (delivers_unsigned_isWord _ _).map fun _ hid => .importPath hid
    · refine delivers_varint.bind fun count hcount => ?_
      refine (delivers_collect (fun _ => delivers_tableKey hknown) count 0).map ?_
      rintro hash ⟨hlength, hhash⟩
      exact fits_table .nil ⟨hlength.symm ▸ hcount, hhash⟩
    · exact delivers_varint.map fun _ hindex => .proto (IsLength.isWord hindex)
    · refine (delivers_collect (fun _ => settles_single.any) 4 0).map fun values hvalues => ?_
      have hfour : IsLength 4 := Nat.lt_of_lt_of_le (by decide : 4 < 2 ^ 3) (by decide)
      exact .vector (hvalues.1.symm ▸ hfour)
  next => exact .failAt _ _

theorem delivers_constants (hstrings : StringsFit strings) :
    (constants strings).Delivers room fun values =>
      values.length ≤ room ∧ ∀ constant ∈ values, constant.Fits := by
  refine constants_delivers (fun values => ∀ constant ∈ values, constant.Fits) (by simp) ?_
  intro known hknown
  exact (delivers_constant hstrings hknown).mono fun value hvalue =>
    List.forall_mem_append.mpr ⟨hknown, by simpa using hvalue⟩

/-- Linking changes function constants only, which become places of children. -/
theorem Links.fits {numbers : List Nat} {raw linked : List Constant}
    (hlinks : Links numbers raw linked) (hnumbers : IsLength numbers.length)
    (hraw : FitList Constant.Fits raw) : FitList Constant.Fits linked := by
  refine ⟨hlinks.length_eq ▸ hraw.length, fun result hresult => ?_⟩
  obtain ⟨constant, hconstant, hlinked⟩ := hlinks.to_raw result hresult
  cases hlinked with
  | other => exact hraw.all _ hconstant
  | proto hplace =>
      obtain ⟨number, hget, -⟩ := getElem?_of_childIndex? hplace
      have hlt := (List.getElem?_eq_some_iff.mp hget).1
      exact .proto (hnumbers.of_le (Nat.le_of_lt hlt)).isWord

end Constants

theorem RecordParts.From.fits (hroom : IsLength room) (hstrings : StringsFit strings)
    {table : Table} {parts : RecordParts} (hparts : parts.From room h strings table) :
    parts.prototype.Fits := by
  have hinstruction : instruction.Delivers room IsWord :=
    (delivers_unsigned_isWord _ _).map fun _ hword => hword
  have hinstructions := ((delivers_counted _ settles_count hinstruction).of_gives
    hparts.instructions).fitList hroom
  have hraw := (delivers_constants hstrings).of_gives hparts.raw
  have hchildren := hroom.of_le ((takeChildren_delivers table).of_gives hparts.taken).1
  have hlinks := (linkConstants_delivers _ _ _).of_gives hparts.linked
  have htypes := (delivers_typeBlock hroom).of_gives hparts.types
  have hlines := (delivers_optionalPart ⟨.nil, .nil⟩
    (delivers_lineTable hroom hinstructions.length)).of_gives hparts.lines
  have hnames := (delivers_optionalPart ⟨.nil, .nil⟩
    (delivers_debugTable hroom hstrings)).of_gives hparts.names
  refine ⟨?_, by simpa [prototype] using hchildren⟩
  exact
    { name := (delivers_stringRef hstrings).of_gives hparts.name
      lineDefined := delivers_count.of_gives hparts.lineDefined
      lastLineDefined := isWord_zero
      numUpvalues := delivers_byte.of_gives hparts.numUpvalues
      numParams := delivers_byte.of_gives hparts.numParams
      maxStack := delivers_byte.of_gives hparts.maxStack
      flags := htypes.1
      instructions := hinstructions
      constants := hlinks.fits (by simpa using hchildren) ⟨hroom.of_le hraw.1, hraw.2⟩
      numConstants := .nil
      sourceLines := hlines.2
      lineInfo := hlines.1
      locals := hnames.1
      upvalues := .nil
      upvalueNames := hnames.2
      typeInfo := htypes.2 }

theorem main_fits (hroom : IsLength room) (h : Header) (maxDepth : Int) :
    (main h maxDepth).Delivers room (Prototype.Everywhere Prototype.Fits) :=
  main_delivers (delivers_stringTable hroom) fun hstrings hparts => hparts.fits hroom hstrings

end Luau

end LuaDump
