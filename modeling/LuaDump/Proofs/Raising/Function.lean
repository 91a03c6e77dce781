import LuaDump.Proofs.Raising.Header
import LuaDump.Proofs.Settling.Function

/-! # What functions raise

Every failure of a function behind an accepted header is founded: it points into the file, and
what it says is wrong is wrong there. Here are the grounds, the integers of variable length and
the functions of the standard interpreter.
-/

namespace LuaDump

open Decoder

/-- The tags of constants, where a tag is a byte. -/
def Dialect.constantTags? : Dialect → Option (List Nat)
  | .lua51 | .lua52 => some [0, 1, 3, 4]
  | .lua53 => some [0x00, 0x01, 0x03, 0x13, 0x04, 0x14]
  | .lua54 => some [0x00, 0x01, 0x11, 0x03, 0x13, 0x04, 0x14]
  | .luau => some [0, 1, 2, 3, 4, 5, 6, 7]
  | .luaJit1 | .luaJit2 => none

/-- The integers of variable length of a dialect. -/
def Dialect.varints : Dialect → List (Decoder Nat)
  | .lua51 | .lua52 | .lua53 => []
  | .lua54 => [highInt, highSize]
  | .luaJit1 | .luaJit2 => [varint, numericHead]
  | .luau => [varint]

/-- Why a function is refused: what is wrong, and where. -/
inductive Grounds (data : Array UInt8) (dialect : Dialect) (maxDepth : Int) : Cause → Int → Prop
  | short {cause : Cause} {offset : Int} (hkind : cause.kind = .truncated) :
      Grounds data dialect maxDepth cause offset
  | constantTag {tag : UInt8} {offset : Nat} {tags : List Nat}
      (htags : dialect.constantTags? = some tags) (hbyte : data[offset]? = some tag)
      (htag : tag.toNat ∉ tags) :
      Grounds data dialect maxDepth (.constantTag dialect tag.toNat) offset
  | overflow {cause : Cause} {offset last : Int} {trace : List Event} {reader : Decoder Nat}
      (hkind : cause.kind = .integerOverflow) (hreader : reader ∈ dialect.varints)
      (hfailed : reader (Window.whole data) offset = .failed ⟨cause, offset, []⟩ last trace) :
      Grounds data dialect maxDepth cause offset
  | stack {cause : Cause} {offset : Int} (hdialect : dialect.isLuaJit = true)
      (hkind : cause.kind = .unbalancedPrototypeStack ∨ cause.kind = .sizeMismatch) :
      Grounds data dialect maxDepth cause offset
  | reference {cause : Cause} {offset : Int} (hdialect : dialect = .luau)
      (hkind : cause.kind = .invalidReference) : Grounds data dialect maxDepth cause offset
  | tooDeep {offset : Int} (hdepth : maxDepth < data.size) :
      Grounds data dialect maxDepth (.tooDeep maxDepth) offset

/-- A failure for which there are grounds, in whatever context. -/
structure Founded (data : Array UInt8) (dialect : Dialect) (maxDepth : Int)
    (failure : Failure) : Prop where
  nonneg : 0 ≤ failure.offset
  inside : failure.offset ≤ data.size
  grounds : Grounds data dialect maxDepth failure.cause failure.offset

variable {data : Array UInt8} {room : Nat} {dialect : Dialect} {maxDepth : Int}
  {blame : Failure → Prop}

theorem tolerant_founded : Tolerant data (Founded data dialect maxDepth) where
  short := fun _ _ hkind hnonneg hinside => ⟨hnonneg, hinside, .short hkind⟩
  push := fun _ hfounded => ⟨hfounded.nonneg, hfounded.inside, hfounded.grounds⟩

theorem Grounds.kind_cases {cause : Cause} {offset : Int}
    (hgrounds : Grounds data dialect maxDepth cause offset) :
    cause.kind = .truncated ∨ cause.kind = .depthExceeded ∨
      (cause.kind = .unknownConstantTag ∧ dialect.isLuaJit = false) ∨
      (cause.kind = .integerOverflow ∧ dialect ∉ [.lua51, .lua52, .lua53]) ∨
      ((cause.kind = .unbalancedPrototypeStack ∨ cause.kind = .sizeMismatch) ∧
        dialect.isLuaJit = true) ∨
      (cause.kind = .invalidReference ∧ dialect = .luau) := by
  cases hgrounds with
  | short hkind => exact .inl hkind
  | tooDeep hdepth => exact .inr (.inl rfl)
  | constantTag htags hbyte htag =>
      refine .inr (.inr (.inl ⟨rfl, ?_⟩))
      cases dialect <;> simp [Dialect.constantTags?, Dialect.isLuaJit] at htags ⊢
  | overflow hkind hreader hfailed =>
      refine .inr (.inr (.inr (.inl ⟨hkind, ?_⟩)))
      cases dialect <;> simp [Dialect.varints] at hreader ⊢
  | stack hdialect hkind => exact .inr (.inr (.inr (.inr (.inl ⟨hkind, hdialect⟩))))
  | reference hdialect hkind => exact .inr (.inr (.inr (.inr (.inr ⟨hkind, hdialect⟩))))

theorem Grounds.lt_of_depthExceeded {cause : Cause} {offset : Int}
    (hgrounds : Grounds data dialect maxDepth cause offset)
    (hkind : cause.kind = .depthExceeded) : maxDepth < data.size := by
  cases hgrounds with
  | tooDeep hdepth => exact hdepth
  | short hshort => simp [hkind] at hshort
  | constantTag htags hbyte htag => simp [Cause.kind] at hkind
  | overflow hoverflow hreader hfailed => simp [hkind] at hoverflow
  | stack hdialect hstack => simp [hkind] at hstack
  | reference hdialect hreference => simp [hkind] at hreference

namespace Decoder

/-- What the groups of an integer that starts at an offset raise. -/
structure GroupsRaise (data : Array UInt8) (start : Int) (failure : Failure) : Prop where
  context_eq : failure.context = []
  nonneg : 0 ≤ failure.offset
  inside : failure.offset ≤ data.size
  kind : failure.kind = .truncated ∨ failure.kind = .integerOverflow ∧ failure.offset = start

theorem GroupsRaise.allowsShort {start : Int} : AllowsShort data (GroupsRaise data start) :=
  fun _ _ hkind hnonneg hinside => ⟨rfl, hnonneg, hinside, .inl hkind⟩

/-- An integer that is refused is refused as a whole, where it starts. -/
theorem GroupsRaise.failAt {α : Type} {start : Int} {cause : Cause} (hnonneg : 0 ≤ start)
    (hinside : start ≤ data.size) (hkind : cause.kind = .integerOverflow) :
    (failAt start cause : Decoder α).Raises data room (GroupsRaise data start) :=
  .failAt ⟨rfl, hnonneg, hinside, .inr ⟨hkind, rfl⟩⟩

/-- An integer of variable length is refused in a window just as in the whole file. -/
theorem raises_reader {reader : Decoder Nat} {groups : Int → Decoder Nat}
    (hreader : reader ∈ dialect.varints) (heq : reader = position >>= groups)
    (hsettles : reader.Settles 1)
    (hgroups : ∀ start : Int, 0 ≤ start → start ≤ data.size →
      (groups start).Raises data room (GroupsRaise data start)) :
    reader.Raises data room (Founded data dialect maxDepth) := by
  intro w pos hdata hplace
  have hat : reader.RaisesAt w pos (GroupsRaise data pos) := by
    rw [heq]
    exact .position_bind hplace.inside
      (hgroups pos hplace.nonneg (hdata ▸ hplace.inFile) hdata hplace)
  refine ⟨hat.done, fun {failure last trace} hfailed => ?_⟩
  obtain ⟨hcontext, hnonneg, hinside, hkind⟩ := hat.failed hfailed
  refine ⟨hnonneg, hinside, ?_⟩
  rcases hkind with hkind | ⟨hkind, hoffset⟩
  · exact .short hkind
  · obtain ⟨failure', last', trace', hfailed', halike⟩ :=
      hsettles.failed_whole hdata hplace hfailed (by simp [hkind])
    have hsignature : ∀ head, failure.cause ≠ .unknownSignature head := by
      intro head hcause
      simp [Failure.kind, hcause, Cause.kind] at hkind
    obtain rfl := halike.eq_of_cause (by simp [hkind]) hsignature
    have hbare : failure = ⟨failure.cause, failure.offset, []⟩ := by rw [← hcontext]
    rw [hbare, ← hoffset] at hfailed'
    exact .overflow hkind hreader hfailed'

theorem raises_varint (hreader : varint ∈ dialect.varints) :
    varint.Raises data room (Founded data dialect maxDepth) := by
  apply raises_reader hreader rfl settles_varint
  intro start hnonneg hinside
  apply raises_plainIterate (settles_lowGroup 32 start)
  intro state
  refine (raises_nextByte GroupsRaise.allowsShort).bind fun b => ?_
  dsimp only
  split
  · exact GroupsRaise.failAt hnonneg hinside rfl
  · split
    · exact .pure _
    · split
      · exact GroupsRaise.failAt hnonneg hinside rfl
      · exact .pure _

theorem raises_numericHead (hreader : numericHead ∈ dialect.varints) :
    numericHead.Raises data room (Founded data dialect maxDepth) := by
  apply raises_reader hreader rfl settles_numericHead
  intro start hnonneg hinside
  refine (raises_nextByte GroupsRaise.allowsShort).bind fun b => ?_
  dsimp only
  split
  · exact .pure _
  · refine (raises_plainIterate (settles_headGroup start) ?_ _).bind fun value => .pure _
    intro state
    refine (raises_nextByte GroupsRaise.allowsShort).bind fun b => ?_
    dsimp only
    split
    · exact .pure _
    · split
      · exact GroupsRaise.failAt hnonneg hinside rfl
      · exact .pure _

theorem raises_highGroups (limit : Int) (hreader : highGroups limit ∈ dialect.varints) :
    (highGroups limit).Raises data room (Founded data dialect maxDepth) := by
  apply raises_reader hreader rfl (settles_highGroups limit)
  intro start hnonneg hinside
  apply raises_plainIterate (settles_highGroup _ start)
  intro value
  refine (raises_nextByte GroupsRaise.allowsShort).bind fun b => ?_
  split
  · exact GroupsRaise.failAt hnonneg hinside rfl
  · exact .pure _

end Decoder

namespace Standard

variable {h : Header}

section Fields

theorem sizeT_nonneg (h : Header) : (sizeT h).Delivers room fun size => 0 ≤ size :=
  (settles_sizeT h).yields
    (.named ((Yields.any _).bind fun size _ => .pure (Int.natCast_nonneg size)) _)

theorem byte_nonneg : byte.Delivers room fun value => 0 ≤ value :=
  settles_byte.yields ((Yields.any _).bind fun b _ => .pure (Int.natCast_nonneg b.toNat))

variable (htolerant : Tolerant data blame) (hh : h.Readable)

include htolerant

theorem raises_byte : byte.Raises data room blame :=
  (raises_nextByte htolerant.short).bind fun _ => .pure _

theorem raises_flag : flag.Raises data room blame :=
  (raises_nextByte htolerant.short).bind fun _ => .pure _

theorem raises_upvalue : upvalue.Raises data room blame := by
  refine .label htolerant ?_ _
  exact (raises_flag htolerant).bind fun _ => (raises_byte htolerant).bind fun _ => .pure _

theorem raises_upvalueWithKind : upvalueWithKind.Raises data room blame := by
  have hbyte : byte.Raises data room blame := raises_byte htolerant
  refine .label htolerant ?_ _
  exact (raises_flag htolerant).bind fun _ => hbyte.bind fun _ => hbyte.bind fun _ => .pure _

theorem raises_localVariable {string : Decoder Bytes} {int : Decoder Int}
    (hstring : string.Raises data room blame) (hint : int.Raises data room blame) :
    (localVariable string int).Raises data room blame := by
  refine .label htolerant ?_ _
  exact hstring.bind fun _ => hint.bind fun _ => hint.bind fun _ => .pure _

theorem raises_plainTail {string : Decoder Bytes} {int : Decoder Int}
    (hstring : string.Raises data room blame) (hint : int.Raises data room blame) :
    (plainTail string int).Raises data room blame := by
  have hline : (plainLine int).Raises data room blame := hint.bind fun _ => .pure _
  have hlocal := raises_localVariable htolerant hstring hint
  refine (raises_counted _ htolerant hint hline).bind fun sourceLines => ?_
  refine (raises_counted _ htolerant hint hlocal).bind fun locals => ?_
  exact (raises_counted _ htolerant hint hstring).bind fun names => .pure _

theorem raises_namedHead {string : Decoder Bytes} {int : Decoder Int}
    (hstring : string.Raises data room blame) (hint : int.Raises data room blame) :
    (namedHead string int).Raises data room blame := by
  have hbyte : byte.Raises data room blame := raises_byte htolerant
  refine hstring.bind fun name => hint.bind fun first => hint.bind fun last => ?_
  exact hbyte.bind fun _ => hbyte.bind fun _ => hbyte.bind fun _ => .pure _

theorem raises_booleanConstant : booleanConstant.Raises data room blame :=
  (raises_flag htolerant).bind fun _ => .pure _

/-- No string is shorter than nothing: its size is not negative. -/
theorem raises_sizedBytes {size : Int} (hsize : 0 ≤ size) :
    (sizedBytes size).Raises data room blame := by
  unfold sizedBytes
  split
  · exact .pure _
  · exact raises_take (by omega) htolerant.short

include hh

theorem raises_int : (int h).Raises data room blame :=
  .label htolerant ((raises_unsigned hh.intSize _ htolerant.short).bind fun _ => .pure _) _

theorem raises_sizeT : (sizeT h).Raises data room blame :=
  .label htolerant ((raises_unsigned hh.sizeTSize _ htolerant.short).bind fun _ => .pure _) _

theorem raises_instruction : (instruction h).Raises data room blame :=
  (raises_unsigned hh.instructionSize _ htolerant.short).bind fun _ => .pure _

theorem raises_number : (number h).Raises data room blame := by
  have hwidth := hh.numberSize
  refine .label htolerant ?_ _
  split
  next hintegral =>
    rw [if_pos hintegral] at hwidth
    exact (raises_signed hwidth _ htolerant.short).bind fun _ => .pure _
  next hfloat =>
    rw [if_neg hfloat] at hwidth
    exact (raises_float hwidth _ htolerant.short).bind fun _ => .pure _

theorem raises_integerConstant : (integerConstant h).Raises data room blame :=
  .label htolerant ((raises_signed hh.integerSize _ htolerant.short).bind fun _ => .pure _) _

theorem raises_floatConstant (hdialect : h.dialect = .lua53 ∨ h.dialect = .lua54) :
    (floatConstant h).Raises data room blame := by
  have hwidth := hh.numberSize
  rw [hh.numberIntegral hdialect] at hwidth
  exact .label htolerant ((raises_float hwidth _ htolerant.short).bind fun _ => .pure _) _

theorem raises_terminatedString : (terminatedString h).Raises data room blame := by
  refine .label htolerant ?_ _
  refine (raises_sizeT htolerant hh).bind_value (sizeT_nonneg h) fun size hsize => ?_
  exact (raises_take hsize htolerant.short).bind fun _ => .pure _

theorem raises_escapedString : (escapedString h).Raises data room blame := by
  refine .label htolerant ?_ _
  refine (raises_byte htolerant).bind_value byte_nonneg fun short hshort => ?_
  split
  · exact (raises_sizeT htolerant hh).bind_value (sizeT_nonneg h) fun size hsize =>
      raises_sizedBytes htolerant hsize
  · rw [pure_bind]
    exact raises_sizedBytes htolerant hshort

theorem raises_head51 : (head51 h).Raises data room blame := by
  have hint : (int h).Raises data room blame := raises_int htolerant hh
  have hbyte : byte.Raises data room blame := raises_byte htolerant
  refine (raises_terminatedString htolerant hh).bind fun name => ?_
  refine hint.bind fun first => hint.bind fun last => ?_
  exact hbyte.bind fun _ => hbyte.bind fun _ => hbyte.bind fun _ => hbyte.bind fun _ => .pure _

theorem raises_head52 : (head52 h).Raises data room blame := by
  have hint : (int h).Raises data room blame := raises_int htolerant hh
  have hbyte : byte.Raises data room blame := raises_byte htolerant
  refine hint.bind fun first => hint.bind fun last => ?_
  exact hbyte.bind fun _ => hbyte.bind fun _ => hbyte.bind fun _ => .pure _

theorem raises_tail52 : (tail52 h).Raises data room blame := by
  have hint : (int h).Raises data room blame := raises_int htolerant hh
  have hstring : (terminatedString h).Raises data room blame := raises_terminatedString htolerant hh
  refine (raises_counted _ htolerant hint (raises_upvalue htolerant)).bind fun upvalues => ?_
  refine hstring.bind fun name => ?_
  exact (raises_plainTail htolerant hstring hint).bind fun tail => .pure _

end Fields

section Grouped

theorem raises_groupedInt (hint : highInt.Raises data room blame) :
    groupedInt.Raises data room blame :=
  hint.bind fun _ => .pure _

theorem raises_groupedString (htolerant : Tolerant data blame)
    (hsize : highSize.Raises data room blame) : groupedString.Raises data room blame := by
  refine .label htolerant (hsize.bind fun size => ?_) _
  exact raises_sizedBytes htolerant (Int.natCast_nonneg size)

theorem raises_tail54 (htolerant : Tolerant data blame) (hcount : groupedInt.Raises data room blame)
    (hstring : groupedString.Raises data room blame) : tail54.Raises data room blame := by
  have hdelta : lineDelta.Raises data room blame :=
    (raises_nextByte htolerant.short).bind fun _ => .pure _
  have hline : anchoredLine.Raises data room blame :=
    hcount.bind fun _ => hcount.bind fun _ => .pure _
  have hlocal := raises_localVariable htolerant hstring hcount
  refine (raises_counted _ htolerant hcount hdelta).bind fun lineInfo => ?_
  refine (raises_counted _ htolerant hcount hline).bind fun sourceLines => ?_
  refine (raises_counted _ htolerant hcount hlocal).bind fun locals => ?_
  exact (raises_counted _ htolerant hcount hstring).bind fun names => .pure _

end Grouped

section Constants

/-- A tag outside its table is refused where it stands. -/
theorem raises_taggedConstant {payload? : Nat → Option (Decoder Constant)} {tags : List Nat}
    (htags : dialect.constantTags? = some tags)
    (hnone : ∀ tag ∈ tags, payload? tag ≠ none)
    (hpayload : ∀ tag payload, payload? tag = some payload →
      payload.Raises data room (Founded data dialect maxDepth)) :
    (taggedConstant dialect payload?).Raises data room (Founded data dialect maxDepth) := by
  refine .byte_bind tolerant_founded.short fun offset tag hbyte => ?_
  split
  next payload hsome => exact hpayload _ _ hsome
  next hunknown =>
    have hinside := Header.inside_of_getElem? hbyte
    refine .failAt ⟨Int.natCast_nonneg offset, hinside, .constantTag htags hbyte ?_⟩
    exact fun hmem => hnone _ hmem hunknown

variable (htolerant : Tolerant data blame) (hh : h.Readable)

include htolerant hh

theorem raises_payload51 (tag : Nat) (payload : Decoder Constant)
    (hsome : payload51 h tag = some payload) : payload.Raises data room blame := by
  unfold payload51 at hsome
  split at hsome <;> simp only [Option.some.injEq, reduceCtorEq] at hsome <;> subst hsome
  · exact .pure _
  · exact raises_booleanConstant htolerant
  · exact (raises_number htolerant hh).bind fun _ => .pure _
  · exact (raises_terminatedString htolerant hh).bind fun _ => .pure _

theorem raises_payload53 (hdialect : h.dialect = .lua53) (tag : Nat) (payload : Decoder Constant)
    (hsome : payload53 h tag = some payload) : payload.Raises data room blame := by
  have hstring : (stringConstant (escapedString h)).Raises data room blame :=
    (raises_escapedString htolerant hh).bind fun _ => .pure _
  unfold payload53 at hsome
  split at hsome <;> simp only [Option.some.injEq, reduceCtorEq] at hsome <;> subst hsome
  · exact .pure _
  · exact raises_booleanConstant htolerant
  · exact raises_floatConstant htolerant hh (.inl hdialect)
  · exact raises_integerConstant htolerant hh
  · exact hstring
  · exact hstring

theorem raises_payload54 (hdialect : h.dialect = .lua54)
    (hstring : groupedString.Raises data room blame) (tag : Nat) (payload : Decoder Constant)
    (hsome : payload54 h tag = some payload) : payload.Raises data room blame := by
  have hconstant : (stringConstant groupedString).Raises data room blame :=
    hstring.bind fun _ => .pure _
  unfold payload54 at hsome
  split at hsome <;> simp only [Option.some.injEq, reduceCtorEq] at hsome <;> subst hsome
  · exact .pure _
  · exact .pure _
  · exact .pure _
  · exact raises_integerConstant htolerant hh
  · exact raises_floatConstant htolerant hh (.inr hdialect)
  · exact hconstant
  · exact hconstant

end Constants

section Chunks

/-- What the parts of a function raise. -/
structure Grammar.Raises (data : Array UInt8) (room : Nat) (g : Grammar)
    (blame : Failure → Prop) : Prop where
  count : g.count.Raises data room blame
  head : g.head.Raises data room blame
  instruction : g.instruction.Raises data room blame
  constant : g.constant.Raises data room blame
  upvalues : g.upvalues.Raises data room blame
  tail : g.tail.Raises data room blame

theorem Grammar.Raises.narrow {g : Grammar} {room' : Nat} (hg : g.Raises data room blame)
    (hle : room' ≤ room) : g.Raises data room' blame where
  count := hg.count.narrow hle
  head := hg.head.narrow hle
  instruction := hg.instruction.narrow hle
  constant := hg.constant.narrow hle
  upvalues := hg.upvalues.narrow hle
  tail := hg.tail.narrow hle

/-- A function raises what its parts raise. It is too deep only if the limit is below the size
of the file, for every level above it has passed a byte. -/
theorem Grammar.Raises.chunk {g : Grammar} (hsettles : g.Settles) (htolerant : Tolerant data blame)
    (hg : g.Raises data room blame)
    (hdeep : maxDepth < data.size → ∀ pos : Int, 0 ≤ pos → pos ≤ data.size →
      blame ⟨.tooDeep maxDepth, pos, []⟩)
    {levels : Nat} (hlevels : maxDepth < data.size ∨ room < levels) :
    (g.chunk maxDepth levels).Raises data room blame := by
  induction levels generalizing room with
  | zero => exact .fail (hdeep (by omega))
  | succ levels ih =>
      refine .label htolerant ?_ _
      refine .bind_settled hsettles.head hg.head fun hroom head => ?_
      have hless := hg.narrow (Nat.sub_le room 1)
      have hchild := ih hless (by omega)
      refine (Raises.emit _).bind fun _ => ?_
      refine (raises_counted _ htolerant hless.count hless.instruction).bind fun instructions => ?_
      refine (raises_countedLabelled _ _ htolerant hless.count hless.constant).bind
        fun constants => ?_
      refine hless.upvalues.bind fun early => ?_
      refine (raises_countedLabelled _ _ htolerant hless.count hchild).bind fun children => ?_
      exact hless.tail.bind fun tail => .pure _

variable (hh : h.Readable)

include hh

theorem grammar51_raises (hdialect : h.dialect = .lua51) :
    (grammar51 h).Raises data room (Founded data h.dialect maxDepth) where
  count := raises_int tolerant_founded hh
  head := raises_head51 tolerant_founded hh
  instruction := raises_instruction tolerant_founded hh
  constant := raises_taggedConstant (congrArg Dialect.constantTags? hdialect) (by simp [payload51])
    (raises_payload51 tolerant_founded hh)
  upvalues := .pure _
  tail := raises_plainTail tolerant_founded (raises_terminatedString tolerant_founded hh)
    (raises_int tolerant_founded hh)

theorem grammar52_raises (hdialect : h.dialect = .lua52) :
    (grammar52 h).Raises data room (Founded data h.dialect maxDepth) where
  count := raises_int tolerant_founded hh
  head := raises_head52 tolerant_founded hh
  instruction := raises_instruction tolerant_founded hh
  constant := raises_taggedConstant (congrArg Dialect.constantTags? hdialect) (by simp [payload51])
    (raises_payload51 tolerant_founded hh)
  upvalues := .pure _
  tail := raises_tail52 tolerant_founded hh

theorem grammar53_raises (hdialect : h.dialect = .lua53) :
    (grammar53 h).Raises data room (Founded data h.dialect maxDepth) where
  count := raises_int tolerant_founded hh
  head := raises_namedHead tolerant_founded (raises_escapedString tolerant_founded hh)
    (raises_int tolerant_founded hh)
  instruction := raises_instruction tolerant_founded hh
  constant := raises_taggedConstant (congrArg Dialect.constantTags? hdialect) (by simp [payload53])
    (raises_payload53 tolerant_founded hh hdialect)
  upvalues := raises_counted _ tolerant_founded (raises_int tolerant_founded hh)
    (raises_upvalue tolerant_founded)
  tail := raises_plainTail tolerant_founded (raises_escapedString tolerant_founded hh)
    (raises_int tolerant_founded hh)

theorem grammar54_raises (hdialect : h.dialect = .lua54) :
    (grammar54 h).Raises data room (Founded data h.dialect maxDepth) := by
  have hint : groupedInt.Raises data room (Founded data h.dialect maxDepth) :=
    raises_groupedInt (raises_highGroups _ (by simp [hdialect, Dialect.varints, highInt]))
  have hstring : groupedString.Raises data room (Founded data h.dialect maxDepth) :=
    raises_groupedString tolerant_founded
      (raises_highGroups _ (by simp [hdialect, Dialect.varints, highSize]))
  exact
    { count := hint
      head := .label tolerant_founded (raises_namedHead tolerant_founded hstring hint) _
      instruction := raises_instruction tolerant_founded hh
      constant := raises_taggedConstant (congrArg Dialect.constantTags? hdialect)
        (by simp [payload54]) (raises_payload54 tolerant_founded hh hdialect hstring)
      upvalues := raises_counted _ tolerant_founded hint (raises_upvalueWithKind tolerant_founded)
      tail := raises_tail54 tolerant_founded hint hstring }

omit hh in
/-- The main function has one level more than the limit says, so a limit that is no less than
the size of the file is never met. -/
theorem Grammar.Raises.main {g : Grammar} (hsettles : g.Settles)
    (hg : g.Raises data data.size (Founded data dialect maxDepth)) :
    (g.main maxDepth).Raises data data.size (Founded data dialect maxDepth) := by
  refine hg.chunk hsettles tolerant_founded ?_ (by omega)
  exact fun hdepth pos hnonneg hinside => ⟨hnonneg, hinside, .tooDeep hdepth⟩

end Chunks

end Standard

end LuaDump
