import LuaDump.Jit.Record
import LuaDump.Luau.Record
import LuaDump.Proofs.Loop
import LuaDump.Proofs.Settling.Field
import LuaDump.Standard.Release

/-! # Functions settle

The functions of every dialect, from their integers of variable length up, are settled
by the bytes they pass.
-/

namespace LuaDump

open Decoder

namespace Decoder

theorem settles_lowGroup (bits : Nat) (start : Int) (state : Nat × Nat) :
    (lowGroup bits start state).Settles 1 := by
  refine settles_nextByte.bind fun b => ?_
  dsimp only
  split
  · exact settles_failAt _ _ _
  · split
    · exact settles_pure _
    · split
      · exact settles_failAt _ _ _
      · exact settles_pure _

theorem settles_lowGroups (bits : Nat) : (lowGroups bits).Settles 1 :=
  settles_position.bind_next fun start => settles_iterate (settles_lowGroup bits start) _

theorem settles_varint : varint.Settles 1 :=
  settles_lowGroups 32

theorem settles_headGroup (start : Int) (state : Nat × Nat) :
    (headGroup start state).Settles 1 := by
  refine settles_nextByte.bind fun b => ?_
  dsimp only
  split
  · exact settles_pure _
  · split
    · exact settles_failAt _ _ _
    · exact settles_pure _

theorem settles_numericHead : numericHead.Settles 1 := by
  refine settles_position.bind_next fun start => settles_nextByte.bind fun b => ?_
  dsimp only
  split
  · exact settles_pure _
  · have hgroups := settles_iterate (settles_headGroup start) (6, b.toNat / 2 % 64)
    exact hgroups.weak.bind fun value => settles_pure _

theorem settles_highGroup (ceiling start : Int) (value : Nat) :
    (highGroup ceiling start value).Settles 1 := by
  refine settles_nextByte.bind fun b => ?_
  split
  · exact settles_failAt _ _ _
  · exact settles_pure _

theorem settles_highGroups (limit : Int) : (highGroups limit).Settles 1 :=
  settles_position.bind_next fun start => settles_iterate (settles_highGroup _ start) _

end Decoder

namespace Standard

variable (h : Header)

theorem settles_int : (int h).Settles 1 :=
  ((settles_unsigned _ _).bind fun _ => settles_pure _).named _

theorem settles_sizeT : (sizeT h).Settles 1 :=
  ((settles_unsigned _ _).bind fun _ => settles_pure _).named _

theorem settles_instruction : (instruction h).Settles 1 :=
  (settles_unsigned _ _).bind fun _ => settles_pure _

theorem settles_number : (number h).Settles 1 := by
  apply Settles.named
  split
  · exact (settles_signed _ _).bind fun _ => settles_pure _
  · exact (settles_float _ _).bind fun _ => settles_pure _

theorem settles_integerConstant : (integerConstant h).Settles 1 :=
  ((settles_signed _ _).bind fun _ => settles_pure _).named _

theorem settles_floatConstant : (floatConstant h).Settles 1 :=
  ((settles_float _ _).bind fun _ => settles_pure _).named _

theorem settles_byte : byte.Settles 1 :=
  settles_nextByte.bind fun _ => settles_pure _

theorem settles_flag : flag.Settles 1 :=
  settles_nextByte.bind fun _ => settles_pure _

theorem settles_terminatedString : (terminatedString h).Settles 1 := by
  apply Settles.named
  refine (settles_sizeT h).bind fun size => ?_
  exact (settles_take_toNat size).weak.bind fun _ => settles_pure _

theorem settles_sizedBytes (size : Int) : (sizedBytes size).Settles 0 := by
  unfold sizedBytes
  split
  · exact settles_pure _
  · exact (settles_take_toNat _).weak

theorem settles_escapedString : (escapedString h).Settles 1 := by
  apply Settles.named
  refine settles_byte.bind fun short => ?_
  split
  · exact (settles_sizeT h).weak.bind settles_sizedBytes
  · exact (settles_pure _).bind settles_sizedBytes

theorem settles_groupedString : groupedString.Settles 1 :=
  ((settles_highGroups _).bind fun size => settles_sizedBytes size).named _

theorem settles_groupedInt : groupedInt.Settles 1 :=
  (settles_highGroups _).bind fun _ => settles_pure _

theorem settles_localVariable {string : Decoder Bytes} {int : Decoder Int}
    (hstring : string.Settles 1) (hint : int.Settles 1) : (localVariable string int).Settles 1 := by
  apply Settles.named
  refine hstring.bind fun name => hint.weak.bind fun startPc => ?_
  exact hint.weak.bind fun endPc => settles_pure _

theorem settles_upvalue : upvalue.Settles 1 :=
  (settles_flag.bind fun _ => settles_byte.weak.bind fun _ => settles_pure _).named _

theorem settles_upvalueWithKind : upvalueWithKind.Settles 1 := by
  apply Settles.named
  refine settles_flag.bind fun onStack => settles_byte.weak.bind fun id => ?_
  exact settles_byte.weak.bind fun kind => settles_pure _

theorem settles_plainTail {string : Decoder Bytes} {int : Decoder Int}
    (hstring : string.Settles 1) (hint : int.Settles 1) : (plainTail string int).Settles 1 := by
  have hline : (plainLine int).Settles 1 := hint.bind fun _ => settles_pure _
  refine (settles_counted _ hint hline).bind fun sourceLines => ?_
  have hlocals := settles_counted "count locals" hint (settles_localVariable hstring hint)
  refine hlocals.weak.bind fun locals => ?_
  have hnames := settles_counted "count upval names" hint hstring
  exact hnames.weak.bind fun names => settles_pure _

/-- A tagged constant settles if every payload of its table does. -/
theorem settles_taggedConstant (dialect : Dialect) {payload? : Nat → Option (Decoder Constant)}
    (hpayload : ∀ tag payload, payload? tag = some payload → payload.Settles 0) :
    (taggedConstant dialect payload?).Settles 1 := by
  refine settles_position.bind_next fun offset => settles_nextByte.bind fun tag => ?_
  split
  next payload hsome => exact hpayload _ _ hsome
  next => exact settles_failAt _ _ _

theorem settles_booleanConstant : booleanConstant.Settles 0 :=
  settles_flag.weak.bind fun _ => settles_pure _

theorem settles_stringConstant {string : Decoder Bytes} (hstring : string.Settles 1) :
    (stringConstant string).Settles 0 :=
  hstring.weak.bind fun _ => settles_pure _

theorem settles_payload51 (tag : Nat) (payload : Decoder Constant)
    (hsome : payload51 h tag = some payload) : payload.Settles 0 := by
  unfold payload51 at hsome
  split at hsome <;> simp only [Option.some.injEq, reduceCtorEq] at hsome <;> subst hsome
  · exact settles_pure _
  · exact settles_booleanConstant
  · exact (settles_number h).weak.bind fun _ => settles_pure _
  · exact settles_stringConstant (settles_terminatedString h)

theorem settles_payload53 (tag : Nat) (payload : Decoder Constant)
    (hsome : payload53 h tag = some payload) : payload.Settles 0 := by
  unfold payload53 at hsome
  split at hsome <;> simp only [Option.some.injEq, reduceCtorEq] at hsome <;> subst hsome
  · exact settles_pure _
  · exact settles_booleanConstant
  · exact (settles_floatConstant h).weak
  · exact (settles_integerConstant h).weak
  · exact settles_stringConstant (settles_escapedString h)
  · exact settles_stringConstant (settles_escapedString h)

theorem settles_payload54 (tag : Nat) (payload : Decoder Constant)
    (hsome : payload54 h tag = some payload) : payload.Settles 0 := by
  unfold payload54 at hsome
  split at hsome <;> simp only [Option.some.injEq, reduceCtorEq] at hsome <;> subst hsome
  · exact settles_pure _
  · exact settles_pure _
  · exact settles_pure _
  · exact (settles_integerConstant h).weak
  · exact (settles_floatConstant h).weak
  · exact settles_stringConstant settles_groupedString
  · exact settles_stringConstant settles_groupedString

/-- What a grammar needs for its functions to settle. -/
structure Grammar.Settles (g : Grammar) : Prop where
  count : g.count.Settles 1
  head : g.head.Settles 1
  instruction : g.instruction.Settles 1
  constant : g.constant.Settles 1
  upvalues : g.upvalues.Settles 0
  tail : g.tail.Settles 0

theorem Grammar.Settles.chunk {g : Grammar} (hg : g.Settles) (maxDepth : Int) (levels : Nat) :
    (g.chunk maxDepth levels).Settles 1 := by
  induction levels with
  | zero => exact settles_fail _ _
  | succ levels ih =>
      apply Decoder.Settles.named
      refine hg.head.bind fun head => (settles_emit _).bind fun _ => ?_
      have hinstructions := settles_counted "count instruction" hg.count hg.instruction
      refine hinstructions.weak.bind fun instructions => ?_
      have hconstants := settles_countedLabelled "count constants" "constant" hg.count hg.constant
      refine hconstants.weak.bind fun constants => hg.upvalues.bind fun early => ?_
      have hchildren := settles_countedLabelled "count prototypes" "prototype" hg.count ih
      refine hchildren.weak.bind fun children => ?_
      exact hg.tail.bind fun tail => settles_pure _

theorem settles_head51 : (head51 h).Settles 1 := by
  refine (settles_terminatedString h).bind fun name => ?_
  refine (settles_int h).weak.bind fun first => ?_
  refine (settles_int h).weak.bind fun last => ?_
  have hbyte := settles_byte.weak
  exact hbyte.bind fun _ => hbyte.bind fun _ => hbyte.bind fun _ => hbyte.bind fun _ =>
    settles_pure _

theorem settles_head52 : (head52 h).Settles 1 := by
  refine (settles_int h).bind fun first => (settles_int h).weak.bind fun last => ?_
  have hbyte := settles_byte.weak
  exact hbyte.bind fun _ => hbyte.bind fun _ => hbyte.bind fun _ => settles_pure _

theorem settles_namedHead {string : Decoder Bytes} {int : Decoder Int}
    (hstring : string.Settles 1) (hint : int.Settles 1) : (namedHead string int).Settles 1 := by
  refine hstring.bind fun name => hint.weak.bind fun first => ?_
  refine hint.weak.bind fun last => ?_
  have hbyte := settles_byte.weak
  exact hbyte.bind fun _ => hbyte.bind fun _ => hbyte.bind fun _ => settles_pure _

theorem settles_tail52 : (tail52 h).Settles 0 := by
  have hupvalues := settles_counted "count upvalues" (settles_int h) settles_upvalue
  refine hupvalues.weak.bind fun upvalues => ?_
  refine (settles_terminatedString h).weak.bind fun name => ?_
  have htail := settles_plainTail (settles_terminatedString h) (settles_int h)
  exact htail.weak.bind fun tail => settles_pure _

theorem settles_tail54 : tail54.Settles 0 := by
  have hdelta : lineDelta.Settles 1 := settles_nextByte.bind fun _ => settles_pure _
  have hline : anchoredLine.Settles 1 :=
    settles_groupedInt.bind fun _ => settles_groupedInt.weak.bind fun _ => settles_pure _
  have hdeltas := settles_counted "count line info" settles_groupedInt hdelta
  refine hdeltas.weak.bind fun lineInfo => ?_
  have hlines := settles_counted "count source lines" settles_groupedInt hline
  refine hlines.weak.bind fun sourceLines => ?_
  have hlocals := settles_counted "count locals" settles_groupedInt
    (settles_localVariable settles_groupedString settles_groupedInt)
  refine hlocals.weak.bind fun locals => ?_
  have hnames := settles_counted "count upval names" settles_groupedInt settles_groupedString
  exact hnames.weak.bind fun names => settles_pure _

theorem grammar51_settles : (grammar51 h).Settles where
  count := settles_int h
  head := settles_head51 h
  instruction := settles_instruction h
  constant := settles_taggedConstant _ (settles_payload51 h)
  upvalues := settles_pure []
  tail := (settles_plainTail (settles_terminatedString h) (settles_int h)).weak

theorem grammar52_settles : (grammar52 h).Settles where
  count := settles_int h
  head := settles_head52 h
  instruction := settles_instruction h
  constant := settles_taggedConstant _ (settles_payload51 h)
  upvalues := settles_pure []
  tail := settles_tail52 h

theorem grammar53_settles : (grammar53 h).Settles where
  count := settles_int h
  head := settles_namedHead (settles_escapedString h) (settles_int h)
  instruction := settles_instruction h
  constant := settles_taggedConstant _ (settles_payload53 h)
  upvalues := (settles_counted _ (settles_int h) settles_upvalue).weak
  tail := (settles_plainTail (settles_escapedString h) (settles_int h)).weak

theorem grammar54_settles : (grammar54 h).Settles where
  count := settles_groupedInt
  head := (settles_namedHead settles_groupedString settles_groupedInt).named _
  instruction := settles_instruction h
  constant := settles_taggedConstant _ (settles_payload54 h)
  upvalues := (settles_counted _ settles_groupedInt settles_upvalueWithKind).weak
  tail := settles_tail54

end Standard

namespace Jit

variable (h : Header)

theorem settles_word : word.Settles 1 :=
  settles_varint.bind fun _ => settles_varint.weak.bind fun _ => settles_pure _

theorem settles_double : double.Settles 1 :=
  settles_word.bind fun _ => settles_pure _

theorem settles_taggedString (firstTag tag : Nat) : (taggedString firstTag tag).Settles 0 :=
  ((settles_take_toNat _).weak.bind fun _ => settles_pure _).named _

theorem settles_tableSlot : tableSlot.Settles 1 := by
  refine settles_varint.bind fun tag => ?_
  split
  · exact settles_pure _
  · exact settles_pure _
  · exact settles_pure _
  · exact settles_varint.weak.bind fun _ => settles_pure _
  · exact settles_double.weak.bind fun _ => settles_pure _
  · exact settles_taggedString _ _

theorem settles_tableEntry : tableEntry.Settles 1 :=
  settles_tableSlot.bind fun _ => settles_tableSlot.weak.bind fun _ => settles_pure _

theorem settles_table : table.Settles 1 := by
  apply Settles.named
  refine settles_varint.bind fun arrayCount => settles_varint.weak.bind fun hashCount => ?_
  refine ((settles_items _ settles_tableSlot).weak.named _).bind fun slots => ?_
  exact ((settles_items _ settles_tableEntry).weak.named _).bind fun hash => settles_pure _

theorem settles_writtenConstant : writtenConstant.Settles 1 := by
  refine settles_varint.bind fun tag => ?_
  split
  · exact settles_pure _
  · exact settles_table.weak.bind fun _ => settles_pure _
  · exact settles_word.weak.bind fun _ => settles_pure _
  · exact settles_word.weak.bind fun _ => settles_pure _
  · exact settles_double.weak.bind fun _ => settles_double.weak.bind fun _ => settles_pure _
  · exact (settles_taggedString _ _).bind fun _ => settles_pure _

theorem settles_constant (progress : Progress) : (constant progress).Settles 1 := by
  refine settles_position.bind_next fun offset => settles_writtenConstant.bind fun written => ?_
  split
  · exact settles_pure _
  · exact settles_failAt _ _ _

theorem settles_number : number.Settles 1 := by
  refine foresees_peekByte.bind (fun selector => ?_) (Nat.le_refl 1)
  refine settles_numericHead.bind fun low => ?_
  split
  · exact settles_varint.weak.bind fun _ => settles_pure _
  · exact settles_pure _

theorem settles_upvalue : (upvalue h).Settles 1 :=
  (settles_unsigned _ _).bind fun _ => settles_pure _

theorem settles_localName (code : UInt8) : (localName code).Settles 0 := by
  unfold localName
  split
  · exact settles_pure _
  · exact (settles_takeUntil 0).weak.bind fun rest => settles_pure _

theorem settles_localStep (state : Nat × List Local) : (localStep state).Settles 1 := by
  refine settles_nextByte.bind fun code => ?_
  split
  · exact settles_pure _
  · refine (settles_localName code).bind fun name => ?_
    exact settles_varint.weak.bind fun _ => settles_varint.weak.bind fun _ => settles_pure _

theorem settles_debugInfo (instructionCount upvalueCount lineCount : Nat) :
    (debugInfo h instructionCount upvalueCount lineCount).Settles 0 := by
  have hline : (lineEntry h lineCount).Settles 1 :=
    (settles_unsigned _ _).bind fun _ => settles_pure _
  refine ((settles_items _ hline).weak.named _).bind fun lineInfo => ?_
  have hnames := settles_collect (fun _ => settles_takeUntil 0) upvalueCount 0
  refine (hnames.weak.named _).bind fun names => ?_
  exact ((settles_iterate settles_localStep _).weak.named _).bind fun locals => settles_pure _

theorem settles_debugBlock (size instructionCount upvalueCount lineCount : Nat) :
    (debugBlock h size instructionCount upvalueCount lineCount).Settles 0 := by
  unfold debugBlock
  split
  · exact settles_pure _
  · apply Settles.named
    have hblock := (foresees_block
      (settles_debugInfo h instructionCount upvalueCount lineCount) size).bind
      (fun read => (settles_skip size).bind fun _ => settles_pure read.1) (Nat.le_refl _)
    rw [block, bind_assoc] at hblock
    exact hblock.weak

theorem settles_debugHead : (debugHead h).Settles 0 := by
  unfold debugHead
  split
  · exact settles_pure _
  · refine settles_varint.weak.bind fun size => ?_
    split
    · exact settles_pure _
    · exact settles_varint.weak.bind fun _ => settles_varint.weak.bind fun _ => settles_pure _

theorem settles_recordHead : (recordHead h).Settles 1 := by
  have hbyte := settles_nextByte.weak
  have hvarint := settles_varint.weak
  refine settles_nextByte.bind fun flags => hbyte.bind fun numParams => ?_
  refine hbyte.bind fun frameSize => ?_
  refine hbyte.bind fun numUpvalues => hvarint.bind fun constantCount => ?_
  refine hvarint.bind fun numberCount => hvarint.bind fun instructionCount => ?_
  refine (settles_debugHead h).bind fun sizes => (settles_emit _).bind fun _ => ?_
  have hinstruction : (instruction h).Settles 1 :=
    (settles_unsigned _ _).bind fun _ => settles_pure _
  refine ((settles_items _ hinstruction).weak.named _).bind fun instructions => ?_
  exact ((settles_items _ (settles_upvalue h)).weak.named _).bind fun upvalues => settles_pure _

theorem settles_constants (count : Nat) (stack : List Completed) :
    (constants count stack).Settles count :=
  (settles_checkedFold (fun index progress =>
    (settles_constant progress).within (.item "constant" index)) count _).named _

theorem settles_fields (maxDepth : Int) (stack : List Completed) :
    (fields h maxDepth stack).Settles 1 := by
  refine (settles_recordHead h).bind fun head => ?_
  refine (settles_constants _ stack).weak.bind fun progress => ?_
  refine ((settles_labelledItems _ _ settles_number).weak.named _).bind fun numConstants => ?_
  dsimp only
  split
  · rw [fail_bind]
    exact settles_fail _ _
  · exact (settles_debugBlock h _ _ _ _).bind fun _ => settles_pure _

theorem settles_record (maxDepth : Int) (stack : List Completed) :
    (record h maxDepth stack).Settles 1 := by
  refine settles_position.bind_next fun offset => settles_varint.bind fun size => ?_
  split
  · exact settles_pure _
  · refine settles_position.bind fun start => ?_
    -- The fields are read in the window of the record, and then the record is passed.
    have hpass : ∀ read : (Completed × List Completed) × Int, (do
        if read.2 ≠ start + size then failAt offset (.recordSize size (read.2 - start))
        skip size
        pure (some (read.1.1 :: read.1.2)) : Decoder (Option (List Completed))).Settles size := by
      intro read
      dsimp only
      split
      · rw [failAt_bind]
        exact settles_failAt _ _ _
      · exact (settles_skip size).bind fun _ => settles_pure _
    have hblock :=
      (foresees_block (settles_fields h maxDepth stack) size).bind hpass (Nat.le_refl _)
    rw [block, bind_assoc] at hblock
    exact hblock.weak

theorem settles_recordStep (maxDepth : Int) (state : Nat × List Completed) :
    (recordStep h maxDepth state).Settles 1 := by
  refine ((settles_record h maxDepth state.2).within _).bind fun next => ?_
  split
  · exact settles_pure _
  · exact settles_pure _

theorem settles_chunkName : (chunkName h).Settles 0 := by
  unfold chunkName
  split
  · exact settles_pure _
  · exact (settles_varint.weak.bind fun size => (settles_take size).weak).named _

theorem settles_main (maxDepth : Int) : (main h maxDepth).Settles 0 := by
  apply Settles.named
  refine (settles_chunkName h).bind fun name => ?_
  refine (settles_iterate (settles_recordStep h maxDepth) _).weak.bind fun stack => ?_
  have hsole : (soleCompleted stack).Settles 0 := by
    unfold soleCompleted
    split
    · exact settles_pure _
    · exact settles_fail _ _
  exact hsole.bind fun tree => settles_pure _

end Jit

namespace Luau

theorem settles_stringTable : stringTable.Settles 1 := by
  apply Settles.named
  have hstring : tableString.Settles 1 := settles_varint.bind fun size => (settles_take size).weak
  refine settles_varint.bind fun count => ?_
  exact (settles_labelledItems _ _ hstring).weak.bind fun strings => settles_pure _

theorem settles_stringRef (strings : Array Bytes) : (stringRef strings).Settles 1 := by
  refine settles_position.bind_next fun offset => settles_varint.bind fun index => ?_
  split
  · exact settles_pure _
  · split
    · exact settles_pure _
    · exact settles_failAt _ _ _

theorem settles_tableKey (constants : Array Constant) : (tableKey constants).Settles 1 := by
  refine settles_position.bind_next fun offset => settles_varint.bind fun key => ?_
  split
  · exact settles_pure _
  · exact settles_failAt _ _ _

theorem settles_payload? (strings : Array Bytes) (constants : Array Constant) (tag : Nat)
    (payload : Decoder Constant) (hsome : payload? strings constants tag = some payload) :
    payload.Settles 0 := by
  unfold payload? at hsome
  split at hsome <;> simp only [Option.some.injEq, reduceCtorEq] at hsome <;> subst hsome
  · exact settles_pure _
  · exact settles_nextByte.weak.bind fun _ => settles_pure _
  · exact (settles_float _ _).weak.bind fun _ => settles_pure _
  · exact (settles_stringRef strings).weak.bind fun _ => settles_pure _
  · exact (settles_unsigned _ _).weak.bind fun _ => settles_pure _
  · refine settles_varint.weak.bind fun count => ?_
    exact (settles_collect (fun _ => settles_tableKey constants) count 0).weak.bind
      fun _ => settles_pure _
  · exact settles_varint.weak.bind fun _ => settles_pure _
  · exact (settles_collect (fun _ => settles_single) 4 0).weak.bind fun _ => settles_pure _

theorem settles_constant (strings : Array Bytes) (constants : Array Constant) :
    (constant strings constants).Settles 1 := by
  refine settles_position.bind_next fun offset => settles_nextByte.bind fun tag => ?_
  split
  next payload hsome => exact settles_payload? _ _ _ _ hsome
  next => exact settles_failAt _ _ _

theorem settles_constants (strings : Array Bytes) : (constants strings).Settles 1 := by
  apply Settles.named
  have hnext : ∀ index values, (nextConstant strings index values).Settles 1 := fun index values =>
    ((settles_constant strings values).bind fun _ => settles_pure _).within _
  refine settles_varint.bind fun count => ?_
  have hvalues := (settles_checkedFold hnext count #[]).weak.bind fun values =>
    settles_pure values.toList
  rw [bind_assoc] at hvalues
  exact hvalues

theorem settles_takeChildren (table : Table) : (takeChildren table).Settles 1 := by
  apply Settles.named
  have hchild : ∀ (_ : Nat) state, (takeChild state).Settles 1 := by
    intro _ state
    refine settles_position.bind_next fun offset => settles_varint.bind fun number => ?_
    split
    · exact settles_pure _
    · exact settles_failAt _ _ _
  exact settles_varint.bind fun count => (settles_checkedFold hchild count _).weak

theorem settles_linkConstants (numbers : List Nat) (slot : Nat) (constants : List Constant) :
    (linkConstants numbers slot constants).Settles 0 := by
  induction constants generalizing slot with
  | nil => exact settles_pure _
  | cons constant rest ih =>
      have hlink : (linkConstant numbers slot constant).Settles 0 := by
        unfold linkConstant
        split
        · split
          · exact settles_pure _
          · exact settles_fail _ _
        · exact settles_pure _
      exact hlink.bind fun _ => (ih _).bind fun _ => settles_pure _

theorem settles_byte : byte.Settles 1 :=
  settles_nextByte.bind fun _ => settles_pure _

theorem settles_count : count.Settles 1 :=
  settles_varint.bind fun _ => settles_pure _

theorem settles_lineTable (instructionCount : Nat) : (lineTable instructionCount).Settles 1 := by
  apply Settles.named
  refine settles_nextByte.bind fun gap => ?_
  refine (settles_items _ settles_byte).weak.bind fun lineInfo => ?_
  have hinterval : ∀ index state, (nextInterval gap.toNat index state).Settles 1 :=
    fun _ _ => (settles_signed _ _).bind fun _ => settles_pure _
  exact (settles_fold hinterval _ 0 _).weak.bind fun lines => settles_pure _

theorem settles_localVariable (strings : Array Bytes) : (localVariable strings).Settles 1 := by
  refine (settles_stringRef strings).bind fun name => settles_count.weak.bind fun startPc => ?_
  exact settles_count.weak.bind fun endPc => settles_byte.weak.bind fun _ => settles_pure _

theorem settles_debugTable (strings : Array Bytes) : (debugTable strings).Settles 1 := by
  apply Settles.named
  refine (settles_counted _ settles_count (settles_localVariable strings)).bind fun locals => ?_
  exact (settles_counted _ settles_count (settles_stringRef strings)).weak.bind fun _ =>
    settles_pure _

theorem settles_optionalPart {α : Type} (absent : α) {part : Decoder α} {least : Nat}
    (hpart : part.Settles least) : (optionalPart absent part).Settles 1 := by
  refine settles_nextByte.bind fun present => ?_
  split
  · exact settles_pure _
  · exact hpart.weak

theorem settles_instruction : instruction.Settles 1 :=
  (settles_unsigned _ _).bind fun _ => settles_pure _

theorem settles_typeBlock (h : Header) : (typeBlock h).Settles 0 := by
  unfold typeBlock
  split
  · exact settles_pure _
  · refine settles_byte.weak.bind fun flags => ?_
    have hinfo := settles_varint.bind fun size => (settles_take size).weak
    exact (hinfo.weak.named _).bind fun info => settles_pure _

theorem settles_record (h : Header) (strings : Array Bytes) (maxDepth : Int) (table : Table) :
    (record h strings maxDepth table).Settles 1 := by
  have hbyte := settles_byte.weak
  refine settles_byte.bind fun maxStack => hbyte.bind fun numParams => ?_
  refine hbyte.bind fun numUpvalues => ?_
  refine settles_nextByte.weak.bind fun variadic => (settles_typeBlock h).bind fun types => ?_
  refine (settles_counted _ settles_count settles_instruction).weak.bind fun instructions => ?_
  refine (settles_constants strings).weak.bind fun raw => ?_
  refine (settles_takeChildren table).weak.bind fun taken => ?_
  refine (settles_linkConstants _ _ _).bind fun linked => ?_
  dsimp only
  split
  · rw [fail_bind]
    exact settles_fail _ _
  · refine settles_count.weak.bind fun lineDefined => ?_
    refine (settles_stringRef strings).weak.bind fun name => ?_
    refine (settles_emit _).bind fun _ => ?_
    refine (settles_optionalPart _ (settles_lineTable _)).weak.bind fun lines => ?_
    exact (settles_optionalPart _ (settles_debugTable strings)).weak.bind fun _ => settles_pure _

theorem settles_userdataStep (strings : Array Bytes) (state : Unit) :
    (userdataStep strings state).Settles 1 := by
  refine settles_nextByte.bind fun index => ?_
  split
  · exact settles_pure _
  · exact (settles_stringRef strings).weak.bind fun _ => settles_pure _

theorem settles_userdataTypes (h : Header) (strings : Array Bytes) :
    (userdataTypes h strings).Settles 0 := by
  unfold userdataTypes
  split
  · exact (settles_iterate (settles_userdataStep strings) ()).weak.named _
  · exact settles_pure _

theorem settles_main (h : Header) (maxDepth : Int) : (main h maxDepth).Settles 0 := by
  apply Settles.named
  refine settles_stringTable.weak.bind fun strings => (settles_emit _).bind fun _ => ?_
  refine (settles_userdataTypes h strings).bind fun _ => ?_
  refine settles_varint.weak.bind fun recordCount => ?_
  refine (settles_emit _).bind fun _ => ?_
  have hrecord : ∀ index table, (nextRecord h strings maxDepth index table).Settles 1 :=
    fun _ table => ((settles_record h strings maxDepth table).bind fun _ => settles_pure _).within _
  have hmain : ∀ table, (mainEntry table).Settles 0 := by
    intro table
    refine settles_position.bind fun offset => settles_varint.weak.bind fun index => ?_
    split
    · exact settles_pure _
    · exact settles_failAt _ _ _
  have htable := (settles_checkedFold hrecord recordCount #[]).weak.bind hmain
  rw [bind_assoc] at htable
  exact htable

end Luau


end LuaDump
