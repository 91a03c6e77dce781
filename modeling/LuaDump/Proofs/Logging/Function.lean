import LuaDump.Decode
import LuaDump.Proofs.Logging

/-! # What functions report

The parts of a function are read in silence. A function reports one line about itself: in a
standard dump before its children, in a LuaJIT dump before its constants, and in a Luau dump
behind its constants. Whenever the line was reported, the function that comes of it has the
name, the lines and the sizes that the line tells.
-/

namespace LuaDump

open Decoder

namespace Standard

variable {h : Header}

section Fields

theorem silent_int : (int h).Silent :=
  .named (silent_unsigned _ _).map _

theorem silent_sizeT : (sizeT h).Silent :=
  .named (silent_unsigned _ _).map _

theorem silent_instruction : (instruction h).Silent :=
  (silent_unsigned _ _).map

theorem silent_byte : byte.Silent :=
  silent_nextByte.map

theorem silent_flag : flag.Silent :=
  silent_nextByte.map

theorem silent_terminatedString : (terminatedString h).Silent :=
  .named (silent_sizeT.bind fun _ => (silent_take _).map) _

theorem silent_sizedBytes (size : Int) : (sizedBytes size).Silent :=
  .ite (.pure _) (silent_take _)

theorem silent_escapedString : (escapedString h).Silent := by
  refine .named (silent_byte.bind fun short => ?_) _
  split
  · exact silent_sizeT.bind silent_sizedBytes
  · exact Silent.bind (.pure _) silent_sizedBytes

theorem silent_groupedString : groupedString.Silent :=
  .named ((silent_highGroups _).bind fun size => silent_sizedBytes size) _

theorem silent_groupedInt : groupedInt.Silent :=
  (silent_highGroups _).map

theorem silent_localVariable {string : Decoder Bytes} {int : Decoder Int}
    (hstring : string.Silent) (hint : int.Silent) : (localVariable string int).Silent :=
  .named (hstring.bind fun _ => hint.bind fun _ => hint.map) _

theorem silent_upvalue : upvalue.Silent :=
  .named (silent_flag.bind fun _ => silent_byte.map) _

theorem silent_upvalueWithKind : upvalueWithKind.Silent :=
  .named (silent_flag.bind fun _ => silent_byte.bind fun _ => silent_byte.map) _

end Fields

section Constants

theorem silent_number : (number h).Silent :=
  .named (.ite (silent_signed _ _).map (silent_float _ _).map) _

theorem silent_integerConstant : (integerConstant h).Silent :=
  .named (silent_signed _ _).map _

theorem silent_floatConstant : (floatConstant h).Silent :=
  .named (silent_float _ _).map _

theorem silent_taggedConstant (dialect : Dialect) {payload? : Nat → Option (Decoder Constant)}
    (hpayload : ∀ tag, ∀ payload ∈ payload? tag, payload.Silent) :
    (taggedConstant dialect payload?).Silent := by
  refine silent_position.bind fun offset => silent_nextByte.bind fun tag => ?_
  split
  next payload hsome => exact hpayload _ _ hsome
  next => exact .failAt _ _

theorem silent_payload51 (tag : Nat) : ∀ payload ∈ payload51 h tag, payload.Silent := by
  unfold payload51
  split <;> rintro _ ⟨⟩
  · exact .pure _
  · exact silent_flag.map
  · exact silent_number.map
  · exact silent_terminatedString.map

theorem silent_payload53 (tag : Nat) : ∀ payload ∈ payload53 h tag, payload.Silent := by
  unfold payload53
  split <;> rintro _ ⟨⟩
  · exact .pure _
  · exact silent_flag.map
  · exact silent_floatConstant
  · exact silent_integerConstant
  · exact silent_escapedString.map
  · exact silent_escapedString.map

theorem silent_payload54 (tag : Nat) : ∀ payload ∈ payload54 h tag, payload.Silent := by
  unfold payload54
  split <;> rintro _ ⟨⟩
  · exact .pure _
  · exact .pure _
  · exact .pure _
  · exact silent_integerConstant
  · exact silent_floatConstant
  · exact silent_groupedString.map
  · exact silent_groupedString.map

end Constants

section Functions

theorem silent_plainTail {string : Decoder Bytes} {int : Decoder Int} (hstring : string.Silent)
    (hint : int.Silent) : (plainTail string int).Silent := by
  refine (silent_counted _ hint hint.map).bind fun _ => ?_
  refine (silent_counted _ hint (silent_localVariable hstring hint)).bind fun _ => ?_
  exact (silent_counted _ hint hstring).map

theorem silent_tail54 : tail54.Silent := by
  have hline : anchoredLine.Silent := silent_groupedInt.bind fun _ => silent_groupedInt.map
  have hlocal := silent_localVariable silent_groupedString silent_groupedInt
  refine (silent_counted _ silent_groupedInt silent_nextByte.map).bind fun _ => ?_
  refine (silent_counted _ silent_groupedInt hline).bind fun _ => ?_
  refine (silent_counted _ silent_groupedInt hlocal).bind fun _ => ?_
  exact (silent_counted _ silent_groupedInt silent_groupedString).map

theorem silent_namedHead {string : Decoder Bytes} {int : Decoder Int} (hstring : string.Silent)
    (hint : int.Silent) : (namedHead string int).Silent := by
  refine hstring.bind fun _ => hint.bind fun _ => hint.bind fun _ => ?_
  exact silent_byte.bind fun _ => silent_byte.bind fun _ => silent_byte.map

/-- The parts of a function are read in silence, and the trace shows a function by the name
that the function gets, or by none. -/
structure Grammar.Reports (g : Grammar) (shown : Bytes → Option Bytes) : Prop where
  count : g.count.Silent
  head : g.head.Silent
  instruction : g.instruction.Silent
  constant : g.constant.Silent
  upvalues : g.upvalues.Silent
  tail : g.tail.Silent
  name : g.tail.Yields fun tail => ∀ head, g.tracedName head = shown (tail.name.getD head.name)

theorem plainTail_name (string : Decoder Bytes) (int : Decoder Int) :
    (plainTail string int).Yields fun tail => tail.name = none := by
  refine (Yields.any _).bind fun _ _ => (Yields.any _).bind fun _ _ => ?_
  exact (Yields.any _).bind fun _ _ => .pure rfl

theorem tail54_name : tail54.Yields fun tail => tail.name = none := by
  refine (Yields.any _).bind fun _ _ => (Yields.any _).bind fun _ _ => ?_
  exact (Yields.any _).bind fun _ _ => (Yields.any _).bind fun _ _ => .pure rfl

theorem grammar51_reports : (grammar51 h).Reports some where
  count := silent_int
  head := by
    refine silent_terminatedString.bind fun _ => silent_int.bind fun _ => ?_
    refine silent_int.bind fun _ => ?_
    refine silent_byte.bind fun _ => silent_byte.bind fun _ => silent_byte.bind fun _ => ?_
    exact silent_byte.map
  instruction := silent_instruction
  constant := silent_taggedConstant _ silent_payload51
  upvalues := .pure _
  tail := silent_plainTail silent_terminatedString silent_int
  name := fun _ _ _ _ _ hdone head => by rw [plainTail_name _ _ hdone]; rfl

theorem grammar52_reports : (grammar52 h).Reports fun _ => none where
  count := silent_int
  head := by
    refine silent_int.bind fun _ => silent_int.bind fun _ => ?_
    exact silent_byte.bind fun _ => silent_byte.bind fun _ => silent_byte.map
  instruction := silent_instruction
  constant := silent_taggedConstant _ silent_payload51
  upvalues := .pure _
  tail := by
    refine (silent_counted _ silent_int silent_upvalue).bind fun _ => ?_
    exact silent_terminatedString.bind fun _ =>
      (silent_plainTail silent_terminatedString silent_int).map
  name := fun _ _ _ _ _ _ _ => rfl

theorem grammar53_reports : (grammar53 h).Reports some where
  count := silent_int
  head := silent_namedHead silent_escapedString silent_int
  instruction := silent_instruction
  constant := silent_taggedConstant _ silent_payload53
  upvalues := silent_counted _ silent_int silent_upvalue
  tail := silent_plainTail silent_escapedString silent_int
  name := fun _ _ _ _ _ hdone head => by rw [plainTail_name _ _ hdone]; rfl

theorem grammar54_reports : (grammar54 h).Reports some where
  count := silent_groupedInt
  head := .named (silent_namedHead silent_groupedString silent_groupedInt) _
  instruction := silent_instruction
  constant := silent_taggedConstant _ silent_payload54
  upvalues := silent_counted _ silent_groupedInt silent_upvalueWithKind
  tail := silent_tail54
  name := fun _ _ _ _ _ hdone head => by rw [tail54_name hdone]; rfl

end Functions

end Standard

namespace Jit

variable {h : Header}

section Fields

theorem silent_word : word.Silent :=
  silent_varint.bind fun _ => silent_varint.map

theorem silent_double : double.Silent :=
  silent_word.map

theorem silent_taggedString (firstTag tag : Nat) : (taggedString firstTag tag).Silent :=
  .named (silent_take _).map _

theorem silent_tableSlot : tableSlot.Silent := by
  refine silent_varint.bind fun tag => ?_
  split
  · exact .pure _
  · exact .pure _
  · exact .pure _
  · exact silent_varint.map
  · exact silent_double.map
  · exact silent_taggedString _ _

theorem silent_table : table.Silent := by
  have hentry : tableEntry.Silent := silent_tableSlot.bind fun _ => silent_tableSlot.map
  refine .named (silent_varint.bind fun _ => silent_varint.bind fun _ => ?_) _
  refine .bind (.named (silent_items _ silent_tableSlot) _) fun _ => ?_
  exact .map (.named (silent_items _ hentry) _)

theorem silent_writtenConstant : writtenConstant.Silent := by
  refine silent_varint.bind fun tag => ?_
  split
  · exact .pure _
  · exact silent_table.map
  · exact silent_word.map
  · exact silent_word.map
  · exact silent_double.bind fun _ => silent_double.map
  · exact (silent_taggedString _ _).map

theorem silent_constant (progress : Progress) : (constant progress).Silent := by
  refine silent_position.bind fun offset => silent_writtenConstant.bind fun written => ?_
  split
  · exact .pure _
  · exact .failAt _ _

theorem silent_constants (count : Nat) (stack : List Completed) :
    (constants count stack).Silent := by
  refine .named ((silent_checkCount _).bind fun _ => ?_) _
  exact .fold (fun index progress => (silent_constant progress).within _) _ _ _

theorem silent_number : number.Silent := by
  refine silent_peekByte.bind fun selector => silent_numericHead.bind fun low => ?_
  exact .ite silent_varint.map (.pure _)

theorem silent_localStep (state : Nat × List Local) : (localStep state).Silent := by
  have hname : ∀ code, (localName code).Silent := by
    intro code
    unfold localName
    split
    · exact .pure _
    · exact (silent_takeUntil 0).map
  refine silent_nextByte.bind fun code => .ite (.pure _) ?_
  exact (hname code).bind fun _ => silent_varint.bind fun _ => silent_varint.map

theorem silent_debugInfo (instructionCount upvalueCount lineCount : Nat) :
    (debugInfo h instructionCount upvalueCount lineCount).Silent := by
  refine .bind (.named (silent_items _ (silent_unsigned _ _).map) _) fun _ => ?_
  refine .bind (.named (.collect (fun _ => silent_takeUntil 0) _ _) _) fun _ => ?_
  exact .map (.named (.iterate silent_localStep _) _)

theorem silent_debugBlock (size instructionCount upvalueCount lineCount : Nat) :
    (debugBlock h size instructionCount upvalueCount lineCount).Silent := by
  refine .ite (.pure _) (.named ((silent_limit _).bind fun block => ?_) _)
  exact .bind (.inWindow block (silent_debugInfo _ _ _)) fun _ => (silent_skip _).map

theorem silent_debugHead : (debugHead h).Silent := by
  refine .ite (.pure _) (silent_varint.bind fun size => .ite (.pure _) ?_)
  exact silent_varint.bind fun _ => silent_varint.map

theorem silent_chunkName : (chunkName h).Silent :=
  .ite (.pure _) (.named (silent_varint.bind fun size => silent_take size) _)

end Fields

section Records

/-- The line of a function: its first line, how many lines follow, and its sizes. -/
def recordLine (body : Body) : Event :=
  .jitRecord body.lineDefined.toNat (body.lastLineDefined - body.lineDefined).toNat
    body.instructions.length body.constants.length body.numConstants.length

theorem recordHead_logs : (recordHead h).Logs fun head trace =>
    trace = [.jitRecord head.line head.lineCount head.instructions.length head.constantCount
      head.numberCount] := by
  refine .skip silent_nextByte fun flags => .skip silent_nextByte fun numParams => ?_
  refine .skip silent_nextByte fun frameSize => .skip silent_nextByte fun numUpvalues => ?_
  refine .skip silent_varint fun constantCount => .skip silent_varint fun numberCount => ?_
  refine .skip silent_varint fun instructionCount => .skip silent_debugHead fun found => ?_
  refine .emit_bind (.after (.named (silent_items _ (silent_unsigned _ _).map) _)
    (.named (.items_length instructionCount _) _) fun instructions hinstructions => ?_)
  refine .skip (.named (silent_items _ (silent_unsigned _ _).map) _) fun upvalues => .pure ?_
  rw [hinstructions]

/-- Every constant adds one to the list. -/
theorem constants_length (count : Nat) (stack : List Completed) :
    (constants count stack).Yields fun progress => progress.constants.length = count := by
  have hconstant : ∀ (index : Nat) (progress : Progress), progress.constants.length = index →
      (within (.item "constant" index) (constant progress)).Yields fun next =>
        next.constants.length = index + 1 := by
    rintro _ progress rfl
    refine .within ((Yields.any _).bind fun _ _ => (Yields.any _).bind fun written _ => ?_) _
    split
    next next hnext =>
      apply Yields.pure
      cases written with
      | some value =>
          obtain rfl := Option.some.inj hnext
          rfl
      | none =>
          simp only [Progress.extend?, Progress.adopt?] at hnext
          split at hnext
          · exact absurd hnext (by simp)
          · obtain rfl := Option.some.inj hnext
            rfl
    next => exact .failAt _ _
  refine .named ((Yields.any _).bind fun _ _ => ?_) _
  have hfold : (fold (fun index progress => within (.item "constant" index) (constant progress))
      count 0 { stack }).Yields fun progress => progress.constants.length = 0 + count :=
    .fold (fun index (progress : Progress) => progress.constants.length = index) hconstant count rfl
  rwa [Nat.zero_add] at hfold

theorem fields_logs (maxDepth : Int) (stack : List Completed) :
    (fields h maxDepth stack).Logs fun found trace =>
      trace = [recordLine found.1.prototype.body] := by
  refine recordHead_logs.bind fun head first hhead => ?_
  refine .after (silent_constants _ _) (constants_length _ _) fun progress hconstants => ?_
  refine .after (.named (silent_labelledItems _ _ silent_number) _)
    (.named (.labelledItems_length _ _ _) _) fun numbers hnumbers => ?_
  dsimp only
  split
  next =>
    rw [fail_bind]
    exact .fail _
  next =>
    refine .skip (silent_debugBlock _ _ _ _) fun info => .pure ?_
    have hlines :
        ((head.line + head.lineCount : Nat) - head.line : Int).toNat = head.lineCount := by
      omega
    rw [hhead, List.append_nil, ← hconstants, ← hnumbers, recordLine]
    dsimp only [RecordHead.body]
    rw [hlines, Int.toNat_natCast]

/-- A record reports the line of the function that it puts on the stack. -/
theorem record_logs (maxDepth : Int) (stack : List Completed) :
    (record h maxDepth stack).Logs fun found trace =>
      trace = (found.bind List.head?).toList.map fun completed =>
        recordLine completed.prototype.body := by
  refine .skip silent_position fun offset => .skip silent_varint fun size => ?_
  split
  next => exact .pure rfl
  next =>
    refine .skip silent_position fun start => .skip (silent_limit _) fun block => ?_
    refine (fields_logs maxDepth stack).inWindow.bind fun found trace htrace => ?_
    obtain ⟨⟨completed, rest⟩, reached⟩ := found
    dsimp only
    split
    next =>
      rw [failAt_bind]
      exact .failAt _ _
    next => exact .skip (silent_skip _) fun _ => .pure (by simpa using htrace)

end Records

end Jit

namespace Luau

variable {h : Header} {strings : Array Bytes}

section Fields

theorem silent_byte : byte.Silent :=
  silent_nextByte.map

theorem silent_count : count.Silent :=
  silent_varint.map

theorem silent_stringTable : stringTable.Silent := by
  have hstring : tableString.Silent := silent_varint.bind fun size => silent_take size
  exact .named (silent_varint.bind fun count => (silent_labelledItems _ _ hstring).map) _

theorem silent_stringRef : (stringRef strings).Silent := by
  refine silent_position.bind fun offset => silent_varint.bind fun index => .ite (.pure _) ?_
  split
  · exact .pure _
  · exact .failAt _ _

theorem silent_constant (known : Array Constant) : (constant strings known).Silent := by
  have hkey : (tableKey known).Silent := by
    refine silent_position.bind fun offset => silent_varint.bind fun key => ?_
    split
    · exact .pure _
    · exact .failAt _ _
  refine silent_position.bind fun offset => silent_nextByte.bind fun tag => ?_
  split
  next payload hsome =>
    unfold payload? at hsome
    split at hsome <;> cases hsome
    · exact .pure _
    · exact silent_nextByte.map
    · exact (silent_float _ _).map
    · exact silent_stringRef.map
    · exact (silent_unsigned _ _).map
    · exact silent_varint.bind fun count => .map (.collect (fun _ => hkey) _ _)
    · exact silent_varint.map
    · exact .map (.collect (fun _ => silent_single) _ _)
  next => exact .failAt _ _

theorem silent_constants : (constants strings).Silent := by
  refine .named (silent_varint.bind fun count => (silent_checkCount _).bind fun _ => ?_) _
  exact .map (.fold (fun index known => .within (silent_constant known).map _) _ _ _)

theorem silent_takeChildren (table : Table) : (takeChildren table).Silent := by
  refine .named (silent_varint.bind fun count => (silent_checkCount _).bind fun _ => ?_) _
  refine .fold (fun index state => ?_) _ _ _
  refine silent_position.bind fun offset => silent_varint.bind fun number => ?_
  split
  · exact .pure _
  · exact .failAt _ _

theorem silent_linkConstants (numbers : List Nat) (slot : Nat) (raw : List Constant) :
    (linkConstants numbers slot raw).Silent := by
  induction raw generalizing slot with
  | nil => exact .pure _
  | cons constant rest ih =>
      refine .bind ?_ fun _ => (ih (slot + 1)).map
      unfold linkConstant
      split
      · split
        · exact .pure _
        · exact .fail _
      · exact .pure _

theorem silent_lineTable (instructionCount : Nat) : (lineTable instructionCount).Silent := by
  refine .named (silent_nextByte.bind fun gap => (silent_items _ silent_byte).bind fun _ => ?_) _
  exact .map (.fold (fun index state => (silent_signed _ _).map) _ _ _)

theorem silent_debugTable : (debugTable strings).Silent := by
  have hlocal : (localVariable strings).Silent :=
    silent_stringRef.bind fun _ => silent_count.bind fun _ => silent_count.bind fun _ =>
      silent_byte.map
  refine .named ((silent_counted _ silent_count hlocal).bind fun _ => ?_) _
  exact (silent_counted _ silent_count silent_stringRef).map

theorem silent_optionalPart {α : Type} (absent : α) {part : Decoder α} (hpart : part.Silent) :
    (optionalPart absent part).Silent :=
  silent_nextByte.bind fun _ => .ite (.pure _) hpart

theorem silent_typeBlock : (typeBlock h).Silent := by
  refine .ite (.pure _) (silent_byte.bind fun flags => ?_)
  exact .map (.named (silent_varint.bind fun size => silent_take size) _)

theorem silent_userdataTypes : (userdataTypes h strings).Silent := by
  refine .ite (.named (.iterate (fun _ => silent_nextByte.bind fun index => ?_) _) _) (.pure _)
  exact .ite (.pure _) silent_stringRef.map

theorem silent_mainEntry (table : Table) : (mainEntry table).Silent := by
  refine silent_position.bind fun offset => silent_varint.bind fun index => ?_
  split
  · exact .pure _
  · exact .failAt _ _

end Fields

/-- The line of a function: its name and its sizes. -/
def functionLine (function : Prototype) : Event :=
  .luauRecord function.body.name function.body.instructions.length function.body.constants.length
    function.children.length

theorem record_logs (maxDepth : Int) (table : Table) :
    (record h strings maxDepth table).Logs fun found trace =>
      trace = [functionLine found.1.prototype] := by
  refine .skip silent_byte fun maxStack => .skip silent_byte fun numParams => ?_
  refine .skip silent_byte fun numUpvalues => .skip silent_nextByte fun variadic => ?_
  refine .skip silent_typeBlock fun types => ?_
  refine .skip (silent_counted _ silent_count (silent_unsigned _ _).map) fun instructions => ?_
  refine .skip silent_constants fun raw => .skip (silent_takeChildren table) fun taken => ?_
  refine .skip (silent_linkConstants _ _ _) fun linked => ?_
  dsimp only
  split
  next =>
    rw [fail_bind]
    exact .fail _
  next =>
    refine .skip silent_count fun lineDefined => .skip silent_stringRef fun name => .emit_bind ?_
    refine .skip (silent_optionalPart _ (silent_lineTable _)) fun lines => ?_
    refine .skip (silent_optionalPart _ silent_debugTable) fun names => .pure ?_
    simp [functionLine]

end Luau

end LuaDump
