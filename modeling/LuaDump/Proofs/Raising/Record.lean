import LuaDump.Proofs.Everywhere
import LuaDump.Proofs.Raising.Function

/-! # What records and files raise

The failures of LuaJIT and Luau functions are founded. A function is higher than the limit only
behind as many records, so that a limit of the size of the file is never met. What a file raises
comes from its header, from a dialect that is not accepted, or from its main function.
-/

namespace LuaDump

open Decoder

variable {data : Array UInt8} {room : Nat} {dialect : Dialect} {maxDepth : Int}
  {blame : Failure → Prop}

namespace Jit

variable {h : Header}

section Constants

/-- The first five tags have meanings of their own. -/
theorem five_le_of_ne {tag : Nat} (hzero : tag ≠ 0) (hone : tag ≠ 1) (htwo : tag ≠ 2)
    (hthree : tag ≠ 3) (hfour : tag ≠ 4) : 5 ≤ tag := by
  omega

variable (htolerant : Tolerant data blame) (hvarint : varint.Raises data room blame)

include hvarint

theorem raises_word : word.Raises data room blame :=
  hvarint.bind fun _ => hvarint.bind fun _ => .pure _

theorem raises_double : double.Raises data room blame :=
  (raises_word hvarint).bind fun _ => .pure _

omit hvarint

include htolerant

/-- The length of a string is what its tag exceeds the first string tag by. -/
theorem raises_taggedString {firstTag tag : Nat} (htag : firstTag ≤ tag) :
    (taggedString firstTag tag).Raises data room blame :=
  .label htolerant ((raises_take (by omega) htolerant.short).bind fun _ => .pure _) _

include hvarint

theorem raises_tableSlot : tableSlot.Raises data room blame := by
  refine hvarint.bind fun tag => ?_
  split
  · exact .pure _
  · exact .pure _
  · exact .pure _
  · exact hvarint.bind fun _ => .pure _
  · exact (raises_double hvarint).bind fun _ => .pure _
  next hnil hfalse htrue hinteger hfloat =>
    exact raises_taggedString htolerant (five_le_of_ne hnil hfalse htrue hinteger hfloat)

theorem raises_table : table.Raises data room blame := by
  have hslot := raises_tableSlot htolerant hvarint
  have hentry : tableEntry.Raises data room blame :=
    hslot.bind fun _ => hslot.bind fun _ => .pure _
  refine .label htolerant (hvarint.bind fun arrayCount => hvarint.bind fun hashCount => ?_) _
  refine (Raises.label htolerant (raises_items _ htolerant.short hslot) _).bind fun slots => ?_
  exact (Raises.label htolerant (raises_items _ htolerant.short hentry) _).bind fun hash => .pure _

theorem raises_writtenConstant : writtenConstant.Raises data room blame := by
  have hword := raises_word hvarint
  have hdouble := raises_double hvarint
  refine hvarint.bind fun tag => ?_
  split
  · exact .pure _
  · exact (raises_table htolerant hvarint).bind fun _ => .pure _
  · exact hword.bind fun _ => .pure _
  · exact hword.bind fun _ => .pure _
  · exact hdouble.bind fun _ => hdouble.bind fun _ => .pure _
  next hchild htable hsigned hunsigned hcomplex =>
    have htag := five_le_of_ne hchild htable hsigned hunsigned hcomplex
    exact (raises_taggedString htolerant htag).bind fun _ => .pure _

theorem raises_number (hhead : numericHead.Raises data room blame) :
    number.Raises data room blame := by
  refine (raises_peekByte htolerant.short).bind fun selector => hhead.bind fun low => ?_
  split
  · exact hvarint.bind fun _ => .pure _
  · exact .pure _

end Constants

section DebugInfo

theorem raises_debugHead (hvarint : varint.Raises data room blame) :
    (debugHead h).Raises data room blame := by
  unfold debugHead
  split
  · exact .pure _
  · refine hvarint.bind fun size => ?_
    split
    · exact .pure _
    · exact hvarint.bind fun _ => hvarint.bind fun _ => .pure _

variable (htolerant : Tolerant data blame)

include htolerant

theorem raises_localStep (hvarint : varint.Raises data room blame) (state : Nat × List Local) :
    (localStep state).Raises data room blame := by
  refine (raises_nextByte htolerant.short).bind fun code => ?_
  split
  · exact .pure _
  · have hname : (localName code).Raises data room blame := by
      unfold localName
      split
      · exact .pure _
      · exact (raises_takeUntil 0 htolerant.short).bind fun _ => .pure _
    exact hname.bind fun _ => hvarint.bind fun _ => hvarint.bind fun _ => .pure _

theorem raises_lineEntry (lineCount : Nat) : (lineEntry h lineCount).Raises data room blame := by
  have hwidth : Standard.IsWidth integerWidths (lineWidth lineCount) := by
    unfold lineWidth
    split
    · decide
    · split <;> decide
  exact (raises_unsigned hwidth _ htolerant.short).bind fun _ => .pure _

theorem raises_debugInfo (hvarint : varint.Raises data room blame)
    (instructionCount upvalueCount lineCount : Nat) :
    (debugInfo h instructionCount upvalueCount lineCount).Raises data room blame := by
  have hline : (items instructionCount (lineEntry h lineCount)).Raises data room blame :=
    raises_items _ htolerant.short (raises_lineEntry htolerant lineCount)
  have hnames : (collect (fun _ => takeUntil 0) upvalueCount 0).Raises data room blame :=
    raises_collect (fun _ => raises_takeUntil 0 htolerant.short) _ _
  have hlocals := raises_plainIterate settles_localStep (raises_localStep htolerant hvarint) (0, [])
  refine (hline.label htolerant _).bind fun lineInfo => ?_
  refine (hnames.label htolerant _).bind fun upvalueNames => ?_
  exact (hlocals.label htolerant _).bind fun locals => .pure _

theorem raises_debugBlock (hvarint : varint.Raises data room blame)
    (size instructionCount upvalueCount lineCount : Nat) :
    (debugBlock h size instructionCount upvalueCount lineCount).Raises data room blame := by
  unfold debugBlock
  split
  · exact .pure _
  · refine .label htolerant ?_ _
    refine .block htolerant.short (raises_debugInfo htolerant hvarint _ _ _)
      (settles_debugInfo h _ _ _).any fun info reached _ => ?_
    exact (raises_skip size htolerant.short).bind fun _ => .pure _

end DebugInfo

section Records

variable (hjit : dialect.isLuaJit = true)

include hjit

theorem raises_varint : varint.Raises data room (Founded data dialect maxDepth) := by
  apply Decoder.raises_varint
  cases dialect <;> simp [Dialect.isLuaJit, Dialect.varints] at hjit ⊢

theorem raises_numericHead : numericHead.Raises data room (Founded data dialect maxDepth) := by
  apply Decoder.raises_numericHead
  cases dialect <;> simp [Dialect.isLuaJit, Dialect.varints] at hjit ⊢

theorem raises_recordHead : (recordHead h).Raises data room (Founded data dialect maxDepth) := by
  have hbyte : nextByte.Raises data room (Founded data dialect maxDepth) :=
    raises_nextByte tolerant_founded.short
  have hvarint : varint.Raises data room (Founded data dialect maxDepth) := raises_varint hjit
  have hfour : Standard.IsWidth integerWidths 4 := by decide
  have htwo : Standard.IsWidth integerWidths 2 := by decide
  have hinstruction : (instruction h).Raises data room (Founded data dialect maxDepth) :=
    (raises_unsigned hfour _ tolerant_founded.short).bind fun _ => .pure _
  have hupvalue : (upvalue h).Raises data room (Founded data dialect maxDepth) :=
    (raises_unsigned htwo _ tolerant_founded.short).bind fun _ => .pure _
  refine hbyte.bind fun flags => hbyte.bind fun numParams => hbyte.bind fun frameSize => ?_
  refine hbyte.bind fun numUpvalues => hvarint.bind fun constantCount => ?_
  refine hvarint.bind fun numberCount => hvarint.bind fun instructionCount => ?_
  refine (raises_debugHead hvarint).bind fun sizes => (Raises.emit _).bind fun _ => ?_
  have hinstructions := raises_items instructionCount tolerant_founded.short hinstruction
  have hupvalues := raises_items numUpvalues.toNat tolerant_founded.short hupvalue
  refine (hinstructions.label tolerant_founded _).bind fun instructions => ?_
  exact (hupvalues.label tolerant_founded _).bind fun upvalues => .pure _

theorem raises_constants (count : Nat) (stack : List Completed) :
    (constants count stack).Raises data room (Founded data dialect maxDepth) := by
  have hconstant : ∀ progress,
      (constant progress).Raises data room (Founded data dialect maxDepth) := by
    intro progress
    refine .position_bind fun offset hnonneg hinside => ?_
    refine (raises_writtenConstant tolerant_founded (raises_varint hjit)).bind fun written => ?_
    split
    · exact .pure _
    · exact .failAt ⟨hnonneg, hinside, .stack hjit (.inl rfl)⟩
  refine .label tolerant_founded (.checkCount_bind tolerant_founded.short fun _ => ?_) _
  exact raises_plainFold (fun index progress => (hconstant progress).label tolerant_founded _) _ _ _

/-- The functions on a stack are lower than a bound. -/
def StackBelow (bound : Nat) (stack : List Completed) : Prop :=
  ∀ completed ∈ stack, completed.height < bound

omit hjit in
theorem StackBelow.heightOver_le {bound : Nat} {children : List Completed}
    (hchildren : StackBelow bound children) : heightOver children ≤ bound :=
  Prototype.foldl_height_le_iff.mpr ⟨Nat.zero_le bound, hchildren⟩

/-- A function is too deep only if it is higher than the limit, and then the stack before it
was as high. -/
theorem raises_fields {bound : Nat} (hbound : bound ≤ data.size) {stack : List Completed}
    (hstack : StackBelow bound stack) :
    (fields h maxDepth stack).Raises data room (Founded data dialect maxDepth) := by
  have hvarint : varint.Raises data room (Founded data dialect maxDepth) := raises_varint hjit
  have hnumber := raises_number tolerant_founded hvarint (raises_numericHead hjit)
  refine (raises_recordHead hjit).bind fun head => ?_
  refine (raises_constants hjit _ stack).bind_value (constants_keep hstack _)
    fun progress hprogress => ?_
  refine ((raises_labelledItems _ _ tolerant_founded hnumber).label tolerant_founded _).bind
    fun numConstants => ?_
  have hheight := StackBelow.heightOver_le hprogress.2
  dsimp only
  split
  next hdeep =>
    rw [fail_bind]
    exact .fail fun pos hnonneg hinside => ⟨hnonneg, hinside, .tooDeep (by omega)⟩
  next => exact (raises_debugBlock tolerant_founded hvarint _ _ _ _).bind fun info => .pure _

theorem raises_record {bound : Nat} (hbound : bound ≤ data.size) {stack : List Completed}
    (hstack : StackBelow bound stack) :
    (record h maxDepth stack).Raises data room (Founded data dialect maxDepth) := by
  refine .position_bind fun offset hnonneg hinside => (raises_varint hjit).bind fun size => ?_
  split
  · exact .pure _
  · refine .position_bind fun start _ _ => ?_
    refine .block tolerant_founded.short (raises_fields hjit hbound hstack)
      (settles_fields h maxDepth stack).any fun found reached _ => ?_
    dsimp only
    split
    · rw [failAt_bind]
      exact .failAt ⟨hnonneg, hinside, .stack hjit (.inr rfl)⟩
    · exact (raises_skip size tolerant_founded.short).bind fun _ => .pure _

omit hjit in
/-- A record adds at most one to the height of the stack. -/
theorem record_below {bound : Nat} {stack : List Completed} (hstack : StackBelow bound stack) :
    (record h maxDepth stack).Delivers room fun next =>
      ∀ found ∈ next, StackBelow (bound + 1) found := by
  refine (record_delivers stack).mono fun next hnext found hfound => ?_
  obtain ⟨parts, hparts, rfl, -⟩ := hnext found hfound
  obtain ⟨hrest, hchildren⟩ := (constants_keep hstack _).of_gives hparts.constants
  have hheight := StackBelow.heightOver_le hchildren
  refine List.forall_mem_cons.mpr ⟨Nat.lt_succ_of_le hheight, fun other hother => ?_⟩
  exact Nat.lt_succ_of_lt (hrest other hother)

theorem raises_main : (main h maxDepth).Raises data data.size (Founded data dialect maxDepth) := by
  have hvarint : varint.Raises data data.size (Founded data dialect maxDepth) := raises_varint hjit
  have hname : (chunkName h).Raises data data.size (Founded data dialect maxDepth) := by
    unfold chunkName
    split
    · exact .pure _
    · refine .label tolerant_founded (hvarint.bind fun size => ?_) _
      exact raises_take (Int.natCast_nonneg size) tolerant_founded.short
  have hrecords : (iterate (recordStep h maxDepth) (0, [])).Raises data data.size
      (Founded data dialect maxDepth) := by
    -- After so many records the functions on the stack are lower than their number.
    apply raises_iterate (settles_recordStep h maxDepth) fun count state => StackBelow count state.2
    · intro count state hstack
      refine ((record_below hstack).within _).bind fun next hnext => ?_
      cases next with
      | some found => exact .pure (hnext found rfl)
      | none => exact .pure trivial
    · intro count state hcount hstack
      refine ((raises_record hjit hcount hstack).label tolerant_founded _).bind fun next => ?_
      cases next with
      | some found => exact .pure _
      | none => exact .pure _
    · exact fun completed hmem => absurd hmem List.not_mem_nil
  refine .label tolerant_founded (hname.bind fun name => hrecords.bind fun stack => ?_) _
  have hsole : (soleCompleted stack).Raises data data.size (Founded data dialect maxDepth) := by
    unfold soleCompleted
    split
    · exact .pure _
    · exact .fail fun pos hnonneg hinside => ⟨hnonneg, hinside, .stack hjit (.inl rfl)⟩
  exact hsole.bind fun tree => .pure _

end Records

end Jit

namespace Luau

variable {h : Header} {strings : Array Bytes}

/-- An index outside its table is allowed. -/
def AllowsReference (data : Array UInt8) (blame : Failure → Prop) : Prop :=
  ∀ ⦃cause : Cause⦄ ⦃offset : Int⦄, cause.kind = .invalidReference → 0 ≤ offset →
    offset ≤ data.size → blame ⟨cause, offset, []⟩

theorem allowsReference_founded : AllowsReference data (Founded data .luau maxDepth) :=
  fun _ _ hkind hnonneg hinside => ⟨hnonneg, hinside, .reference rfl hkind⟩

section Fields

theorem raises_linkConstants (hreference : AllowsReference data blame) (numbers : List Nat)
    (slot : Nat) (constants : List Constant) :
    (linkConstants numbers slot constants).Raises data room blame := by
  induction constants generalizing slot with
  | nil => exact .pure _
  | cons constant rest ih =>
      have hlink : (linkConstant numbers slot constant).Raises data room blame := by
        unfold linkConstant
        split
        · split
          · exact .pure _
          · exact .fail fun pos hnonneg hinside => hreference rfl hnonneg hinside
        · exact .pure _
      exact hlink.bind fun _ => (ih _).bind fun _ => .pure _

variable (hvarint : varint.Raises data room blame)

include hvarint

theorem raises_stringRef (hreference : AllowsReference data blame) (strings : Array Bytes) :
    (stringRef strings).Raises data room blame := by
  refine .position_bind fun offset hnonneg hinside => hvarint.bind fun index => ?_
  split
  · exact .pure _
  · split
    · exact .pure _
    · exact .failAt (hreference rfl hnonneg hinside)

theorem raises_tableKey (hreference : AllowsReference data blame) (constants : Array Constant) :
    (tableKey constants).Raises data room blame := by
  refine .position_bind fun offset hnonneg hinside => hvarint.bind fun key => ?_
  split
  · exact .pure _
  · exact .failAt (hreference rfl hnonneg hinside)

theorem raises_takeChildren (htolerant : Tolerant data blame)
    (hreference : AllowsReference data blame) (table : Table) :
    (takeChildren table).Raises data room blame := by
  have hchild : ∀ (_ : Nat) state, (takeChild state).Raises data room blame := by
    intro _ state
    refine .position_bind fun offset hnonneg hinside => hvarint.bind fun number => ?_
    split
    · exact .pure _
    · exact .failAt (hreference rfl hnonneg hinside)
  refine .label htolerant (hvarint.bind fun count => ?_) _
  exact .checkCount_bind htolerant.short fun _ => raises_plainFold hchild _ _ _

theorem raises_count : count.Raises data room blame :=
  hvarint.bind fun _ => .pure _

variable (htolerant : Tolerant data blame)

include htolerant

theorem raises_stringTable : stringTable.Raises data room blame := by
  have hstring : tableString.Raises data room blame :=
    hvarint.bind fun size => raises_take (Int.natCast_nonneg size) htolerant.short
  refine .label htolerant (hvarint.bind fun count => ?_) _
  exact (raises_labelledItems _ _ htolerant hstring).bind fun strings => .pure _

theorem raises_typeBlock : (typeBlock h).Raises data room blame := by
  unfold typeBlock
  split
  · exact .pure _
  · have hbyte : byte.Raises data room blame :=
      (raises_nextByte htolerant.short).bind fun _ => .pure _
    have hinfo := hvarint.bind fun size =>
      raises_take (Int.natCast_nonneg size) htolerant.short
    exact hbyte.bind fun flags => (hinfo.label htolerant _).bind fun info => .pure _

theorem raises_debugTable (hreference : AllowsReference data blame) :
    (debugTable strings).Raises data room blame := by
  have hcount := raises_count hvarint
  have hstring := raises_stringRef hvarint hreference strings
  have hbyte : byte.Raises data room blame :=
    (raises_nextByte htolerant.short).bind fun _ => .pure _
  have hlocal : (localVariable strings).Raises data room blame :=
    hstring.bind fun _ => hcount.bind fun _ => hcount.bind fun _ => hbyte.bind fun _ => .pure _
  refine .label htolerant ?_ _
  refine (raises_counted _ htolerant hcount hlocal).bind fun locals => ?_
  exact (raises_counted _ htolerant hcount hstring).bind fun names => .pure _

theorem raises_userdataTypes (hreference : AllowsReference data blame) :
    (userdataTypes h strings).Raises data room blame := by
  have hstep : ∀ state, (userdataStep strings state).Raises data room blame := by
    intro state
    refine (raises_nextByte htolerant.short).bind fun index => ?_
    split
    · exact .pure _
    · exact (raises_stringRef hvarint hreference strings).bind fun _ => .pure _
  unfold userdataTypes
  split
  · exact (raises_plainIterate (settles_userdataStep strings) hstep ()).label htolerant _
  · exact .pure _

omit hvarint in
theorem raises_lineTable (instructionCount : Nat) :
    (lineTable instructionCount).Raises data room blame := by
  have hbyte : byte.Raises data room blame :=
    (raises_nextByte htolerant.short).bind fun _ => .pure _
  have hfour : Standard.IsWidth integerWidths 4 := by decide
  refine .label htolerant ?_ _
  refine (raises_nextByte htolerant.short).bind fun gap => ?_
  refine (raises_items _ htolerant.short hbyte).bind fun lineInfo => ?_
  have hinterval : ∀ index state, (nextInterval gap.toNat index state).Raises data room blame :=
    fun _ _ => (raises_signed hfour _ htolerant.short).bind fun _ => .pure _
  exact (raises_plainFold hinterval _ _ _).bind fun lines => .pure _

omit hvarint in
theorem raises_optionalPart {α : Type} (absent : α) {part : Decoder α}
    (hpart : part.Raises data room blame) : (optionalPart absent part).Raises data room blame := by
  refine (raises_nextByte htolerant.short).bind fun present => ?_
  split
  · exact .pure _
  · exact hpart

end Fields

section Records

theorem raises_varint : varint.Raises data room (Founded data .luau maxDepth) :=
  Decoder.raises_varint (by simp [Dialect.varints])

theorem raises_payload (constants : Array Constant) (tag : Nat) (payload : Decoder Constant)
    (hsome : payload? strings constants tag = some payload) :
    payload.Raises data room (Founded data .luau maxDepth) := by
  have hshort : AllowsShort data (Founded data .luau maxDepth) := tolerant_founded.short
  have height : Standard.IsWidth floatWidths 8 := by decide
  have hfour : Standard.IsWidth integerWidths 4 := by decide
  have hsingle : single.Raises data room (Founded data .luau maxDepth) :=
    (raises_field _ _ hshort).bind fun _ => .pure _
  unfold payload? at hsome
  split at hsome <;> simp only [Option.some.injEq, reduceCtorEq] at hsome <;> subst hsome
  · exact .pure _
  · exact (raises_nextByte hshort).bind fun _ => .pure _
  · exact (raises_float height _ hshort).bind fun _ => .pure _
  · exact (raises_stringRef raises_varint allowsReference_founded strings).bind fun _ => .pure _
  · exact (raises_unsigned hfour _ hshort).bind fun _ => .pure _
  · refine raises_varint.bind fun count => ?_
    have hkey : (tableKey constants).Raises data room (Founded data .luau maxDepth) :=
      raises_tableKey raises_varint allowsReference_founded constants
    exact (raises_collect (fun _ => hkey) _ _).bind fun _ => .pure _
  · exact raises_varint.bind fun _ => .pure _
  · exact (raises_collect (fun _ => hsingle) _ _).bind fun _ => .pure _

theorem raises_constants : (constants strings).Raises data room (Founded data .luau maxDepth) := by
  have hconstant : ∀ known,
      (constant strings known).Raises data room (Founded data .luau maxDepth) := by
    intro known
    exact Standard.raises_taggedConstant rfl (by simp [payload?]) (raises_payload known)
  have hnext : ∀ index known,
      (nextConstant strings index known).Raises data room (Founded data .luau maxDepth) :=
    fun index known => ((hconstant known).bind fun _ => .pure _).label tolerant_founded _
  refine .label tolerant_founded (raises_varint.bind fun count => ?_) _
  refine .checkCount_bind tolerant_founded.short fun _ => ?_
  exact (raises_plainFold hnext _ _ _).bind fun values => .pure _

/-- The functions that have no parent yet are lower than a bound. -/
def TableBelow (bound : Nat) (table : Table) : Prop :=
  ∀ {number entry}, table.get? number = some entry → entry.height < bound

theorem TableBelow.heightOver_le {bound : Nat} {table : Table} {taken : Table × List Child}
    (htable : TableBelow bound table) (htaken : TakenFrom table taken) :
    heightOver taken.2 ≤ bound :=
  Prototype.foldl_height_le_iff.mpr
    ⟨Nat.zero_le bound, fun child hchild => htable (htaken.children child hchild)⟩

theorem raises_record {bound : Nat} (hbound : bound ≤ data.size) {table : Table}
    (htable : TableBelow bound table) :
    (record h strings maxDepth table).Raises data room (Founded data .luau maxDepth) := by
  have hvarint : varint.Raises data room (Founded data .luau maxDepth) := raises_varint
  have hreference : AllowsReference data (Founded data .luau maxDepth) := allowsReference_founded
  have htolerant : Tolerant data (Founded data .luau maxDepth) := tolerant_founded
  have hbyte : byte.Raises data room (Founded data .luau maxDepth) :=
    (raises_nextByte htolerant.short).bind fun _ => .pure _
  have hfour : Standard.IsWidth integerWidths 4 := by decide
  have hinstruction : instruction.Raises data room (Founded data .luau maxDepth) :=
    (raises_unsigned hfour _ htolerant.short).bind fun _ => .pure _
  refine hbyte.bind fun maxStack => hbyte.bind fun numParams => hbyte.bind fun numUpvalues => ?_
  refine (raises_nextByte htolerant.short).bind fun variadic => ?_
  refine (raises_typeBlock hvarint htolerant).bind fun types => ?_
  refine (raises_counted _ htolerant (raises_count hvarint) hinstruction).bind
    fun instructions => ?_
  refine raises_constants.bind fun raw => ?_
  refine (raises_takeChildren hvarint htolerant hreference table).bind_value
    (takeChildren_delivers table) fun taken htaken => ?_
  refine (raises_linkConstants hreference _ _ _).bind fun linked => ?_
  have hheight := htable.heightOver_le htaken.2
  dsimp only
  split
  next hdeep =>
    rw [fail_bind]
    exact .fail fun pos hnonneg hinside => ⟨hnonneg, hinside, .tooDeep (by omega)⟩
  next =>
    refine (raises_count hvarint).bind fun lineDefined => ?_
    refine (raises_stringRef hvarint hreference strings).bind fun name => ?_
    refine (Raises.emit _).bind fun _ => ?_
    refine (raises_optionalPart htolerant _ (raises_lineTable htolerant _)).bind fun lines => ?_
    exact (raises_optionalPart htolerant _ (raises_debugTable hvarint htolerant hreference)).bind
      fun names => .pure _

/-- A record is at most as high as the functions before it are many. -/
theorem nextRecord_below {bound : Nat} {table : Table} (htable : TableBelow bound table)
    (index : Nat) : (nextRecord h strings maxDepth index table).Delivers room
      (TableBelow (bound + 1)) := by
  refine .within ((record_delivers table).map ?_) _
  rintro ⟨entry, rest⟩ ⟨parts, hparts, -, rfl, hentry, -⟩ number found hget
  have htaken := ((takeChildren_delivers table).of_gives hparts.taken).2
  rcases get?_push hget with ⟨-, rfl⟩ | hold
  · have hheight := htable.heightOver_le htaken
    dsimp only at hentry
    omega
  · exact Nat.lt_succ_of_lt (htable (htaken.rest hold))

theorem raises_main : (main h maxDepth).Raises data data.size (Founded data .luau maxDepth) := by
  have hvarint : varint.Raises data data.size (Founded data .luau maxDepth) := raises_varint
  have hreference : AllowsReference data (Founded data .luau maxDepth) := allowsReference_founded
  have htolerant : Tolerant data (Founded data .luau maxDepth) := tolerant_founded
  refine .label htolerant ?_ _
  refine (raises_stringTable hvarint htolerant).bind fun strings => (Raises.emit _).bind fun _ => ?_
  refine (raises_userdataTypes hvarint htolerant hreference).bind fun _ => ?_
  refine hvarint.bind fun recordCount => (Raises.emit _).bind fun _ => ?_
  refine .checkCount_bind htolerant.short fun hcount => ?_
  have hrecords : (fold (nextRecord h strings maxDepth) recordCount 0 #[]).Raises data data.size
      (Founded data .luau maxDepth) := by
    apply raises_fold (fun index table => TableBelow index table)
    · intro number entry hget
      simp [Table.get?] at hget
    · exact fun index table _ htable => nextRecord_below htable index
    · intro index table hindex htable
      have hbound : index ≤ data.size := by omega
      exact ((raises_record hbound htable).bind fun _ => .pure _).label htolerant _
  refine hrecords.bind fun table => .position_bind fun offset hnonneg hinside => ?_
  refine hvarint.bind fun index => ?_
  split
  · exact .pure _
  · exact .failAt (hreference rfl hnonneg hinside)

end Records

end Luau

/-- What the main function behind an accepted header raises. -/
theorem raises_mainFunction {h : Header} (hh : h.Readable) (data : Array UInt8) (maxDepth : Int) :
    (mainFunction h maxDepth).Raises data data.size (Founded data h.dialect maxDepth) := by
  unfold mainFunction
  split
  next hdialect => exact (Standard.grammar51_raises hh hdialect).main (Standard.grammar51_settles h)
  next hdialect => exact (Standard.grammar52_raises hh hdialect).main (Standard.grammar52_settles h)
  next hdialect => exact (Standard.grammar53_raises hh hdialect).main (Standard.grammar53_settles h)
  next hdialect => exact (Standard.grammar54_raises hh hdialect).main (Standard.grammar54_settles h)
  next hdialect => exact Jit.raises_main (by rw [hdialect]; rfl)
  next hdialect => exact Jit.raises_main (by rw [hdialect]; rfl)
  next hdialect =>
    rw [hdialect]
    exact Luau.raises_main

/-- The header of a file. -/
def HasHeader (options : Options) (data : Array UInt8) (h : Header) : Prop :=
  ∃ last trace, options.origin.header (Window.whole data) 0 = .done h last trace

/-- Where the failure of a file comes from. -/
inductive Rejection (options : Options) (data : Array UInt8) (failure : Failure) : Prop
  | header (hrefused : Header.Refused data options.origin [.named "header"] failure)
  | disabled {h : Header} (hheader : HasHeader options data h)
      (hdisabled : h.dialect ∈ options.disabled)
      (hfailure : failure = ⟨.dialectDisabled h.dialect, 0, []⟩)
  | function {h : Header} (hheader : HasHeader options data h)
      (hdialect : h.dialect = .luau ↔ options.origin = .luau)
      (hfounded : Founded data h.dialect options.maxDepth failure)

theorem rejection_of_decode {options : Options} {data : Array UInt8} {failure : Failure}
    {last : Int} {trace : List Event}
    (hfailed : decode options data = .failed failure last trace) :
    Rejection options data failure := by
  have hplace := Place.whole data
  rcases bind_eq_failed_iff.mp hfailed with hheader | ⟨h, mid, first, second, hheader, hrest, -⟩
  · exact .header ((Header.raisesAt_header data options.origin).failed hheader)
  · obtain ⟨hreadable, hdialect⟩ := Header.header_readable options.origin hheader
    obtain ⟨hmid, hinside⟩ := (settles_header options.origin).passed hplace hheader
    split at hrest
    next hdisabled =>
      rw [failAt_bind] at hrest
      obtain ⟨hfailure, -, -⟩ := Outcome.failed.inj hrest
      exact .disabled ⟨_, _, hheader⟩ hdisabled hfailure.symm
    next =>
      have hmain := (raises_mainFunction hreadable data options.maxDepth).bind fun main =>
        Raises.remaining_bind fun left _ => (Raises.emit (.finished h.dialect left)).bind fun _ =>
          Raises.pure (⟨h, main⟩ : Bytecode)
      have hfounded := (hmain rfl (hplace.next (by omega) hinside)).failed hrest
      exact .function ⟨_, _, hheader⟩ hdialect hfounded

end LuaDump
