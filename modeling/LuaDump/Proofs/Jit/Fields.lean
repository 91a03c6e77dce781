import LuaDump.Proofs.Jit.Writer
import LuaDump.Proofs.Reading.Float

/-! # Records are read back

Every field of a record is read back from its bytes. What a record does with its children
depends on the stack, so the constants, the fields and the whole record are shown to serve
every stack, as in the reconstruction of trees.
-/

namespace LuaDump.Jit

open Decoder

theorem wordOf_halves (n : Nat) : wordOf (n % 0x100000000) (n / 0x100000000) = n := by
  rw [wordOf, Nat.mul_comm, Nat.mod_add_div]

theorem reads_word {n : Nat} (hn : n < 2 ^ 64) : word.Reads (wordBytes n) n := by
  refine (reads_varint (by omega : n % 0x100000000 < 2 ^ 32)).bind
    ((reads_varint (by omega : n / 0x100000000 < 2 ^ 32)).bind_nil ?_)
  rw [wordOf_halves]
  exact .pure n

theorem reads_double (value : Binary64) : double.Reads (wordBytes value.pattern) value := by
  refine (reads_word value.pattern_lt).bind_nil ?_
  rw [Binary64.ofPattern_pattern]
  exact .pure value

theorem reads_taggedString (value : Bytes) :
    (taggedString 5 (value.length + 5)).Reads value (.string value) := by
  apply Reads.named
  exact (reads_take (by omega)).map

theorem reads_tableSlot {slot : Constant} (hslot : IsSlot slot)
    (hsize : (slotBytes slot).length ≤ 2 ^ 32 - 5) : tableSlot.Reads (slotBytes slot) slot := by
  match slot, hslot with
  | .nil, _ => exact (reads_varint (by decide : 0 < 2 ^ 32)).bind_nil (.pure _)
  | .boolean false, _ => exact (reads_varint (by decide : 1 < 2 ^ 32)).bind_nil (.pure _)
  | .boolean true, _ => exact (reads_varint (by decide : 2 < 2 ^ 32)).bind_nil (.pure _)
  | .number (.integer value), ⟨hlow, hhigh⟩ =>
      refine (reads_varint (by decide : 3 < 2 ^ 32)).bind
        ((reads_varint (twosComplement_lt 32 value)).bind_nil ?_)
      rw [signExtend_twosComplement hlow hhigh]
      exact .pure _
  | .number (.float value), _ =>
      exact (reads_varint (by decide : 4 < 2 ^ 32)).bind (reads_double value).map
  | .string value, _ =>
      rw [slotBytes, stringBytes, List.length_append] at hsize
      have hpositive := Bytes.length_lowGroups_pos (value.length + 5)
      exact (reads_varint (by omega)).bind (reads_taggedString value)

theorem length_slotBytes_pos (slot : Constant) : 1 ≤ (slotBytes slot).length := by
  unfold slotBytes
  split <;> grind [Bytes.length_lowGroups_pos, stringBytes]

theorem length_entryBytes_pos (entry : Constant × Constant) : 1 ≤ (entryBytes entry).length := by
  rw [entryBytes, List.length_append]
  exact Nat.le_add_right_of_le (length_slotBytes_pos entry.1)

theorem reads_tableEntry {entry : Constant × Constant} (hkey : IsSlot entry.1)
    (hvalue : IsSlot entry.2) (hsize : (entryBytes entry).length ≤ 2 ^ 32 - 5) :
    tableEntry.Reads (entryBytes entry) entry := by
  rw [entryBytes, List.length_append] at hsize
  exact (reads_tableSlot hkey (by omega)).bind (reads_tableSlot hvalue (by omega)).map

/-- A table is read back, with nothing at index zero. -/
theorem reads_table {array : List Constant} {hash : List (Constant × Constant)}
    (harray : ∀ slot ∈ array, IsSlot slot)
    (hhash : ∀ entry ∈ hash, IsSlot entry.1 ∧ IsSlot entry.2)
    (harraySize : ((Constant.nil :: array).flatMap slotBytes).length ≤ 2 ^ 32 - 5)
    (hhashSize : (hash.flatMap entryBytes).length ≤ 2 ^ 32 - 5) :
    table.Reads (Bytes.lowGroups (array.length + 1) ++ (Bytes.lowGroups hash.length ++
      ((Constant.nil :: array).flatMap slotBytes ++ hash.flatMap entryBytes)))
      (.table array hash) := by
  have hslots : ∀ slot ∈ Constant.nil :: array, tableSlot.Reads (slotBytes slot) slot := by
    intro slot hslot
    have hlength : (slotBytes slot).length ≤ _ := length_le_flatMap_of_mem hslot
    refine reads_tableSlot ?_ (Nat.le_trans hlength harraySize)
    rcases List.mem_cons.mp hslot with rfl | hslot
    · trivial
    · exact harray slot hslot
  have hentries : ∀ entry ∈ hash, tableEntry.Reads (entryBytes entry) entry := by
    intro entry hentry
    have hlength : (entryBytes entry).length ≤ _ := length_le_flatMap_of_mem hentry
    exact reads_tableEntry (hhash entry hentry).1 (hhash entry hentry).2
      (Nat.le_trans hlength hhashSize)
  have harrayCount : (Constant.nil :: array).length ≤ _ :=
    length_le_flatMap fun slot _ => length_slotBytes_pos slot
  have hhashCount : hash.length ≤ _ :=
    length_le_flatMap fun entry _ => length_entryBytes_pos entry
  rw [List.length_cons] at harrayCount
  apply Reads.named
  refine (reads_varint (by omega)).bind ((reads_varint (by omega)).bind ?_)
  refine ((reads_items rfl (fun slot _ => length_slotBytes_pos slot) hslots).named _).bind ?_
  exact ((reads_items rfl (fun entry _ => length_entryBytes_pos entry) hentries).named _).map

/-- A constant as it is written, where a child leaves no value. -/
def asWritten : Constant → Option Constant
  | .proto _ => none
  | value => some value

theorem reads_writtenConstant {value : Constant} (hvalue : IsWritable value)
    (hsize : (constantBytes value).length ≤ 2 ^ 32 - 5) :
    writtenConstant.Reads (constantBytes value) (asWritten value) := by
  match value, hvalue with
  | .proto _, _ => exact (reads_varint (by decide : 0 < 2 ^ 32)).bind_nil (.pure _)
  | .table array hash, ⟨harray, hhash⟩ =>
      simp only [constantBytes, List.length_append] at hsize
      exact (reads_varint (by decide : 1 < 2 ^ 32)).bind
        (reads_table harray hhash (by omega) (by omega)).map
  | .number (.integer value), ⟨hlow, hhigh⟩ =>
      refine (reads_varint (by decide : 2 < 2 ^ 32)).bind
        ((reads_word (twosComplement_lt 64 value)).bind_nil ?_)
      rw [signExtend_twosComplement hlow hhigh]
      exact .pure _
  | .complex re im, _ =>
      exact (reads_varint (by decide : 4 < 2 ^ 32)).bind
        ((reads_double re).bind (reads_double im).map)
  | .string value, _ =>
      rw [constantBytes, stringBytes, List.length_append] at hsize
      have hpositive := Bytes.length_lowGroups_pos (value.length + 5)
      exact (reads_varint (by omega)).bind (reads_taggedString value).map

theorem reads_number {value : Number} (hvalue : IsNumber value) :
    number.Reads (numberBytes value) value := by
  match value, hvalue with
  | .integer value, ⟨hlow, hhigh⟩ =>
      have hhead := reads_numericHead (twosComplement_lt 32 value) false
      obtain ⟨b, rest, hbytes, hbit⟩ :=
        Bytes.exists_numericHead_eq_cons false (twosComplement 32 value)
      rw [numberBytes, hbytes]
      rw [hbytes] at hhead
      refine .peekByte_bind (hhead.bind_nil ?_)
      rw [hbit, if_neg (by decide), signExtend_twosComplement hlow hhigh]
      exact .pure _
  | .float value, _ =>
      have hpattern := value.pattern_lt
      have hhead := reads_numericHead (by omega : value.pattern % 0x100000000 < 2 ^ 32) true
      obtain ⟨b, rest, hbytes, hbit⟩ :=
        Bytes.exists_numericHead_eq_cons true (value.pattern % 0x100000000)
      rw [numberBytes, hbytes, List.cons_append]
      rw [hbytes] at hhead
      refine .peekByte_bind ?_
      rw [← List.cons_append]
      refine hhead.bind ?_
      rw [hbit, if_pos rfl]
      refine (reads_varint (by omega)).bind_nil ?_
      rw [wordOf_halves, Binary64.ofPattern_pattern]
      exact .pure _

section Function

variable (h : Header)

theorem reads_instruction {word : Int} (hword : 0 ≤ word ∧ word < 2 ^ 32) :
    (instruction h).Reads (instructionBytes h word) word := by
  have hsmall : word.toNat < 256 ^ 4 := by omega
  refine (reads_unsigned h.bigEndian rfl (by decide) hsmall).bind_nil ?_
  rw [Int.toNat_of_nonneg hword.1]
  exact .pure word

/-- The flags of a captured variable stand above its number. -/
theorem upvalueWord_bits {id kind : Nat} (hid : id < 2 ^ 14) (hkind : kind < 2) (onStack : Bool) :
    (id + kind * 0x4000 + onStack.toNat * 0x8000).testBit 15 = onStack ∧
      (id + kind * 0x4000 + onStack.toNat * 0x8000) % 0x4000 = id ∧
      (id + kind * 0x4000 + onStack.toNat * 0x8000).testBit 14 = decide (kind = 1) := by
  have hstack := Bool.toNat_lt onStack
  have hhigh : (id + kind * 0x4000 + onStack.toNat * 0x8000) / 2 ^ 15 = onStack.toNat := by omega
  have hmiddle : (id + kind * 0x4000 + onStack.toNat * 0x8000) / 2 ^ 14 % 2 = kind := by omega
  rw [Nat.testBit_eq_decide_div_mod_eq, Nat.testBit_eq_decide_div_mod_eq, hhigh, hmiddle]
  refine ⟨?_, by omega, rfl⟩
  cases onStack <;> rfl

theorem reads_upvalue {entry : Upvalue} (hid : 0 ≤ entry.id ∧ entry.id < 2 ^ 14)
    (hkind : entry.kind = 0 ∨ entry.kind = 1) :
    (upvalue h).Reads (upvalueBytes h entry) entry := by
  have hstack := Bool.toNat_lt entry.onStack
  obtain ⟨hhigh, hlow, hmiddle⟩ := upvalueWord_bits (by omega : entry.id.toNat < 2 ^ 14)
    (by omega : entry.kind.toNat < 2) entry.onStack
  refine (reads_unsigned h.bigEndian rfl (by decide) (?_ : _ < 256 ^ 2)).bind_nil ?_
  · omega
  · rw [hhigh, hlow, hmiddle]
    obtain ⟨onStack, id, kind⟩ := entry
    have hkept : (if decide (kind.toNat = 1) = true then 1 else 0 : Int) = kind := by
      rcases hkind with rfl | rfl <;> rfl
    rw [hkept, Int.toNat_of_nonneg hid.1]
    exact .pure _

/-- The first byte of a name tells how the name goes on. -/
theorem exists_localNameBytes_eq_cons {name : Bytes} (hname : IsLocalName name) :
    ∃ code more, localNameBytes name = code :: more ∧ code ≠ 0 ∧
      (localName code).Reads more name := by
  unfold localNameBytes localName
  cases hindex : internalNames.idxOf? name with
  | some index =>
      obtain ⟨hlt, hget, -⟩ := List.idxOf?_eq_some_iff.mp hindex
      have hcode : (UInt8.ofNat (index + 1)).toNat = index + 1 := by
        have hcount : internalNames.length = 6 := rfl
        rw [UInt8.toNat_ofNat']
        omega
      refine ⟨UInt8.ofNat (index + 1), [], rfl, ?_, ?_⟩
      · intro hzero
        rw [hzero] at hcode
        exact absurd hcode (by simp)
      · rw [hcode, Nat.add_sub_cancel, List.getElem?_eq_getElem hlt, hget]
        exact .pure name
  | none =>
      rcases hname with hmem | ⟨hzero, first, rest, rfl, hfirst⟩
      · exact absurd hmem (List.idxOf?_eq_none_iff.mp hindex)
      · have hcode : internalNames[first.toNat - 1]? = none :=
          List.getElem?_eq_none (by rw [show internalNames.length = 6 from rfl]; omega)
        refine ⟨first, rest ++ [0], rfl, by rintro rfl; simp at hfirst, ?_⟩
        rw [hcode]
        exact (reads_takeUntil (List.not_mem_of_not_mem_cons hzero)).map

theorem reads_localStep {name : Bytes} (hname : IsLocalName name) (lastPc : Nat)
    (locals : List Local) {delta length : Nat} (hdelta : delta < 2 ^ 32)
    (hlength : length < 2 ^ 32) :
    (localStep (lastPc, locals)).Reads
      (localNameBytes name ++ (Bytes.lowGroups delta ++ Bytes.lowGroups length))
      (.inl (lastPc + delta,
        { name, startPc := (lastPc + delta : Nat), endPc := (lastPc + delta + length : Nat) } ::
          locals)) := by
  obtain ⟨code, more, hbytes, hcode, hread⟩ := exists_localNameBytes_eq_cons hname
  rw [hbytes]
  refine (reads_nextByte code).bind ?_
  rw [if_neg hcode]
  exact hread.bind ((reads_varint hdelta).bind (reads_varint hlength).map)

theorem reads_localLoop {entries : List Local} (lastPc : Nat) (locals : List Local)
    (hentries : LocalsFollow lastPc entries) :
    (iterate localStep (lastPc, locals)).Reads (localsBytes lastPc entries)
      (locals.reverse ++ entries) := by
  induction entries generalizing lastPc locals with
  | nil =>
      rw [List.append_nil]
      exact .iterate_last settles_localStep ((reads_nextByte 0).bind_nil (.pure _))
  | cons entry rest ih =>
      obtain ⟨hname, hstart, hdelta, hend, hlength, hregister, hrest⟩ := hentries
      obtain ⟨name, startPc, endPc, register⟩ := entry
      dsimp only at hname hstart hdelta hend hlength hregister hrest
      -- Positions are written as differences, which are natural numbers in order.
      obtain ⟨start, rfl⟩ := Int.eq_ofNat_of_zero_le (by omega : 0 ≤ startPc)
      have hnext : lastPc + ((start : Int) - lastPc).toNat = start := by omega
      have hlast : ((start + (endPc - start).toNat : Nat) : Int) = endPc := by omega
      have hstep := reads_localStep hname lastPc locals
        (by omega : ((start : Int) - lastPc).toNat < 2 ^ 32)
        (by omega : (endPc - start).toNat < 2 ^ 32)
      rw [hnext, hlast] at hstep
      have hloop := hstep.iterate_next settles_localStep (ih start _ hrest)
      simpa [localsBytes, hregister] using hloop

theorem lineWidth_eq (lineCount : Nat) :
    lineWidth lineCount = (lineWidth lineCount).toNat ∧
      (lineWidth lineCount).toNat ∈ integerWidths := by
  unfold lineWidth
  split
  · decide
  · split <;> decide

theorem reads_lineEntry {lineCount : Nat} {entry : Int}
    (hentry : 0 ≤ entry ∧ entry < 256 ^ (lineWidth lineCount).toNat) :
    (lineEntry h lineCount).Reads
      (Bytes.ofNat h.bigEndian (lineWidth lineCount).toNat entry.toNat) entry := by
  obtain ⟨hwidth, hallowed⟩ := lineWidth_eq lineCount
  have hsmall : entry.toNat < 256 ^ (lineWidth lineCount).toNat := by
    have hcast : ((256 ^ (lineWidth lineCount).toNat : Nat) : Int) =
        256 ^ (lineWidth lineCount).toNat := by simp
    omega
  refine (reads_unsigned h.bigEndian hwidth hallowed hsmall).bind_nil ?_
  rw [Int.toNat_of_nonneg hentry.1]
  exact .pure entry

/-- The debug information among the fields of a function. -/
def infoOf (body : Body) : DebugInfo where
  lineInfo := body.lineInfo
  upvalueNames := body.upvalueNames
  locals := body.locals

theorem reads_debugInfo {body : Body} (hbody : DebugFits body) :
    (debugInfo h body.instructions.length body.upvalues.length (lineCountOf body)).Reads
      (body.lineInfo.flatMap (fun entry =>
          Bytes.ofNat h.bigEndian (lineWidth (lineCountOf body)).toNat entry.toNat) ++
        (body.upvalueNames.flatMap (· ++ [0]) ++ localsBytes 0 body.locals))
      (infoOf body) := by
  obtain ⟨-, hallowed⟩ := lineWidth_eq (lineCountOf body)
  have hpositive : ∀ size ∈ integerWidths, 1 ≤ size := by decide
  have hlines : (items body.instructions.length (lineEntry h (lineCountOf body))).Reads _
      body.lineInfo :=
    reads_items (by rw [hbody.lineInfo_length])
      (fun entry _ => by rw [Bytes.length_ofNat]; exact hpositive _ hallowed)
      (fun entry hentry => reads_lineEntry h (hbody.lineInfo entry hentry))
  have hnames : (collect (fun _ => takeUntil 0) body.upvalueNames.length 0).Reads _
      body.upvalueNames :=
    reads_collect (fun _ name hname => reads_takeUntil (hbody.upvalueNames name hname)) 0
  rw [hbody.upvalueNames_length] at hnames
  have hlocals := reads_localLoop 0 [] hbody.locals
  exact (hlines.named _).bind ((hnames.named _).bind (hlocals.named _).map)

theorem length_localsBytes_pos (lastPc : Int) (entries : List Local) :
    1 ≤ (localsBytes lastPc entries).length := by
  cases entries with
  | nil => exact Nat.le_refl 1
  | cons entry rest =>
      have hpositive := Bytes.length_lowGroups_pos (entry.startPc - lastPc).toNat
      simp only [localsBytes, List.length_append]
      omega

theorem length_debugBytes_pos {body : Body} (hstripped : h.stripped = false)
    (hbare : isBare body = false) : 1 ≤ (debugBytes h body).length := by
  have hpositive := length_localsBytes_pos 0 body.locals
  simp only [debugBytes, hstripped, hbare, Bool.or_self, Bool.false_eq_true, if_false,
    List.length_append]
  omega

theorem isBare_iff {body : Body} :
    isBare body = true ↔ body.lineDefined = 0 ∧ body.lastLineDefined = 0 ∧ body.lineInfo = [] ∧
      body.upvalueNames = [] ∧ body.locals = [] := by
  simp [isBare, and_assoc]

/-- The debug information is read back whether there is any or not. -/
theorem reads_debugBlock {body : Body} (hbody : Recordable h body) :
    (debugBlock h (debugBytes h body).length body.instructions.length body.upvalues.length
      (lineCountOf body)).Reads (debugBytes h body) (infoOf body) := by
  unfold debugBlock
  cases hbare : isBare body with
  | true =>
      obtain ⟨-, -, hlines, hnames, hlocals⟩ := isBare_iff.mp hbare
      have hempty : debugBytes h body = [] := if_pos (by rw [hbare, Bool.or_true])
      rw [hempty, infoOf, hlines, hnames, hlocals]
      exact .pure _
  | false =>
      obtain ⟨hstripped, hfits⟩ := hbody.debug.resolve_left (by simp [hbare])
      have hpositive := length_debugBytes_pos h hstripped hbare
      have hinfo := reads_debugInfo h hfits
      have hbytes : debugBytes h body = _ := if_neg (by simp [hstripped, hbare])
      rw [← hbytes] at hinfo
      rw [if_neg (by omega)]
      exact (reads_block rfl hinfo fun _ => (reads_skip rfl).map).named _

/-- The head of the debug information is read back whether there is any or not. -/
theorem reads_debugHead {body : Body} (hbody : Recordable h body)
    (hsize : (debugBytes h body).length < 2 ^ 32) :
    (debugHead h).Reads (debugHeadBytes h body)
      ((debugBytes h body).length, body.lineDefined.toNat, lineCountOf body) := by
  unfold debugHead debugHeadBytes
  cases hbare : isBare body with
  | true =>
      obtain ⟨hline, hlast, -⟩ := isBare_iff.mp hbare
      have hempty : debugBytes h body = [] := if_pos (by rw [hbare, Bool.or_true])
      rw [hempty, lineCountOf, hline, hlast]
      split
      · exact .pure _
      · exact (reads_varint (by decide)).bind_nil (.pure _)
  | false =>
      obtain ⟨hstripped, hfits⟩ := hbody.debug.resolve_left (by simp [hbare])
      have hpositive := length_debugBytes_pos h hstripped hbare
      obtain ⟨hline, hline'⟩ := hfits.line
      obtain ⟨hlast, hlast'⟩ := hfits.lastLine
      have hcount : lineCountOf body < 2 ^ 32 := by
        rw [lineCountOf]
        omega
      simp only [hstripped, Bool.false_eq_true, if_false]
      refine (reads_varint hsize).bind ?_
      rw [if_neg (by omega)]
      exact (reads_varint (by omega)).bind (reads_varint hcount).map

/-- What a record of a function holds before its constants. -/
def headOf (body : Body) : RecordHead where
  flags := UInt8.ofNat body.flags.toNat
  numParams := UInt8.ofNat body.numParams.toNat
  frameSize := UInt8.ofNat body.maxStack.toNat
  numUpvalues := UInt8.ofNat body.numUpvalues.toNat
  constantCount := body.constants.length
  numberCount := body.numConstants.length
  debugSize := (debugBytes h body).length
  line := body.lineDefined.toNat
  lineCount := lineCountOf body
  instructions := body.instructions
  upvalues := body.upvalues

theorem length_constantBytes_pos (value : Constant) : 1 ≤ (constantBytes value).length := by
  unfold constantBytes
  split <;> grind [Bytes.length_lowGroups_pos, stringBytes]

theorem length_numberBytes_pos (value : Number) : 1 ≤ (numberBytes value).length := by
  cases value <;> grind [Bytes.length_numericHead_pos, numberBytes]

/-- The counts of a record are no greater than its size. -/
theorem counts_lt {body : Body} (hbody : Recordable h body) :
    body.constants.length < 2 ^ 32 ∧ body.numConstants.length < 2 ^ 32 ∧
      body.instructions.length < 2 ^ 32 ∧ (debugBytes h body).length < 2 ^ 32 ∧
      (body.constants.reverse.flatMap constantBytes).length ≤ 2 ^ 32 - 5 := by
  have hsize := hbody.size
  have hconstants : body.constants.reverse.length ≤ _ :=
    length_le_flatMap fun value _ => length_constantBytes_pos value
  have hnumbers : body.numConstants.length ≤ _ :=
    length_le_flatMap fun value _ => length_numberBytes_pos value
  have hinstructions : body.instructions.length ≤ (body.instructions.flatMap
      (instructionBytes h)).length := length_le_flatMap fun word _ => by simp [instructionBytes]
  rw [List.length_reverse] at hconstants
  simp only [fieldsBytes, headBytes, List.length_append, List.length_cons, List.length_nil] at hsize
  omega

theorem numUpvalues_byte {body : Body} (hbody : Recordable h body) :
    (UInt8.ofNat body.numUpvalues.toNat).toNat = body.upvalues.length := by
  obtain ⟨hnum, hfew⟩ := hbody.numUpvalues
  rw [UInt8.toNat_ofNat']
  omega

theorem reads_recordHead {body : Body} (hbody : Recordable h body) :
    (recordHead h).Reads (headBytes h body) (headOf h body) := by
  obtain ⟨hconstants, hnumbers, hinstructions, hdebug, -⟩ := counts_lt h hbody
  have hwords : (items body.instructions.length (instruction h)).Reads
      (body.instructions.flatMap (instructionBytes h)) body.instructions :=
    reads_items rfl (fun word _ => by simp [instructionBytes])
      fun word hword => reads_instruction h (hbody.instructions word hword)
  have hupvalues : (items (UInt8.ofNat body.numUpvalues.toNat).toNat (upvalue h)).Reads
      (body.upvalues.flatMap (upvalueBytes h)) body.upvalues :=
    reads_items (by rw [numUpvalues_byte h hbody]) (fun entry _ => by simp [upvalueBytes])
      fun entry hentry => reads_upvalue h (hbody.upvalues entry hentry).1
        (hbody.upvalues entry hentry).2
  refine (reads_nextByte _).bind ((reads_nextByte _).bind ((reads_nextByte _).bind
    ((reads_nextByte _).bind ?_)))
  refine (reads_varint hconstants).bind ((reads_varint hnumbers).bind
    ((reads_varint hinstructions).bind ((reads_debugHead h hbody hdebug).bind ?_)))
  exact .emit_bind ((hwords.named _).bind (hupvalues.named _).map)

/-- Constants in the order of a record are applied to every stack. -/
theorem foldConstants_serves_of_reads {values : List Constant}
    (hvalues : ∀ value ∈ values, writtenConstant.Reads (constantBytes value) (asWritten value))
    {w : Window} (hw : w.Sound) {pos : Int} (hholds : w.Holds pos (values.flatMap constantBytes))
    (index : Nat) :
    ∃ trace, ∀ progress : Progress,
      (fold (fun index progress => within (.item "constant" index) (constant progress))
        values.length index progress w pos).Serves (progress.extendAll? (values.map asWritten))
        (pos + (values.flatMap constantBytes).length) trace := by
  induction values generalizing pos index with
  | nil =>
      refine ⟨[], fun progress => ?_⟩
      simp [fold, pure_apply, Outcome.Serves, Progress.extendAll?]
  | cons first rest ih =>
      rw [List.flatMap_cons] at hholds
      obtain ⟨firstTrace, hfirst⟩ := hvalues first (List.mem_cons_self ..) w pos hw hholds.left
      obtain ⟨restTrace, hrest⟩ := ih (fun value hvalue => hvalues value
        (List.mem_cons_of_mem _ hvalue)) hholds.right (index + 1)
      refine ⟨firstTrace ++ restTrace, fun progress => ?_⟩
      rw [List.flatMap_cons, List.length_append, Int.natCast_add, ← Int.add_assoc]
      exact serves_bind (serves_within (constant_serves hfirst progress)) fun next _ => hrest next

theorem protoIndex?_of_mem_asWritten {value found : Constant} (hfound : found ∈ asWritten value) :
    found.protoIndex? = none := by
  cases value <;> cases hfound <;> rfl

theorem asWritten_of_none {value : Constant} (hvalue : value.protoIndex? = none) :
    asWritten value = some value := by
  cases value <;> simp_all [asWritten, Constant.protoIndex?]

theorem eq_proto_of_some {value : Constant} {index : Int}
    (hvalue : value.protoIndex? = some index) :
    value = .proto index := by
  cases value <;> simp_all [Constant.protoIndex?]

/-- Numbering the children again gives back constants that number their children. -/
theorem numbered_asWritten {values : List Constant} {first count : Nat}
    (hvalues : protoIndices values = (List.range' first count).map Int.ofNat) :
    numbered first (values.map asWritten) = values := by
  induction values generalizing first count with
  | nil => rfl
  | cons value rest ih =>
      cases hindex : value.protoIndex? with
      | none =>
          rw [protoIndices, List.filterMap_cons_none hindex] at hvalues
          rw [List.map_cons, asWritten_of_none hindex, numbered, ih hvalues]
      | some index =>
          obtain rfl := eq_proto_of_some hindex
          rw [protoIndices, List.filterMap_cons_some hindex] at hvalues
          -- The first number is that of the first child, so one more child has been numbered.
          cases count with
          | zero => exact absurd hvalues (by simp)
          | succ count =>
              rw [List.range'_succ, List.map_cons, List.cons.injEq] at hvalues
              obtain ⟨rfl, hrest⟩ := hvalues
              rw [List.map_cons, asWritten, numbered, ih hrest]
              rfl

theorem numbered_reverse {body : Body} (hnumbers : NumbersChildren body) :
    (numbered 0 (body.constants.reverse.map asWritten)).reverse = body.constants := by
  have hvalues : protoIndices body.constants.reverse =
      (List.range' 0 (childCount body)).map Int.ofNat := by
    have hcountdown : protoIndices body.constants = countdown (childCount body) := hnumbers
    rw [protoIndices] at hcountdown
    rw [protoIndices, List.filterMap_reverse, hcountdown, countdown, ← List.map_reverse,
      List.reverse_reverse, List.range_eq_range']
  rw [numbered_asWritten hvalues, List.reverse_reverse]

/-- The own fields of a function come back from its record, but for its name. -/
theorem body_headOf {body : Body} (hbody : Recordable h body) :
    (headOf h body).body body.constants body.numConstants (infoOf body) =
      { body with name := [] } := by
  have hbyte : ∀ value : Int, value < 256 → (UInt8.ofNat value.toNat).toNat = value.toNat := by
    intro value hsmall
    rw [UInt8.toNat_ofNat']
    omega
  have hlines : ((body.lineDefined.toNat : Int) = body.lineDefined) ∧
      ((body.lineDefined.toNat + lineCountOf body : Nat) : Int) = body.lastLineDefined := by
    rcases hbody.debug with hbare | ⟨-, hfits⟩
    · obtain ⟨hline, hlast, -⟩ := isBare_iff.mp hbare
      simp [lineCountOf, hline, hlast]
    · have hline := hfits.line
      have hlast := hfits.lastLine
      rw [lineCountOf]
      omega
  obtain ⟨hline, hlast⟩ := hlines
  obtain ⟨hupvalues, hfew⟩ := hbody.numUpvalues
  simp only [RecordHead.body, headOf, infoOf, hbyte _ hbody.flags.2, hbyte _ hbody.numParams.2,
    hbyte _ hbody.maxStack.2, hbyte body.numUpvalues (by omega), hline, hlast,
    Int.toNat_of_nonneg hbody.flags.1, Int.toNat_of_nonneg hbody.numParams.1,
    Int.toNat_of_nonneg hbody.maxStack.1, Int.toNat_of_nonneg (by omega : 0 ≤ body.numUpvalues),
    ← hbody.vararg, ← hbody.sourceLines, hbody.typeInfo]

theorem constants_serves_of_holds {body : Body} (hbody : Recordable h body) {w : Window}
    (hw : w.Sound) {pos : Int}
    (hholds : w.Holds pos (body.constants.reverse.flatMap constantBytes))
    (stack : List Completed) :
    ∃ trace, (constants body.constants.length stack w pos).Serves
      (Progress.extendAll? { stack } (body.constants.reverse.map asWritten))
      (pos + (body.constants.reverse.flatMap constantBytes).length) trace := by
  obtain ⟨-, -, -, -, hsize⟩ := counts_lt h hbody
  have hvalues : ∀ value ∈ body.constants.reverse,
      writtenConstant.Reads (constantBytes value) (asWritten value) := by
    intro value hvalue
    have hlength : (constantBytes value).length ≤ _ := length_le_flatMap_of_mem hvalue
    exact reads_writtenConstant (hbody.constants value (List.mem_reverse.mp hvalue))
      (Nat.le_trans hlength hsize)
  obtain ⟨trace, hserves⟩ := foldConstants_serves_of_reads hvalues hw hholds 0
  have hcount : body.constants.reverse.length ≤ _ :=
    length_le_flatMap fun value _ => length_constantBytes_pos value
  have hinside := hholds.inside
  rw [List.length_reverse] at hcount hserves
  have hcheck : checkCount body.constants.length w pos = .done () pos [] := by
    rw [checkCount, if_pos (by simp only [Window.remaining]; omega)]
  refine ⟨trace, serves_within ?_⟩
  rw [bind_of_done hcheck]
  exact (hserves { stack }).after []

/-- The fields of a function are read back with every stack. -/
theorem fields_serves_of_holds {body : Body} (hbody : Recordable h body)
    (hnumbers : NumbersChildren body) {w : Window} (hw : w.Sound) {pos : Int}
    (hholds : w.Holds pos (fieldsBytes h body)) {stack : List Completed} {limit : Int}
    (hheight : heightOver (stack.take (childCount body)) ≤ limit) :
    ∃ trace, (fields h limit stack w pos).Serves (complete? { body with name := [] } stack)
      (pos + (fieldsBytes h body).length) trace := by
  have hwritten : ∀ entry ∈ body.constants.reverse.map asWritten, ∀ value ∈ entry,
      Constant.protoIndex? value = none := by
    intro entry hentry value hvalue
    obtain ⟨constant, -, rfl⟩ := List.mem_map.mp hentry
    exact protoIndex?_of_mem_asWritten hvalue
  -- The parts of the record one behind the other.
  have hconstants := hholds.right
  have hnumeric := hconstants.right
  have hdebug := hnumeric.right
  obtain ⟨headTrace, hhead⟩ := reads_recordHead h hbody w pos hw hholds.left
  obtain ⟨constantTrace, hconstants⟩ := constants_serves_of_holds h hbody hw hconstants.left stack
  have hnumbersRead : (labelledItems "number" body.numConstants.length number).Reads
      (body.numConstants.flatMap numberBytes) body.numConstants :=
    reads_labelledItems rfl (fun value _ => length_numberBytes_pos value) fun value hvalue =>
      reads_number (hbody.numConstants value hvalue)
  obtain ⟨numberTrace, hnumeric⟩ :=
    hnumbersRead.named "count numeric_constants" w _ hw hnumeric.left
  obtain ⟨infoTrace, hinfo⟩ := reads_debugBlock h hbody w _ hw hdebug
  rw [← numUpvalues_byte h hbody] at hinfo
  have hbodies := body_headOf h hbody
  have hcount := childCount_body hwritten (headOf h body) body.numConstants (infoOf body)
  rw [numbered_reverse hnumbers, hbodies] at hcount
  have hfields := fields_serves_of_parts hwritten hhead hconstants hnumeric hinfo
    (hcount ▸ hheight)
  rw [numbered_reverse hnumbers, hbodies] at hfields
  have hlength : pos + ((fieldsBytes h body).length : Int) =
      pos + (headBytes h body).length + (body.constants.reverse.flatMap constantBytes).length +
        (body.numConstants.flatMap numberBytes).length + (debugBytes h body).length := by
    simp only [fieldsBytes, List.length_append]
    omega
  rw [hlength]
  exact ⟨_, hfields⟩

/-- A record is read back with every stack. -/
theorem record_serves_of_holds {body : Body} (hbody : Recordable h body)
    (hnumbers : NumbersChildren body) {w : Window} (hw : w.Sound) {pos : Int}
    (hholds : w.Holds pos (recordBytes h body)) {stack : List Completed} {limit : Int}
    (hheight : heightOver (stack.take (childCount body)) ≤ limit) :
    ∃ trace, (record h limit stack w pos).Serves
      ((complete? { body with name := [] } stack).map fun (completed, rest) =>
        some (completed :: rest))
      (pos + (recordBytes h body).length) trace := by
  rw [recordBytes] at hholds
  obtain ⟨sizeTrace, hsize⟩ := reads_varint hbody.size w pos hw hholds.left
  have hright := hholds.right
  have hnonneg := hright.nonneg
  obtain ⟨fieldsTrace, hfields⟩ := fields_serves_of_holds h hbody hnumbers
    (hw.narrow (by omega) hright.inside) hright.narrow hheight
  have hnonzero : (fieldsBytes h body).length ≠ 0 := by
    simp [fieldsBytes, headBytes]
  refine ⟨sizeTrace ++ fieldsTrace, ?_⟩
  rw [recordBytes, List.length_append, Int.natCast_add, ← Int.add_assoc]
  exact record_serves_of_fields hsize hnonzero hright.inside hfields

end Function

end LuaDump.Jit
