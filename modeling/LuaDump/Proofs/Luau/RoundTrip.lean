import LuaDump.Proofs.Luau.Table
import LuaDump.Proofs.Reading.File

/-! # Luau dumps are read back

Every part of a dump is read back from its bytes. The invariant of the loop over the
functions is that the table is `tableOf` of the functions so far, with the children of these
functions claimed.
-/

namespace LuaDump.Luau

open Decoder

section Function

variable {strings : List Bytes} (hstrings : strings.length < 2 ^ 32)

include hstrings in
theorem reads_stringRef {value : Bytes} (hvalue : Listed strings value) :
    (stringRef strings.toArray).Reads (refBytes strings value) value := by
  refine .position_bind fun offset => ?_
  unfold refBytes
  by_cases hempty : value = []
  · rw [if_pos hempty, hempty]
    exact (reads_varint (by decide : 0 < 2 ^ 32)).bind_nil (.pure [])
  · have hindex := List.idxOf_lt_length_of_mem (hvalue.resolve_left hempty)
    rw [if_neg hempty]
    refine (reads_varint (by omega : strings.idxOf value + 1 < 2 ^ 32)).bind_nil ?_
    rw [if_neg (by omega), Nat.add_sub_cancel, List.getElem?_toArray,
      List.getElem?_eq_getElem hindex, List.getElem_idxOf]
    exact .pure value

theorem reads_tableKey {earlier : List Constant} {key : Nat} (hkey : key < earlier.length)
    (hsize : earlier.length < 2 ^ 32) :
    (tableKey earlier.toArray).Reads (Bytes.lowGroups key)
      (earlier.getD key .nil, .integer 0) := by
  refine .position_bind fun offset => (reads_varint (by omega : key < 2 ^ 32)).bind_nil ?_
  rw [List.getElem?_toArray, List.getElem?_eq_getElem hkey, List.getD_eq_getElem?_getD,
    List.getElem?_eq_getElem hkey]
  exact .pure _

theorem rawConstants_snoc (numbers : List Nat) (earlier : List Constant) (slots : List Slot)
    (slot : Slot) :
    rawConstants numbers earlier (slots ++ [slot]) =
      rawConstants numbers earlier slots ++
        [slot.raw numbers (earlier ++ rawConstants numbers earlier slots)] := by
  induction slots generalizing earlier with
  | nil => simp [rawConstants]
  | cons first rest ih => simp [rawConstants, ih]

@[simp] theorem length_rawConstants (numbers : List Nat) (earlier : List Constant)
    (slots : List Slot) : (rawConstants numbers earlier slots).length = slots.length := by
  induction slots generalizing earlier with
  | nil => rfl
  | cons first rest ih => simp [rawConstants, ih]

theorem length_slotBytes_pos (strings : List Bytes) (numbers : List Nat) (slot : Slot) :
    1 ≤ (slotBytes strings numbers slot).length := by
  cases slot <;> simp [slotBytes]

include hstrings in
theorem reads_constant {numbers : List Nat} {earlier : List Constant} {slot : Slot}
    {childCount : Nat} (hslot : slot.Fits strings childCount earlier.length)
    (hsize : earlier.length < 2 ^ 32) (hnumbers : ∀ number ∈ numbers, number < 2 ^ 32) :
    (constant strings.toArray earlier.toArray).Reads (slotBytes strings numbers slot)
      (slot.raw numbers earlier) := by
  refine .position_bind fun offset => ?_
  cases slot with
  | nil => exact (reads_nextByte 0).bind_nil (.pure _)
  | boolean value =>
      cases value
      · exact (reads_nextByte 1).bind (reads_nextByte 0).map
      · exact (reads_nextByte 1).bind (reads_nextByte 1).map
  | number value => exact (reads_nextByte 2).bind (reads_float false value).map
  | string value => exact (reads_nextByte 3).bind (reads_stringRef hstrings hslot).map
  | importPath id =>
      exact (reads_nextByte 4).bind (reads_unsigned false rfl (by decide) id.toNat_lt).map
  | table keys =>
      have hkeys := reads_collect_map (fun _ key hkey => reads_tableKey (hslot.2 key hkey) hsize) 0
      exact (reads_nextByte 5).bind ((reads_varint hslot.1).bind hkeys.map)
  | closure child =>
      have hnumber : numbers.getD child 0 < 2 ^ 32 := by
        rw [List.getD_eq_getElem?_getD]
        cases hchild : numbers[child]? with
        | none => decide
        | some number => exact hnumbers number (List.mem_of_getElem? hchild)
      exact (reads_nextByte 6).bind (reads_varint hnumber).map
  | vector x y z w =>
      have hsingle : ∀ value ∈ [x, y, z, w], value.IsSingle := by simpa [Slot.Fits] using hslot
      exact (reads_nextByte 7).bind
        (reads_collect (fun _ value hvalue => reads_single (hsingle value hvalue)) 0).map

include hstrings in
theorem reads_constants {numbers : List Nat} {slots : List Slot} {childCount : Nat}
    (hslots : ∀ entry ∈ slots.zipIdx, entry.1.Fits strings childCount entry.2)
    (hsize : slots.length < 2 ^ 32) (hnumbers : ∀ number ∈ numbers, number < 2 ^ 32) :
    (constants strings.toArray).Reads
      (Bytes.lowGroups slots.length ++ slots.flatMap (slotBytes strings numbers))
      (rawConstants numbers [] slots) := by
  have hlength := length_le_flatMap fun slot (_ : slot ∈ slots) =>
    length_slotBytes_pos strings numbers slot
  apply Reads.named
  refine (reads_varint hsize).bind (.checkCount_bind (by omega) ?_)
  refine (reads_fold (fun earlier => (rawConstants numbers [] earlier).toArray) ?_).map
  intro earlier slot later hsplit
  have hslot : slot.Fits strings childCount earlier.length :=
    hslots (slot, earlier.length) (List.mem_zipIdx_iff_getElem?.mpr (by simp [hsplit]))
  have hearlier : earlier.length < 2 ^ 32 := by
    rw [hsplit, List.length_append] at hsize
    omega
  rw [← length_rawConstants numbers [] earlier] at hslot hearlier
  rw [rawConstants_snoc, ← List.push_toArray]
  exact (reads_constant hstrings hslot hearlier hnumbers).map.within _

theorem linkConstant_raw {numbers : List Nat} (hnodup : numbers.Nodup) {slot : Slot}
    {index : Nat} (hslot : slot.Fits strings numbers.length index) (place : Nat)
    (earlier : List Constant) :
    linkConstant numbers place (slot.raw numbers earlier) =
      pure (slot.link (slot.raw numbers earlier)) := by
  cases slot with
  | closure child =>
      have hchild : child < numbers.length := hslot
      have hget : numbers.getD child 0 = numbers[child] := by
        rw [List.getD_eq_getElem?_getD, List.getElem?_eq_getElem hchild, Option.getD_some]
      -- The numbers are distinct, so no child before it has the same number.
      have hindex : childIndex? numbers (numbers.getD child 0 : Nat) = some child := by
        rw [childIndex?, List.findIdx?_eq_some_iff_getElem, hget]
        refine ⟨hchild, by simp, fun other hother => ?_⟩
        have hdistinct := List.pairwise_iff_getElem.mp hnodup other child (by omega) hchild hother
        rw [beq_iff_eq]
        omega
      simp only [Slot.raw, linkConstant, hindex, Slot.link]
  | _ => rfl

theorem linkConstants_raw {numbers : List Nat} (hnodup : numbers.Nodup) {slots : List Slot}
    (hslots : ∀ slot ∈ slots, ∃ index, slot.Fits strings numbers.length index) (place : Nat)
    (earlier : List Constant) :
    linkConstants numbers place (rawConstants numbers earlier slots) =
      pure (slots.zipWith (fun slot constant => slot.link constant)
        (rawConstants numbers earlier slots)) := by
  induction slots generalizing place earlier with
  | nil => rfl
  | cons slot rest ih =>
      obtain ⟨⟨index, hslot⟩, hrest⟩ := List.forall_mem_cons.mp hslots
      rw [rawConstants, linkConstants, linkConstant_raw hnodup hslot, pure_bind, ih hrest,
        pure_bind, List.zipWith_cons_cons]

theorem reads_takeChildren {earlier children : List Node} {claimed : List Nat}
    (hnumbers : ∀ (index : Nat) (node : Node), earlier[index]? = some node → node.number = index)
    (hfound : ∀ child ∈ children, earlier[child.number]? = some child)
    (hnodup : (children.map (·.number)).Nodup)
    (hfree : ∀ child ∈ children, child.number ∉ claimed)
    (hsize : earlier.length < 2 ^ 32) (hcount : children.length < 2 ^ 32) :
    (takeChildren (tableOf earlier claimed)).Reads
      (Bytes.lowGroups children.length ++
        children.flatMap fun child => Bytes.lowGroups child.number)
      (tableOf earlier (claimed ++ children.map (·.number)), children.map Child.of) := by
  have hlength := length_le_flatMap fun child (_ : child ∈ children) =>
    Bytes.length_lowGroups_pos child.number
  apply Reads.named
  refine (reads_varint hcount).bind (.checkCount_bind (by omega) ?_)
  have hstart : (tableOf earlier claimed, ([] : List Child)) =
      (tableOf earlier (claimed ++ ([] : List Node).map (·.number)),
        ([] : List Node).map Child.of) := by
    simp
  rw [hstart]
  refine reads_fold
    (fun taken => (tableOf earlier (claimed ++ taken.map (·.number)), taken.map Child.of)) ?_
  intro taken child later hsplit
  have hchild : child ∈ children := by simp [hsplit]
  have hget := hfound child hchild
  have hbound := (List.getElem?_eq_some_iff.mp hget).1
  -- Neither an earlier function nor an earlier sibling has taken the child.
  have huntaken : child.number ∉ claimed ++ taken.map (·.number) := by
    rw [hsplit, List.map_append, List.map_cons] at hnodup
    rw [List.mem_append, not_or]
    refine ⟨hfree child hchild, fun htaken => ?_⟩
    exact (List.nodup_append.mp hnodup).2.2 _ htaken _ (List.mem_cons_self ..) rfl
  refine .position_bind fun offset => (reads_varint (by omega)).bind_nil ?_
  rw [get?_tableOf hget huntaken, setIfInBounds_tableOf hnumbers, List.append_assoc,
    List.map_append, List.map_append]
  exact .pure _

theorem reads_byte (b : UInt8) : byte.Reads [b] (b.toNat : Int) :=
  (reads_nextByte b).map

theorem reads_count {n : Nat} (hn : n < 2 ^ 32) : count.Reads (Bytes.lowGroups n) (n : Int) :=
  (reads_varint hn).map

theorem reads_typeBlock {h : Header} {version : UInt8} {node : Node}
    (hnode : node.Fits strings version) (hversion : h.formatVersion = version.toNat) :
    (typeBlock h).Reads (typeBytes version node.source)
      ((node.source.flags.toNat : Int), node.source.typeInfo) := by
  unfold typeBlock typeBytes
  by_cases hold : version < 4
  · have hlt : version.toNat < 4 := hold
    obtain ⟨hflags, hinfo⟩ := hnode.types hold
    rw [if_pos hold, if_pos (by omega), hflags, hinfo]
    exact .pure _
  · have hle : 4 ≤ version.toNat := Nat.not_lt.mp hold
    rw [if_neg hold, if_neg (by omega)]
    refine (reads_byte _).bind (Reads.map (.named _ ?_))
    exact (reads_varint hnode.typeInfo).bind (reads_take rfl)

theorem intervalCount_eq (instructionCount gap : Nat) :
    intervalCount instructionCount gap = (instructionCount + 2 ^ gap - 1) / 2 ^ gap := by
  have hpos : 0 < 2 ^ gap := Nat.two_pow_pos gap
  rw [intervalCount, Nat.pow_eq]
  split
  next hzero => rw [hzero, Nat.zero_add, Nat.div_eq_of_lt (by omega)]
  next hsome =>
    have hshift : instructionCount + 2 ^ gap - 1 = instructionCount - 1 + 2 ^ gap := by omega
    rw [hshift, Nat.add_div_right _ hpos]

theorem sourceLines_snoc (gap : Nat) (deltas : List Int) (delta : Int) :
    sourceLines gap (deltas ++ [delta]) =
      sourceLines gap deltas ++
        [(((deltas.length * 2 ^ gap : Nat) : Int), deltas.sum + delta)] := by
  have hbefore : ∀ index ∈ List.range deltas.length,
      (deltas ++ [delta]).take (index + 1) = deltas.take (index + 1) := fun index hindex =>
    List.take_append_of_le_length (List.mem_range.mp hindex)
  have hall : (deltas ++ [delta]).take (deltas.length + 1) = deltas ++ [delta] :=
    List.take_of_length_le (by simp)
  rw [sourceLines, List.length_append, List.length_singleton, List.range_succ, List.map_append,
    List.map_singleton, hall, List.sum_append]
  congr 1
  · exact List.map_congr_left fun index hindex => by rw [hbefore index hindex]
  · simp

/-- Behind each interval the state has its line, and the lines so far from last to first. -/
theorem reads_intervals (gap : Nat) {deltas : List Int}
    (hdeltas : ∀ delta ∈ deltas, -2 ^ 31 ≤ delta ∧ delta < 2 ^ 31) :
    (fold (nextInterval gap) deltas.length 0 (0, [])).Reads
      (deltas.flatMap fun delta => Bytes.ofNat false 4 (twosComplement 32 delta))
      (deltas.sum, (sourceLines gap deltas).reverse) := by
  refine reads_fold (fun earlier => (earlier.sum, (sourceLines gap earlier).reverse)) ?_
  intro earlier delta later hsplit
  obtain ⟨hlow, hhigh⟩ := hdeltas delta (by simp [hsplit])
  refine (reads_signed false rfl (by decide) (by decide : 4 * 8 = 31 + 1) hlow hhigh).bind_nil ?_
  rw [sourceLines_snoc, List.reverse_append, List.sum_append, List.sum_singleton]
  exact .pure _

theorem reads_lineTable {instructionCount : Nat} {lines : Lines}
    (hlines : lines.Fits instructionCount) :
    (lineTable instructionCount).Reads
      ([lines.gap] ++ (lines.entries.flatMap (fun entry => [entry]) ++
        lines.deltas.flatMap fun delta => Bytes.ofNat false 4 (twosComplement 32 delta)))
      (lines.entries.map fun entry => (entry.toNat : Int),
        sourceLines lines.gap.toNat lines.deltas) := by
  have hentries : (items instructionCount byte).Reads
      (lines.entries.flatMap fun entry => [entry])
      (lines.entries.map fun entry => (entry.toNat : Int)) :=
    reads_items_map (by rw [hlines.entries]) (fun _ _ => Nat.le_refl 1) fun b _ => reads_byte b
  have hintervals := reads_intervals lines.gap.toNat hlines.deltas
  rw [hlines.intervals, ← intervalCount_eq] at hintervals
  refine .named _ ((reads_nextByte _).bind (hentries.bind (hintervals.bind_nil ?_)))
  simp only [List.reverse_reverse]
  exact .pure _

include hstrings in
theorem reads_localVariable {entry : Local} (hentry : LocalFits strings entry) :
    (localVariable strings.toArray).Reads (localBytes strings entry) entry := by
  obtain ⟨hname, hstart, hend, hregister⟩ := hentry
  have hstartPc := reads_count (by omega : entry.startPc.toNat < 2 ^ 32)
  have hendPc := reads_count (by omega : entry.endPc.toNat < 2 ^ 32)
  have hbyte := reads_byte (UInt8.ofNat entry.register.toNat)
  have hlast : (((UInt8.ofNat entry.register.toNat).toNat : Nat) : Int) = entry.register := by
    rw [UInt8.toNat_ofNat']
    omega
  rw [Int.toNat_of_nonneg hstart.1] at hstartPc
  rw [Int.toNat_of_nonneg hend.1] at hendPc
  rw [hlast] at hbyte
  exact (reads_stringRef hstrings hname).bind (hstartPc.bind (hendPc.bind hbyte.map))

theorem length_refBytes_pos (strings : List Bytes) (value : Bytes) :
    1 ≤ (refBytes strings value).length :=
  Bytes.length_lowGroups_pos _

theorem length_localBytes_pos (strings : List Bytes) (entry : Local) :
    1 ≤ (localBytes strings entry).length := by
  have hname := length_refBytes_pos strings entry.name
  rw [localBytes, List.length_append]
  omega

theorem reads_counted {α γ : Type} {label : String} {item : Decoder α} {write : γ → Bytes}
    {found : γ → α} {sources : List γ} (hsize : sources.length < 2 ^ 32)
    (hwrite : ∀ source ∈ sources, 1 ≤ (write source).length)
    (hitem : ∀ source ∈ sources, item.Reads (write source) (found source)) :
    (counted label count item).Reads (Bytes.lowGroups sources.length ++ sources.flatMap write)
      (sources.map found) :=
  .named _ ((reads_count hsize).bind (reads_items_map rfl hwrite hitem))

include hstrings in
theorem reads_debugTable {names : Names} (hnames : names.Fits strings) :
    (debugTable strings.toArray).Reads
      (Bytes.lowGroups names.locals.length ++ names.locals.flatMap (localBytes strings) ++
        (Bytes.lowGroups names.upvalueNames.length ++
          names.upvalueNames.flatMap (refBytes strings)))
      (names.locals, names.upvalueNames) := by
  have hlocals : (counted "count locals" count (localVariable strings.toArray)).Reads _ _ :=
    reads_counted hnames.locals_length (fun entry _ => length_localBytes_pos strings entry)
      fun entry hentry => reads_localVariable hstrings (hnames.locals entry hentry)
  have hupvalues : (counted "count upval names" count (stringRef strings.toArray)).Reads _ _ :=
    reads_counted hnames.upvalueNames_length (fun name _ => length_refBytes_pos strings name)
      fun name hname => reads_stringRef hstrings (hnames.upvalueNames name hname)
  rw [List.map_id'] at hlocals hupvalues
  exact .named _ (hlocals.bind hupvalues.map)

theorem reads_optionalPart {α : Type} (absent : α) {part : Decoder α} {bytes : Bytes} {value : α}
    (hpart : part.Reads bytes value) : (optionalPart absent part).Reads ([1] ++ bytes) value :=
  (reads_nextByte 1).bind hpart

theorem reads_absentPart {α : Type} (absent : α) (part : Decoder α) :
    (optionalPart absent part).Reads [0] absent :=
  (reads_nextByte 0).bind_nil (.pure absent)

theorem reads_lines {instructionCount : Nat} {lines? : Option Lines}
    (hlines : ∀ lines ∈ lines?, lines.Fits instructionCount) :
    (optionalPart ([], []) (lineTable instructionCount)).Reads (linesBytes lines?)
      (lines?.elim [] fun lines => lines.entries.map fun entry => (entry.toNat : Int),
        lines?.elim [] fun lines => sourceLines lines.gap.toNat lines.deltas) := by
  cases lines? with
  | none => exact reads_absentPart _ _
  | some lines => exact reads_optionalPart _ (reads_lineTable (hlines lines rfl))

include hstrings in
theorem reads_names {names? : Option Names}
    (hnames : ∀ names ∈ names?, names.Fits strings) :
    (optionalPart ([], []) (debugTable strings.toArray)).Reads (namesBytes strings names?)
      (names?.elim [] Names.locals, names?.elim [] Names.upvalueNames) := by
  cases names? with
  | none => exact reads_absentPart _ _
  | some names => exact reads_optionalPart _ (reads_debugTable hstrings (hnames names rfl))

theorem reads_instruction (word : UInt32) :
    instruction.Reads (Bytes.ofNat false 4 word.toNat) (word.toNat : Int) :=
  (reads_unsigned false rfl (by decide) word.toNat_lt).map

end Function

section Functions

variable {strings : List Bytes} {version : UInt8} {h : Header} {maxDepth : Int}
  {order earlier later : List Node} {main node : Node}

theorem reads_children (hordered : Ordered order main) (hsize : order.length < 2 ^ 32)
    (hsplit : order = earlier ++ node :: later) :
    (takeChildren (tableOf earlier (earlier.flatMap Node.childNumbers))).Reads
      (Bytes.lowGroups node.children.length ++
        node.children.flatMap fun child => Bytes.lowGroups child.number)
      (tableOf earlier ((earlier ++ [node]).flatMap Node.childNumbers),
        node.children.map Child.of) := by
  obtain ⟨hnodup, hfree⟩ := hordered.unclaimed hsplit
  have hlength : earlier.length < order.length := by simp [hsplit]
  have hcount := hordered.length_children_lt hsplit
  rw [List.flatMap_append, List.flatMap_singleton]
  exact reads_takeChildren (fun _ _ => hordered.number_of_earlier hsplit)
    (fun _ => hordered.getElem?_child hsplit) hnodup
    (fun child hchild => hfree _ (List.mem_map_of_mem hchild)) (by omega) (by omega)

theorem link_constants (hnode : node.Fits strings version) (hnodup : node.childNumbers.Nodup) :
    (linkConstants ((node.children.map Child.of).map (·.number)) 0
        (rawConstants node.childNumbers [] node.source.slots)).Reads []
      node.prototype.body.constants := by
  have hnumbers : (node.children.map Child.of).map (·.number) = node.childNumbers := by
    rw [List.map_map]
    rfl
  have hslots : ∀ slot ∈ node.source.slots, ∃ index,
      slot.Fits strings node.childNumbers.length index := by
    intro slot hslot
    obtain ⟨index, hindex⟩ := List.mem_iff_getElem?.mp hslot
    have hfits := hnode.slots (slot, index) (List.mem_zipIdx_iff_getElem?.mpr hindex)
    exact ⟨index, by simpa [Node.childNumbers] using hfits⟩
  rw [hnumbers, linkConstants_raw hnodup hslots, Node.prototype_eq]
  exact .pure _

theorem reads_record (hstrings : strings.length < 2 ^ 32)
    (hversion : h.formatVersion = version.toNat) (hordered : Ordered order main)
    (hsize : order.length < 2 ^ 32) (hsplit : order = earlier ++ node :: later)
    (hnode : node.Fits strings version) (hdepth : (node.prototype.height : Int) ≤ maxDepth) :
    (record h strings.toArray maxDepth
        (tableOf earlier (earlier.flatMap Node.childNumbers))).Reads
      (recordBytes strings version node)
      (.of node, tableOf earlier ((earlier ++ [node]).flatMap Node.childNumbers)) := by
  have hlength : earlier.length < order.length := by simp [hsplit]
  have hbounds : ∀ number ∈ node.childNumbers, number < 2 ^ 32 := by
    intro number hnumber
    have hlt := hordered.childNumber_lt hsplit hnumber
    omega
  have hheight : node.prototype.height = heightOver (node.children.map Child.of) := by
    rw [heightOver_of, Node.prototype_eq, Prototype.height]
  have hwords : ∀ word ∈ node.source.instructions,
      1 ≤ (Bytes.ofNat false 4 word.toNat).length := by simp
  unfold record recordBytes
  refine (reads_byte _).bind ((reads_byte _).bind ((reads_byte _).bind ?_))
  refine (reads_nextByte _).bind ?_
  refine (reads_typeBlock hnode hversion).bind ?_
  refine (reads_counted hnode.instructions hwords fun word _ => reads_instruction word).bind ?_
  refine (reads_constants hstrings hnode.slots hnode.slots_length hbounds).bind ?_
  -- The constants come before the children, and are linked to them afterwards.
  refine (reads_children hordered hsize hsplit).bind ?_
  refine (link_constants hnode (hordered.unclaimed hsplit).1).nil_bind ?_
  dsimp only
  rw [← hheight, if_neg (by omega)]
  refine (reads_count node.source.lineDefined.toNat_lt).bind ?_
  refine (reads_stringRef hstrings hnode.name).bind (.emit_bind ?_)
  rw [List.length_map]
  refine (reads_lines hnode.lines).bind ((reads_names hstrings hnode.names).bind_nil ?_)
  rw [Entry.of, Node.prototype_eq, List.map_map]
  exact .pure _

theorem reads_records (hstrings : strings.length < 2 ^ 32)
    (hversion : h.formatVersion = version.toNat) (hordered : Ordered order main)
    (hsize : order.length < 2 ^ 32) (hnodes : ∀ node ∈ order, node.Fits strings version)
    (hdepth : (main.prototype.height : Int) ≤ maxDepth) :
    (fold (nextRecord h strings.toArray maxDepth) order.length 0 #[]).Reads
      (order.flatMap (recordBytes strings version))
      (tableOf order (order.flatMap Node.childNumbers)) := by
  refine reads_fold (fun earlier => tableOf earlier (earlier.flatMap Node.childNumbers)) ?_
  intro earlier node later hsplit
  have hmem : node ∈ order := by simp [hsplit]
  -- No function is higher than the main one.
  have hheight := Node.height_le_of_mem_nodes main (hordered.perm.mem_iff.mp hmem)
  have hrecord : (record h strings.toArray maxDepth _).Reads _ _ :=
    reads_record hstrings hversion hordered hsize hsplit (hnodes node hmem) (by omega)
  rw [← push_tableOf (hordered.number_not_mem hsplit)]
  exact hrecord.map.within _

theorem reads_mainEntry (hordered : Ordered order main) (hsize : order.length < 2 ^ 32) :
    (mainEntry (tableOf order (order.flatMap Node.childNumbers))).Reads
      (Bytes.lowGroups main.number) main.prototype := by
  have hget := hordered.getElem?_number hordered.main_mem
  have hbound := (List.getElem?_eq_some_iff.mp hget).1
  refine .position_bind fun offset => (reads_varint (by omega)).bind_nil ?_
  rw [get?_tableOf hget (List.nodup_cons.mp hordered.nodup).1]
  exact .pure _

end Functions

section File

variable {dump : Dump} {maxDepth : Int}

theorem reads_stringTable (hdump : dump.Fits) :
    stringTable.Reads dump.stringTableBytes dump.strings.toArray := by
  refine .named _ ((reads_varint hdump.strings_length).bind (Reads.map ?_))
  refine reads_labelledItems rfl (fun value _ => ?_) fun value hvalue =>
    (reads_varint (hdump.strings value hvalue)).bind (reads_take rfl)
  have hlength := Bytes.length_lowGroups_pos value.length
  rw [List.length_append]
  omega

theorem reads_userdataLoop {strings : List Bytes} (hstrings : strings.length < 2 ^ 32)
    {userdata : List (UInt8 × Bytes)}
    (huserdata : ∀ entry ∈ userdata, entry.1 ≠ 0 ∧ Listed strings entry.2) :
    (iterate (userdataStep strings.toArray) ()).Reads
      (userdata.flatMap (fun entry => [entry.1] ++ refBytes strings entry.2) ++ [0]) () := by
  induction userdata with
  | nil =>
      exact .iterate_last (settles_userdataStep _) ((reads_nextByte 0).bind_nil (.pure _))
  | cons entry rest ih =>
      obtain ⟨⟨hindex, hname⟩, hrest⟩ := List.forall_mem_cons.mp huserdata
      have hstep : (userdataStep strings.toArray ()).Reads
          ([entry.1] ++ refBytes strings entry.2) (.inl ()) := by
        refine (reads_nextByte entry.1).bind ?_
        rw [if_neg hindex]
        exact (reads_stringRef hstrings hname).map
      rw [List.flatMap_cons, List.append_assoc]
      exact .iterate_next (settles_userdataStep _) hstep (ih hrest)

theorem reads_userdataTypes (hdump : dump.Fits) :
    (userdataTypes dump.header dump.strings.toArray).Reads dump.userdataBytes () := by
  unfold userdataTypes Dump.userdataBytes
  by_cases htypes : dump.typesVersion = 3
  · rw [if_pos htypes, if_pos (by simp [Dump.header, htypes])]
    exact .named _ (reads_userdataLoop hdump.strings_length hdump.userdata)
  · have hheader : dump.header.typesVersion ≠ 3 := by
      intro heq
      exact htypes (UInt8.toNat_inj.mp (Int.ofNat_inj.mp heq))
    rw [if_neg htypes, if_neg hheader]
    exact .pure _

theorem length_recordBytes_pos (strings : List Bytes) (version : UInt8) (node : Node) :
    1 ≤ (recordBytes strings version node).length := by
  simp [recordBytes]

theorem reads_main (hdump : dump.Fits) (hdepth : (dump.main.prototype.height : Int) ≤ maxDepth) :
    (main dump.header maxDepth).Reads
      (dump.stringTableBytes ++ (dump.userdataBytes ++ (Bytes.lowGroups dump.order.length ++
        (dump.order.flatMap (recordBytes dump.strings dump.version) ++
          Bytes.lowGroups dump.main.number)))) dump.main.prototype := by
  have hcount := length_le_flatMap fun node (_ : node ∈ dump.order) =>
    length_recordBytes_pos dump.strings dump.version node
  refine .named _ ((reads_stringTable hdump).bind (.emit_bind ?_))
  refine (reads_userdataTypes hdump).bind ((reads_varint hdump.order_length).bind ?_)
  refine .emit_bind (.checkCount_bind ?_ ?_)
  · rw [List.length_append]
    omega
  · exact (reads_records hdump.strings_length rfl hdump.ordered hdump.order_length hdump.nodes
      hdepth).bind (reads_mainEntry hdump.ordered hdump.order_length)

theorem not_outside {low high n : UInt8} (hlow : low ≤ n) (hhigh : n ≤ high) :
    ¬ (decide (n < low) || decide (high < n)) = true := by
  simp [UInt8.not_lt.mpr hlow, UInt8.not_lt.mpr hhigh]

theorem reads_header (hdump : dump.Fits) : Header.luau.Reads dump.headerBytes dump.header := by
  obtain ⟨hlow, hhigh⟩ := hdump.version
  have hsome : dump.version ≠ 0 := by
    intro hzero
    rw [hzero] at hlow
    exact absurd hlow (by decide)
  have hversions : Header.luauVersions.Reads dump.headerBytes
      (dump.version.toNat, dump.typesVersion.toNat) := by
    refine .position_bind fun offset => ?_
    unfold Dump.headerBytes Dump.typesVersion
    by_cases hold : dump.version < 4
    · rw [if_pos hold, if_pos hold]
      refine (reads_nextByte _).bind_nil ?_
      rw [if_neg hsome, if_neg (not_outside hlow hhigh), if_pos hold]
      exact .pure _
    · obtain ⟨hfirst, hlast⟩ := hdump.types (UInt8.not_lt.mp hold)
      rw [if_neg hold, if_neg hold]
      refine (reads_nextByte _).bind ?_
      rw [if_neg hsome, if_neg (not_outside hlow hhigh), if_neg hold]
      refine .position_bind fun offset => (reads_nextByte _).bind_nil ?_
      rw [if_neg (not_outside hfirst hlast)]
      exact .pure _
  exact (hversions.named _).bind_nil (.emit_bind (.pure _))

/-- Decoding undoes writing: a dump is decoded to its header and the tree of its main function
if the tree may be as deep as it is, and the bytes behind the dump are not read. In the tree, a
function constant is the index of a child, except for one that is a key of a table: it keeps the
number of the child in the file. -/
theorem decode_dump (hdump : dump.Fits) (hdepth : (dump.main.prototype.height : Int) ≤ maxDepth)
    (trailing : Bytes) :
    ∃ trace, decode { origin := .luau, maxDepth } (dump.bytes ++ trailing).toArray =
      .done ⟨dump.header, dump.main.prototype⟩ dump.bytes.length trace := by
  have hheader : (Options.origin { origin := .luau, maxDepth }).header.Reads _ _ :=
    reads_header hdump
  exact decode_of_reads hheader (reads_main hdump hdepth) List.not_mem_nil trailing

end File

/-- A dump of four functions with slots of every kind. The function that is a key of a table has
another number in the file than its index among the children. -/
def sampleDump : Dump :=
  let leaf : Node := ⟨0, { name := [0x61], maxStack := 1, flags := 3, typeInfo := [1, 2] }, []⟩
  let inner : Node := ⟨1, { variadic := 1, slots := [.closure 0] }, [leaf]⟩
  let lined : Node :=
    ⟨2, { instructions := [5, 6, 7], lines := some ⟨1, [0, 1, 2], [10, -3]⟩ }, []⟩
  let main : Node :=
    { number := 3
      source :=
        { lineDefined := 300, name := [0x62]
          slots :=
            [.nil, .boolean true, .number ⟨0xFFF0000000000000⟩, .string [0x62], .string [],
              .importPath 0xC0000000, .closure 1, .closure 0,
              .vector ⟨0⟩ ⟨0x3FF8000000000000⟩ ⟨0x36A0000000000000⟩ ⟨0x7FF8000000000000⟩,
              .table [3, 7, 0], .table [9]]
          names := some ⟨[⟨[0x61], 1, 200, 255⟩], [[0x62], []]⟩ }
      children := [lined, inner] }
  { version := 6, types := 3, strings := [[0x61], [0x62]]
    userdata := [(7, [0x61]), (1, [])], order := [leaf, inner, lined, main], main }

theorem ordered_sampleDump : Ordered sampleDump.order sampleDump.main where
  perm := List.reverse_perm sampleDump.main.nodes
  numbers := rfl
  children := by simp [sampleDump]

theorem fits_sampleDump : sampleDump.Fits where
  version := by decide
  types := by decide
  strings_length := by decide
  strings := by decide
  userdata := by simp [sampleDump, Listed]
  ordered := ordered_sampleDump
  order_length := by decide
  nodes := by
    have hlines : Lines.Fits 3 ⟨1, [0, 1, 2], [10, -3]⟩ := ⟨rfl, rfl, by decide⟩
    have hlocal : LocalFits [[0x61], [0x62]] ⟨[0x61], 1, 200, 255⟩ :=
      ⟨by simp [Listed], by decide, by decide, by decide⟩
    have hnames : Names.Fits [[0x61], [0x62]] ⟨[⟨[0x61], 1, 200, 255⟩], [[0x62], []]⟩ :=
      ⟨by decide, by simpa using hlocal, by decide, by simp [Listed]⟩
    have hsingle : Binary64.IsSingle ⟨0⟩ ∧ Binary64.IsSingle ⟨0x3FF8000000000000⟩ ∧
        Binary64.IsSingle ⟨0x36A0000000000000⟩ ∧ Binary64.IsSingle ⟨0x7FF8000000000000⟩ := by
      simp only [Binary64.IsSingle]
      decide
    intro node hnode
    simp only [sampleDump, List.mem_cons, List.not_mem_nil, or_false] at hnode
    rcases hnode with rfl | rfl | rfl | rfl
    all_goals
      constructor <;>
        simp [sampleDump, Listed, Slot.Fits, hlines, hnames, hsingle]

/-- The sample is read back with a byte behind it. Its constant for the child with index 0 and
number 2 is that index, and the number as a key of the table. -/
theorem decode_dump_sampleDump :
    sampleDump.Fits ∧
      (∃ trace, decode { origin := .luau, maxDepth := 2 } (sampleDump.bytes ++ [0x2A]).toArray =
        .done ⟨sampleDump.header, sampleDump.main.prototype⟩ sampleDump.bytes.length trace) ∧
      sampleDump.main.prototype.body.constants[7]? = some (.proto 0) ∧
      sampleDump.main.prototype.body.constants[9]? = some (.table []
        [(.string [0x62], .integer 0), (.proto 2, .integer 0), (.nil, .integer 0)]) :=
  ⟨fits_sampleDump, decode_dump fits_sampleDump (by decide) [0x2A], rfl, rfl⟩

end LuaDump.Luau
