import Mathlib.Algebra.Order.Ring.Int
import LuaDump.Proofs.Interchange.Range
import LuaDump.Proofs.Jit.Writer

/-! # Debug information of LuaJIT dumps

A record has all of its debug information or none. If it has any, the information that is read
is such that it can be written again: every instruction has a line, every captured variable has
a name, and the local variables are listed in the order in which they come into scope.
-/

namespace LuaDump

open Decoder

namespace Jit

variable {room : Nat} {h : Header}

/-- The entries of a line map that covers the given number of lines are less than this. -/
def lineBound (lineCount : Int) : Int :=
  if lineCount < 256 then 2 ^ 8 else if lineCount < 65536 then 2 ^ 16 else 2 ^ 32

/-- A function without debug information. -/
structure Undebugged (body : Body) : Prop where
  lineInfo : body.lineInfo = []
  sourceLines : body.sourceLines = []
  upvalueNames : body.upvalueNames = []
  locals : body.locals = []
  lineDefined : body.lineDefined = 0
  lastLineDefined : body.lastLineDefined = 0

/-- A function with debug information. -/
structure Debugged (body : Body) : Prop extends DebugFits body where
  sourceLines : body.sourceLines = body.lineInfo.map fun entry => (body.lineDefined + entry, 0)
  lineInfo_lt : ∀ entry ∈ body.lineInfo, entry < lineBound (body.lastLineDefined - body.lineDefined)
  locals_sorted : body.locals.Pairwise fun earlier later => earlier.startPc ≤ later.startPc
  locals_named : ∀ entry ∈ body.locals, entry.startPc ≤ entry.endPc ∧ IsLocalName entry.name

section Locals

theorem takeUntil_delivers_notMem (terminator : UInt8) :
    (takeUntil terminator).Delivers room fun bytes => terminator ∉ bytes := by
  refine (settles_takeUntil terminator).yields fun w pos bytes last trace hdone => ?_
  unfold takeUntil at hdone
  dsimp only at hdone
  split at hdone
  next found hfound =>
    obtain ⟨rfl, -, -⟩ := Outcome.done.inj hdone
    exact Window.notMem_before? hfound
  next => exact absurd hdone (by simp)

/-- A name in the file begins with a byte that is no code of another name. -/
theorem localName_delivers {code : UInt8} (hcode : code ≠ 0) :
    (localName code).Delivers room IsLocalName := by
  unfold localName
  split
  next name hname => exact .pure (.inl (List.mem_of_getElem? hname))
  next hnone =>
    have hlength : internalNames.length ≤ code.toNat - 1 := List.getElem?_eq_none_iff.mp hnone
    have hsix : internalNames.length = 6 := rfl
    refine (takeUntil_delivers_notMem 0).map fun rest hrest => .inr ⟨?_, code, rest, rfl, by omega⟩
    exact List.not_mem_cons_of_ne_of_not_mem hcode.symm hrest

theorem localVariables_delivers : localVariables.Delivers room (LocalsFollow 0) := by
  -- Whatever may follow the last variable may follow all variables so far.
  refine delivers_iterate settles_localStep (fun _ (state : Nat × List Local) =>
    ∀ rest, LocalsFollow state.1 rest → LocalsFollow 0 (state.2.reverse ++ rest))
    ?_ fun rest hrest => hrest
  rintro count ⟨lastPc, locals⟩ - hlocals
  dsimp only at hlocals
  refine .skip settles_nextByte fun code => ?_
  split
  next => exact .pure (by simpa using hlocals [] trivial)
  next hcode =>
    refine (localName_delivers hcode).bind fun name hname => ?_
    refine delivers_varint.bind fun delta hdelta => delivers_varint.map fun length hlength => ?_
    intro rest hrest
    rw [List.reverse_cons, List.append_assoc]
    refine hlocals _ ⟨hname, ?_, ?_, ?_, ?_, rfl, hrest⟩
    all_goals
      dsimp only
      omega

theorem LocalsFollow.sorted {lastPc : Int} {locals : List Local}
    (hlocals : LocalsFollow lastPc locals) : (∀ entry ∈ locals, lastPc ≤ entry.startPc) ∧
      locals.Pairwise fun earlier later => earlier.startPc ≤ later.startPc := by
  induction locals generalizing lastPc with
  | nil => exact ⟨by simp, .nil⟩
  | cons entry rest ih =>
      obtain ⟨-, hstart, -, -, -, -, hrest⟩ := hlocals
      obtain ⟨hlater, hsorted⟩ := ih hrest
      exact ⟨List.forall_mem_cons.mpr ⟨hstart, fun later hmem => hstart.trans (hlater later hmem)⟩,
        List.pairwise_cons.mpr ⟨hlater, hsorted⟩⟩

theorem LocalsFollow.named {lastPc : Int} {locals : List Local}
    (hlocals : LocalsFollow lastPc locals) :
    ∀ entry ∈ locals, entry.startPc ≤ entry.endPc ∧ IsLocalName entry.name := by
  induction locals generalizing lastPc with
  | nil => simp
  | cons entry rest ih =>
      obtain ⟨hname, -, -, hscope, -, -, hrest⟩ := hlocals
      exact List.forall_mem_cons.mpr ⟨⟨hscope, hname⟩, ih hrest⟩

end Locals

section Lines

theorem lineEntry_delivers (lineCount : Nat) : (lineEntry h lineCount).Delivers room fun entry =>
    0 ≤ entry ∧ entry < 256 ^ (lineWidth lineCount).toNat := by
  refine (delivers_unsigned _ _).map fun line hline => ⟨Int.natCast_nonneg line, ?_⟩
  exact_mod_cast hline.1

theorem pow_lineWidth (lineCount : Nat) :
    (256 : Int) ^ (lineWidth lineCount).toNat = lineBound lineCount := by
  unfold lineWidth lineBound
  norm_cast
  split
  · rfl
  · split <;> rfl

end Lines

section Records

/-- The debug information of a function with the given numbers of instructions, of captured
variables and of lines. -/
structure DebugInfo.Covers (instructionCount upvalueCount lineCount : Nat) (info : DebugInfo) :
    Prop where
  lineInfo_length : info.lineInfo.length = instructionCount
  lineInfo : ∀ entry ∈ info.lineInfo, 0 ≤ entry ∧ entry < 256 ^ (lineWidth lineCount).toNat
  upvalueNames_length : info.upvalueNames.length = upvalueCount
  upvalueNames : ∀ name ∈ info.upvalueNames, 0 ∉ name
  locals : LocalsFollow 0 info.locals

theorem debugInfo_delivers (instructionCount upvalueCount lineCount : Nat) :
    (debugInfo h instructionCount upvalueCount lineCount).Delivers room
      (DebugInfo.Covers instructionCount upvalueCount lineCount) := by
  refine ((delivers_items_length _ (lineEntry_delivers lineCount)).named _).bind
    fun lines hlines => ?_
  refine ((delivers_collect (fun _ => takeUntil_delivers_notMem 0) upvalueCount 0).named _).bind
    fun names hnames => ?_
  exact (localVariables_delivers.named _).map fun locals hlocals =>
    ⟨hlines.1, hlines.2, hnames.1, hnames.2, hlocals⟩

theorem debugBlock_delivers (size instructionCount upvalueCount lineCount : Nat) :
    (debugBlock h size instructionCount upvalueCount lineCount).Delivers room fun info =>
      (size = 0 → info = {}) ∧
        (size ≠ 0 → info.Covers instructionCount upvalueCount lineCount) := by
  unfold debugBlock
  split
  next hsize => exact .pure ⟨fun _ => rfl, fun hne => absurd hsize hne⟩
  next hsize =>
    refine .named (.block (debugInfo_delivers instructionCount upvalueCount lineCount) ?_) _
    exact fun info _ hinfo => .skip (settles_skip size) fun _ =>
      .pure ⟨fun hzero => absurd hzero hsize, fun _ => hinfo⟩

/-- A function without debug information has no lines, and in a stripped dump no function has
any. -/
theorem debugHead_delivers : (debugHead h).Delivers room fun found =>
    found.2.1 < 2 ^ 32 ∧ found.2.2 < 2 ^ 32 ∧
      (h.stripped = true → found.1 = 0) ∧ (found.1 = 0 → found.2.1 = 0 ∧ found.2.2 = 0) := by
  unfold debugHead
  split
  next => exact .pure ⟨by decide, by decide, fun _ => rfl, fun _ => ⟨rfl, rfl⟩⟩
  next hstripped =>
    refine .skip settles_varint fun size => ?_
    split
    next => exact .pure ⟨by decide, by decide, fun _ => rfl, fun _ => ⟨rfl, rfl⟩⟩
    next hsize =>
      refine delivers_varint.bind fun line hline => delivers_varint.map fun count hcount => ?_
      exact ⟨hline, hcount, fun hstrip => absurd hstrip hstripped, fun hzero => absurd hzero hsize⟩

theorem recordHead_delivers : (recordHead h).Delivers room fun head =>
    head.upvalues.length = head.numUpvalues.toNat ∧ head.line < 2 ^ 32 ∧ head.lineCount < 2 ^ 32 ∧
      (h.stripped = true → head.debugSize = 0) ∧
      (head.debugSize = 0 → head.line = 0 ∧ head.lineCount = 0) := by
  refine .skip settles_nextByte fun flags => .skip settles_nextByte fun numParams => ?_
  refine .skip settles_nextByte fun frameSize => .skip settles_nextByte fun numUpvalues => ?_
  refine .skip settles_varint fun constantCount => .skip settles_varint fun numberCount => ?_
  refine .skip settles_varint fun instructionCount => ?_
  refine debugHead_delivers.bind fun found hfound => .skip (settles_emit _) fun _ => ?_
  have hinstruction : (instruction h).Delivers room fun _ => True :=
    (delivers_unsigned _ _).map fun _ _ => trivial
  have hupvalue : (upvalue h).Delivers room fun _ => True :=
    (delivers_unsigned _ _).map fun _ _ => trivial
  refine ((delivers_items instructionCount hinstruction).named _).bind fun instructions _ => ?_
  refine ((delivers_items_length numUpvalues.toNat hupvalue).named _).map
    fun upvalues hupvalues => ?_
  exact ⟨hupvalues.1, hfound⟩

variable {stack : List Completed} {parts : RecordParts}

theorem RecordParts.From.undebugged (hparts : parts.From room h stack)
    (hsize : parts.head.debugSize = 0) : Undebugged parts.prototype.body := by
  obtain ⟨-, -, -, -, hlines⟩ := recordHead_delivers.of_gives hparts.head
  obtain ⟨hline, hcount⟩ := hlines hsize
  have hinfo := ((debugBlock_delivers _ _ _ _).of_gives hparts.info).1 hsize
  constructor <;> simp [prototype, RecordHead.body, hinfo, hline, hcount]

theorem RecordParts.From.debugFits (hparts : parts.From room h stack)
    (hsize : parts.head.debugSize ≠ 0) : DebugFits parts.prototype.body := by
  obtain ⟨hupvalues, hline, hcount, -, -⟩ := recordHead_delivers.of_gives hparts.head
  have hinfo := ((debugBlock_delivers _ _ _ _).of_gives hparts.info).2 hsize
  have hlines : lineCountOf parts.prototype.body = parts.head.lineCount := by
    simp only [lineCountOf, prototype, RecordHead.body]
    omega
  refine
    { line := ?_
      lastLine := ?_
      lineInfo_length := hinfo.lineInfo_length
      lineInfo := hlines ▸ hinfo.lineInfo
      upvalueNames_length := hinfo.upvalueNames_length.trans hupvalues.symm
      upvalueNames := hinfo.upvalueNames
      locals := hinfo.locals }
  all_goals
    simp only [prototype, RecordHead.body]
    omega

theorem DebugFits.debugged {body : Body} (hfits : DebugFits body)
    (hlines : body.sourceLines = body.lineInfo.map fun entry => (body.lineDefined + entry, 0)) :
    Debugged body where
  toDebugFits := hfits
  sourceLines := hlines
  lineInfo_lt := by
    intro entry hentry
    have hlt := (hfits.lineInfo entry hentry).2
    have hcount : (lineCountOf body : Int) = body.lastLineDefined - body.lineDefined := by
      have hordered := hfits.lastLine.1
      unfold lineCountOf
      omega
    rwa [pow_lineWidth, hcount] at hlt
  locals_sorted := hfits.locals.sorted.2
  locals_named := hfits.locals.named

end Records

/-- Every record has as many captured variables as it says, and all of its debug information or
none. -/
theorem main_debugInfo {maxDepth : Int} : (main h maxDepth).Delivers room
    (Prototype.Everywhere fun chunk =>
      chunk.body.numUpvalues = chunk.body.upvalues.length ∧
        (Undebugged chunk.body ∨ h.stripped = false ∧ Debugged chunk.body)) := by
  refine main_delivers (fun {stack parts} hparts => ?_) ?_
  · obtain ⟨hupvalues, -, -, hstripped, -⟩ := recordHead_delivers.of_gives hparts.head
    refine ⟨by simp [RecordParts.prototype, RecordHead.body, hupvalues], ?_⟩
    by_cases hsize : parts.head.debugSize = 0
    · exact .inl (hparts.undebugged hsize)
    · refine .inr ⟨?_, (hparts.debugFits hsize).debugged rfl⟩
      exact Bool.eq_false_iff.mpr fun hstrip => hsize (hstripped hstrip)
  · rintro body children name - ⟨hupvalues, hbare | ⟨hstripped, hdebugged⟩⟩
    · exact ⟨hupvalues, .inl { hbare with }⟩
    · exact ⟨hupvalues, .inr ⟨hstripped, { hdebugged with }⟩⟩

/-- Debug information is all there or not there, and in a stripped file it is not there. -/
theorem debugInfo_all_or_none {options : Options} {data : Array UInt8} {bytecode : Bytecode}
    {last : Int} {trace : List Event} (hdecode : decode options data = .done bytecode last trace)
    (hjit : bytecode.header.dialect.isLuaJit = true) :
    ∀ chunk ∈ bytecode.main.postorder,
      chunk.body.numUpvalues = chunk.body.upvalues.length ∧
        (Undebugged chunk.body ∨ Debugged chunk.body) ∧
        (bytecode.header.stripped = true → Undebugged chunk.body) := by
  have hgives := (decode_gives hdecode).2
  rw [mainFunction_of_isLuaJit hjit] at hgives
  intro chunk hchunk
  obtain ⟨hupvalues, hinfo⟩ := main_debugInfo.of_gives hgives chunk hchunk
  refine ⟨hupvalues, hinfo.imp_right And.right, fun hstripped => hinfo.resolve_right ?_⟩
  rintro ⟨hother, -⟩
  simp [hstripped] at hother

/-- One function with one instruction, a captured variable, and two local variables of which the
second belongs to a loop. -/
def debuggedSample : Array UInt8 :=
  #[0x1b, 0x4c, 0x4a, 2, 0, 1, 0x6d] ++ #[27, 0, 0, 2, 1, 0, 0, 1, 11, 5, 2] ++ #[1, 2, 3, 4] ++
    #[0, 0x80] ++ #[1, 0x75, 0, 0x78, 0, 0, 1, 1, 1, 2, 0] ++ #[0]

theorem debugInfo_all_or_none_debuggedSample : ∃ bytecode last trace,
    decode {} debuggedSample = .done bytecode last trace ∧
      bytecode.main.body.locals.map (fun entry => (entry.startPc, entry.endPc)) =
        [(0, 1), (1, 3)] ∧
      Debugged bytecode.main.body := by
  obtain ⟨bytecode, last, trace, hdecode, hjit, hlines, hlocals⟩ : ∃ bytecode last trace,
      decode {} debuggedSample = .done bytecode last trace ∧
        bytecode.header.dialect.isLuaJit = true ∧ bytecode.main.body.lineInfo = [1] ∧
        bytecode.main.body.locals.map (fun entry => (entry.startPc, entry.endPc)) =
          [(0, 1), (1, 3)] := ⟨_, _, _, rfl, rfl, rfl, rfl⟩
  have hinfo := debugInfo_all_or_none hdecode hjit bytecode.main (Prototype.mem_postorder_self _)
  refine ⟨bytecode, last, trace, hdecode, hlocals, hinfo.2.1.resolve_left fun hbare => ?_⟩
  simp [hbare.lineInfo] at hlines

end Jit

end LuaDump
