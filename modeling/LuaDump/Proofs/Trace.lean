import LuaDump.Proofs.Jit.Reconstruction
import LuaDump.Proofs.Literal.QuotedBytes
import LuaDump.Proofs.Logging.Function
import LuaDump.Proofs.Luau.Ownership
import LuaDump.Proofs.Walk

/-! # Traces

A trace begins with the header and ends with the dialect and the number of bytes that are left.
In between it has a line for each function that was read, in the order of the file: for a
standard dump this is the order of a walk, for a LuaJIT dump the children stand before their
parents and the last child first, and for a Luau dump it is the order of the listing. First the
events are found, and then the texts of their lines.
-/

namespace LuaDump

open Decoder

namespace Header

/-- The line of a header. Of a Luau dump it tells the versions only. -/
def traceLine (h : Header) : Event :=
  match h.dialect with
  | .luau => .luauHeader h.formatVersion.toNat h.typesVersion.toNat
  | _ => .header h

theorem silent_matchSignature (signature : Bytes) : (matchSignature signature).Silent := by
  refine .of_trace fun w pos => ?_
  unfold matchSignature
  dsimp only
  split
  · rfl
  · split <;> rfl

theorem silent_declaredWidth (field : String) (allowed : List Nat) :
    (declaredWidth field allowed).Silent :=
  silent_position.bind fun _ => silent_nextByte.bind fun _ => .ite (.pure _) (.failAt _ _)

theorem silent_sampleOrder (integerSize numberSize : Nat) :
    (sampleOrder integerSize numberSize).Silent :=
  (silent_take _).bind fun _ => (silent_float _ _).map

theorem silent_rest51 (dialect : Dialect) : (rest51 dialect).Silent := by
  refine silent_nextByte.bind fun format => silent_nextByte.bind fun order => ?_
  refine (silent_declaredWidth _ _).bind fun intSize => ?_
  refine (silent_declaredWidth _ _).bind fun sizeT => ?_
  refine (silent_declaredWidth _ _).bind fun instructionSize => ?_
  refine silent_position.bind fun offset => silent_nextByte.bind fun numberSize => ?_
  refine silent_nextByte.bind fun integral => ?_
  dsimp only
  refine .ite ?_ (.ite ((silent_skip _).bind fun _ => .pure _) (.pure _))
  rw [failAt_bind]
  exact .failAt _ _

theorem silent_rest53 : rest53.Silent := by
  refine silent_nextByte.bind fun format => (silent_skip _).bind fun _ => ?_
  refine (silent_declaredWidth _ _).bind fun intSize => ?_
  refine (silent_declaredWidth _ _).bind fun sizeT => ?_
  refine (silent_declaredWidth _ _).bind fun instructionSize => ?_
  refine (silent_declaredWidth _ _).bind fun integerSize => ?_
  refine (silent_declaredWidth _ _).bind fun numberSize => ?_
  exact (silent_sampleOrder _ _).bind fun bigEndian => silent_nextByte.map

theorem silent_rest54 : rest54.Silent := by
  refine silent_nextByte.bind fun format => (silent_skip _).bind fun _ => ?_
  refine (silent_declaredWidth _ _).bind fun instructionSize => ?_
  refine (silent_declaredWidth _ _).bind fun integerSize => ?_
  refine (silent_declaredWidth _ _).bind fun numberSize => ?_
  exact (silent_sampleOrder _ _).bind fun bigEndian => silent_nextByte.map

theorem silent_afterLua : afterLua.Silent := by
  refine silent_position.bind fun offset => silent_nextByte.bind fun selector => ?_
  split
  · exact silent_rest51 _
  · exact silent_rest51 _
  · exact silent_rest53
  · exact silent_rest54
  · exact .failAt _ _

theorem silent_afterLuaJit : afterLuaJit.Silent := by
  refine silent_position.bind fun offset => silent_nextByte.bind fun selector => ?_
  split
  · exact silent_nextByte.map
  · exact silent_nextByte.map
  · exact .failAt _ _

theorem sniff_logs : sniff.Logs fun header trace => trace = [.header header] := by
  have hunknown : unknownSignature.Silent := .of_trace fun _ _ => rfl
  refine .skip (.named ?_ _) fun header => .emit_bind (.pure rfl)
  refine (silent_matchSignature _).bind fun isLua => .ite silent_afterLua ?_
  exact (silent_matchSignature _).bind fun isJit => .ite silent_afterLuaJit hunknown

theorem silent_luauVersions : luauVersions.Silent := by
  refine silent_position.bind fun offset => silent_nextByte.bind fun version => ?_
  refine .ite (silent_remaining.bind fun left => (silent_take left).bind fun _ => .failAt _ _) ?_
  refine .ite (.failAt _ _) (.ite (.pure _) (silent_position.bind fun offset => ?_))
  exact silent_nextByte.bind fun types => .ite (.failAt _ _) (.pure _)

theorem luau_logs : luau.Logs fun header trace => trace = [header.traceLine] ∧
    0 ≤ header.formatVersion ∧ 0 ≤ header.typesVersion := by
  refine .skip (.named silent_luauVersions _) fun versions => .emit_bind (.pure ?_)
  exact ⟨by simp [traceLine], Int.natCast_nonneg _, Int.natCast_nonneg _⟩

end Header

namespace Standard

/-- The name that a trace shows. -/
def shownName : Dialect → Bytes → Option Bytes
  | .lua52, _ => none
  | _, name => some name

/-- The line of a function: its name, where it is shown, and the range of its lines. -/
def chunkLine (shown : Bytes → Option Bytes) (body : Body) : Event :=
  .chunk (shown body.name) body.lineDefined body.lastLineDefined

/-- A function reports its line before its children report theirs. -/
theorem Grammar.Reports.chunk {g : Grammar} {shown : Bytes → Option Bytes} (hg : g.Reports shown)
    (maxDepth : Int) (levels : Nat) : (g.chunk maxDepth levels).Logs fun tree trace =>
      trace = tree.preorder.map fun chunk => chunkLine shown chunk.body := by
  induction levels with
  | zero => exact .fail _
  | succ levels ih =>
      have hchildren : (countedLabelled "count prototypes" "prototype" g.count
          (g.chunk maxDepth levels)).Logs fun children trace =>
            trace = children.flatMap fun child =>
              child.preorder.map fun chunk => chunkLine shown chunk.body :=
        .named (.skip hg.count fun declared => .skip (silent_checkCount declared) fun _ =>
          .collect (fun _ => ih.within _) _ _) _
      refine .named (.skip hg.head fun head => .emit_bind ?_) _
      refine .skip (silent_counted _ hg.count hg.instruction) fun instructions => ?_
      refine .skip (silent_countedLabelled _ _ hg.count hg.constant) fun constants => ?_
      refine .skip hg.upvalues fun early => hchildren.bind fun children trace htrace => ?_
      refine .after hg.tail hg.name fun tail hname => .pure ?_
      rw [hname head, List.append_nil, htrace, Prototype.preorder_eq, List.map_cons,
        List.map_flatMap]
      rfl

end Standard

namespace Jit

variable {h : Header} {maxDepth : Int}

theorem recordStep_logs (state : Nat × List Completed) :
    (recordStep h maxDepth state).Logs fun found trace =>
      trace = (found.getLeft?.bind fun next => next.2.head?).toList.map fun completed =>
        recordLine completed.prototype.body := by
  refine ((record_logs maxDepth state.2).within _).bind fun found trace htrace => ?_
  cases found with
  | some next => exact .pure (by simpa using htrace)
  | none => exact .pure (by simpa using htrace)

/-- The lines so far are those of the functions on the stack, in the order of its listing. -/
theorem loop_logs : (iterate (recordStep h maxDepth) (0, [])).Logs fun stack trace =>
    trace = (listing stack).map fun chunk => recordLine chunk.body := by
  refine .iterate (fun state earlier =>
    earlier = (listing state.2).map fun chunk => recordLine chunk.body) ?_ rfl
  rintro ⟨index, stack⟩ earlier hearlier w pos found last trace hdone
  have htrace := recordStep_logs _ hdone
  cases found with
  | inr result =>
      obtain ⟨rfl, -⟩ := recordStep_eq_inr hdone
      simpa [htrace] using hearlier
  | inl next =>
      obtain ⟨index', next⟩ := next
      obtain ⟨-, body, completed, rest, rfl, -, hcomplete⟩ := recordStep_eq_inl hdone
      simp [htrace, hearlier, listing_complete hcomplete]

/-- The functions of a dump report their lines children first. -/
theorem main_logs : (main h maxDepth).Logs fun tree trace =>
    trace = tree.postorder.map fun chunk => recordLine chunk.body := by
  refine .named (.skip silent_chunkName fun name => loop_logs.bind fun stack trace htrace => ?_) _
  unfold soleCompleted
  split
  next completed =>
    rw [pure_bind]
    refine .pure ?_
    rw [List.append_nil, htrace, listing, List.reverse_singleton, List.flatMap_singleton]
    -- The name of the file is not part of the line.
    obtain ⟨⟨body, children⟩, height⟩ := completed
    simp [Prototype.postorder, recordLine]
  next =>
    rw [fail_bind]
    exact .fail _

/-- The lines of a function do not end before they begin. -/
theorem main_lines_ordered {room : Nat} : (main h maxDepth).Delivers room
    (Prototype.Everywhere fun chunk =>
      0 ≤ chunk.body.lineDefined ∧ chunk.body.lineDefined ≤ chunk.body.lastLineDefined) := by
  refine main_delivers (fun {stack parts} _ => ?_) fun _ hlines => hlines
  simp only [RecordParts.prototype, RecordHead.body]
  omega

end Jit

namespace Luau

variable {h : Header} {strings : Array Bytes} {maxDepth : Int} {w : Window} {pos last : Int}
  {trace : List Event}

/-- The line of a listed function: its name, its sizes and the number of its children. -/
def recordLine (flat : FlatRecord) : Event :=
  .luauRecord flat.body.name flat.body.instructions.length flat.body.constants.length
    flat.children.length

theorem nextRecord_listed {index : Nat} {table next : Table}
    (hdone : nextRecord h strings maxDepth index table w pos = .done next last trace) :
    ∃ flat trace', flatRecord h strings w pos = .done flat last trace' ∧
      trace = [recordLine flat] := by
  obtain ⟨⟨entry, rest⟩, mid, first, second, hrecord, hpush, rfl⟩ :=
    bind_eq_done_iff.mp (within_eq_done_iff.mp hdone)
  obtain ⟨-, rfl, rfl⟩ := pure_eq_done_iff.mp hpush
  obtain ⟨flat, trace', hflat, children, -, hnumbers, hentry⟩ := record_mirrored table hrecord
  refine ⟨flat, trace', hflat, ?_⟩
  have htrace := record_logs maxDepth table hrecord
  dsimp only at hentry htrace
  rw [List.append_nil, htrace, hentry, functionLine, recordLine, hnumbers, List.length_map,
    List.length_map]

/-- Every function of the file reports its line, whether or not another one takes it later. -/
theorem nextRecords_listed {count index : Nat} {table next : Table}
    (hdone : fold (nextRecord h strings maxDepth) count index table w pos =
      .done next last trace) :
    ∃ records trace', collect (fun _ => flatRecord h strings) count index w pos =
      .done records last trace' ∧ trace = records.map recordLine := by
  induction count generalizing index table pos trace with
  | zero =>
      obtain ⟨-, rfl, rfl⟩ := pure_eq_done_iff.mp hdone
      exact ⟨[], [], rfl, rfl⟩
  | succ count ih =>
      obtain ⟨mid, reached, first, second, hfirst, hrest, rfl⟩ := bind_eq_done_iff.mp hdone
      obtain ⟨flat, trace', hflat, rfl⟩ := nextRecord_listed hfirst
      obtain ⟨records, trace'', hrecords, rfl⟩ := ih hrest
      refine ⟨flat :: records, trace' ++ (trace'' ++ []), ?_, rfl⟩
      exact bind_eq_done_iff.mpr ⟨flat, reached, trace', _, hflat,
        bind_eq_done_iff.mpr ⟨records, last, trace'', [], hrecords, rfl, rfl⟩, rfl⟩

theorem number_of_mainEntry {table : Table} {tree : Prototype}
    (hdone : mainEntry table w pos = .done tree last trace) :
    ∃ number, varint w pos = .done number last [] := by
  obtain ⟨offset, mid, hoffset, hrest⟩ := silent_position.of_bind_eq_done hdone
  obtain ⟨-, rfl, -⟩ := Outcome.done.inj hoffset
  obtain ⟨number, reached, hnumber, hfound⟩ := silent_varint.of_bind_eq_done hrest
  cases hget : table.get? number with
  | some entry =>
      rw [hget] at hfound
      obtain ⟨-, rfl, -⟩ := pure_eq_done_iff.mp hfound
      exact ⟨number, hnumber⟩
  | none =>
      rw [hget] at hfound
      exact absurd hfound not_failAt_eq_done

/-- The lines of a dump: the numbers of its strings and its functions, and the lines of the
functions as they are listed. -/
theorem main_listed {tree : Prototype}
    (hdone : main h maxDepth w pos = .done tree last trace) :
    ∃ strings reached found trace',
      stringTable w pos = .done strings reached [] ∧ listing h w pos = .done found last trace' ∧
        trace = .stringCount strings.size :: .prototypeCount found.records.length ::
          found.records.map recordLine := by
  obtain ⟨strings, afterStrings, hstrings, hreport⟩ :=
    silent_stringTable.of_bind_eq_done (within_eq_done_iff.mp hdone)
  obtain ⟨counted, hread, rfl⟩ := emit_bind_eq_done_iff.mp hreport
  obtain ⟨_, afterTypes, htypes, hnumbered⟩ := silent_userdataTypes.of_bind_eq_done hread
  obtain ⟨recordCount, afterCount, hcount, hreport⟩ := silent_varint.of_bind_eq_done hnumbered
  obtain ⟨later, hchecked, rfl⟩ := emit_bind_eq_done_iff.mp hreport
  obtain ⟨_, afterCheck, hcheck, htable⟩ := (silent_checkCount _).of_bind_eq_done hchecked
  obtain ⟨table, afterRecords, lines, rest, hfold, hentry, rfl⟩ := bind_eq_done_iff.mp htable
  obtain ⟨records, trace', hrecords, rfl⟩ := nextRecords_listed hfold
  obtain ⟨main, hmain⟩ := number_of_mainEntry hentry
  obtain rfl : rest = [] := silent_mainEntry table hentry
  refine ⟨strings, afterStrings, ⟨records, main⟩, trace', hstrings, ?_, ?_⟩
  · rw [listing, bind_of_done hstrings, bind_of_done htypes, bind_of_done hcount,
      bind_of_done hcheck, bind_of_done hrecords, bind_of_done hmain]
    simp [Outcome.after, pure_apply]
  · have hlength := Yields.collect_length _ _ _ hrecords
    rw [hlength, List.append_nil]

end Luau

section Files

variable {options : Options} {data : Array UInt8} {bytecode : Bytecode} {last : Int}
  {trace : List Event}

theorem header_logs (origin : Origin) : origin.header.Logs fun header trace =>
    trace = [header.traceLine] ∧
      (header.dialect = .luau → 0 ≤ header.formatVersion ∧ 0 ≤ header.typesVersion) := by
  intro w pos header last trace hdone
  have hdialect := (Header.header_readable origin hdone).2
  cases origin with
  | luau =>
      obtain ⟨htrace, hversions⟩ := Header.luau_logs hdone
      exact ⟨htrace, fun _ => hversions⟩
  | sniffed =>
      have hother : header.dialect ≠ .luau := fun hluau => absurd (hdialect.mp hluau) (by decide)
      refine ⟨?_, fun hluau => absurd hluau hother⟩
      rw [Header.sniff_logs hdone, Header.traceLine]
      split
      next hluau => exact absurd hluau hother
      next => rfl

/-- The functions of a standard dump report their lines in the order of a walk. -/
theorem mainFunction_logs_walk {h : Header} {maxDepth : Int}
    (hdialect : h.dialect ∈ [Dialect.lua51, .lua52, .lua53, .lua54]) :
    (mainFunction h maxDepth).Logs fun tree trace =>
      trace = (tree.walk 0).map fun entry =>
        Standard.chunkLine (Standard.shownName h.dialect) entry.2.body := by
  have hmain {g : Standard.Grammar} (hg : g.Reports (Standard.shownName h.dialect)) :
      (g.main maxDepth).Logs fun tree trace => trace = (tree.walk 0).map fun entry =>
        Standard.chunkLine (Standard.shownName h.dialect) entry.2.body := by
    refine (hg.chunk _ _).mono fun tree trace htrace => ?_
    rw [htrace, Prototype.preorder, List.map_map]
    rfl
  unfold mainFunction
  split
  next hlua => exact hmain (hlua ▸ Standard.grammar51_reports)
  next hlua => exact hmain (hlua ▸ Standard.grammar52_reports)
  next hlua => exact hmain (hlua ▸ Standard.grammar53_reports)
  next hlua => exact hmain (hlua ▸ Standard.grammar54_reports)
  all_goals simp_all

/-- The events of a trace: the header, one for each function that was read, and the end. -/
theorem events_of_decode (hdecode : decode options data = .done bytecode last trace) :
    ∃ lines,
      trace = bytecode.header.traceLine :: lines ++
        [.finished bytecode.header.dialect (data.size - last)] ∧
      (bytecode.header.dialect ∈ [Dialect.lua51, .lua52, .lua53, .lua54] →
        lines = (bytecode.main.walk 0).map fun entry =>
          Standard.chunkLine (Standard.shownName bytecode.header.dialect) entry.2.body) ∧
      (bytecode.header.dialect.isLuaJit = true →
        (lines = bytecode.main.postorder.map fun chunk => Jit.recordLine chunk.body) ∧
          ∀ chunk ∈ bytecode.main.postorder,
            0 ≤ chunk.body.lineDefined ∧ chunk.body.lineDefined ≤ chunk.body.lastLineDefined) ∧
      (bytecode.header.dialect = .luau →
        (0 ≤ bytecode.header.formatVersion ∧ 0 ≤ bytecode.header.typesVersion) ∧
          ∃ mid first strings reached found trace',
            Header.luau (Window.whole data) 0 = .done bytecode.header mid first ∧
              Luau.stringTable (Window.whole data) mid = .done strings reached [] ∧
              Luau.fileListing (Window.whole data) 0 = .done found last trace' ∧
              lines = .stringCount strings.size :: .prototypeCount found.records.length ::
                found.records.map Luau.recordLine) := by
  obtain ⟨mid, first, lines, hheader, hmain, rfl⟩ := trace_of_decode hdecode
  obtain ⟨rfl, hversions⟩ := header_logs options.origin hheader
  refine ⟨lines, rfl, fun hstandard => mainFunction_logs_walk hstandard hmain, ?_, ?_⟩
  · intro hjit
    have hgives := (decode_gives hdecode).2
    rw [mainFunction_of_isLuaJit hjit] at hmain hgives
    exact ⟨Jit.main_logs hmain, Jit.main_lines_ordered.of_gives hgives⟩
  · intro hluau
    have horigin := (Header.header_readable options.origin hheader).2.mp hluau
    rw [horigin] at hheader
    rw [mainFunction, hluau] at hmain
    obtain ⟨strings, reached, found, trace', hstrings, hlisting, hlines⟩ := Luau.main_listed hmain
    have hfile : Luau.fileListing (Window.whole data) 0 =
        .done found last ([bytecode.header.traceLine] ++ trace') :=
      bind_eq_done_iff.mpr ⟨_, _, _, _, hheader, hlisting, rfl⟩
    exact ⟨hversions hluau, mid, _, strings, reached, found, _, hheader, hstrings, hfile, hlines⟩

end Files

section Texts

theorem toString_toNat {n : Int} (hn : 0 ≤ n) : toString n.toNat = toString n := by
  obtain ⟨m, rfl⟩ := Int.eq_ofNat_of_zero_le hn
  rfl

namespace Header

/-- The fields of a header in their order, the first of them in the given words. -/
def fieldsText (version : String) (h : Header) : String :=
  "Header: LuaHeader(" ++ String.intercalate ", "
    ["lua_version=" ++ version,
      s!"format_version={h.formatVersion}",
      "big_endian=" ++ (if h.bigEndian then "True" else "False"),
      s!"int_size={h.intSize}",
      s!"size_t_size={h.sizeTSize}",
      s!"instruction_size={h.instructionSize}",
      s!"number_size={h.numberSize}",
      "number_integral=" ++ (if h.numberIntegral then "True" else "False"),
      s!"integer_size={h.integerSize}",
      "stripped=" ++ (if h.stripped then "True" else "False"),
      "has_ffi=" ++ (if h.hasFfi then "True" else "False"),
      s!"types_version={h.typesVersion}"] ++ ")"

/-- The text of a header. Lua 5.1 and 5.2 give their number only, and a Luau dump gives its
versions only. -/
def traceText (h : Header) : String :=
  match h.dialect with
  | .lua51 => h.fieldsText "81"
  | .lua52 => h.fieldsText "82"
  | .lua53 => h.fieldsText "<Dialect.LUA53: 83>"
  | .lua54 => h.fieldsText "<Dialect.LUA54: 84>"
  | .luaJit1 => h.fieldsText "<Dialect.LUAJ1: 17>"
  | .luaJit2 => h.fieldsText "<Dialect.LUAJ2: 18>"
  | .luau => s!"Bytecode version: {h.formatVersion}, types version: {h.typesVersion}"

theorem text_header (h : Header) :
    (Event.header h).text = h.fieldsText (Event.dialectText h.dialect) := by
  have hopening : "Header: LuaHeader(" = "Header: " ++ "LuaHeader(" := rfl
  unfold Event.text Event.headerText fieldsText Event.flagText
  rw [hopening]
  simp only [String.append_assoc]

theorem text_traceLine {h : Header}
    (hversions : h.dialect = .luau → 0 ≤ h.formatVersion ∧ 0 ≤ h.typesVersion) :
    h.traceLine.text = h.traceText := by
  unfold traceLine traceText
  cases hdialect : h.dialect with
  | luau =>
      obtain ⟨hformat, htypes⟩ := hversions hdialect
      unfold Event.text
      dsimp only
      rw [toString_toNat hformat, toString_toNat htypes]
  | _ =>
      dsimp only
      rw [text_header, hdialect]
      rfl

end Header

namespace Standard

/-- The text of a function: its name, except in Lua 5.2, and the range of its lines. -/
def chunkText (dialect : Dialect) (body : Body) : String :=
  if dialect = .lua52 then s!"chunk: line: {body.lineDefined}-{body.lastLineDefined}"
  else "chunk: " ++ Quoted.bytes body.name ++
    s!", line: {body.lineDefined}-{body.lastLineDefined}"

theorem text_chunkLine (dialect : Dialect) (body : Body) :
    (chunkLine (shownName dialect) body).text = chunkText dialect body := by
  cases dialect <;> rfl

end Standard

namespace Jit

/-- The text of a function: its first line, how many lines follow, and its sizes. -/
def recordText (body : Body) : String :=
  s!"proto: line: {body.lineDefined}+{body.lastLineDefined - body.lineDefined}, " ++
    s!"{body.instructions.length} instructions, " ++
    s!"{body.constants.length} complex / {body.numConstants.length} numeric constants"

theorem text_recordLine {body : Body} (hfirst : 0 ≤ body.lineDefined)
    (hlast : body.lineDefined ≤ body.lastLineDefined) :
    (recordLine body).text = recordText body := by
  unfold recordLine Event.text recordText
  dsimp only
  rw [toString_toNat hfirst, toString_toNat (Int.sub_nonneg_of_le hlast)]
  simp only [String.append_assoc]

end Jit

namespace Luau

/-- The text of a listed function: its name, its sizes and the number of its children. -/
def recordText (flat : FlatRecord) : String :=
  "  proto " ++ Quoted.bytes flat.body.name ++
    s!": {flat.body.instructions.length} instructions, {flat.body.constants.length} constants, " ++
    s!"{flat.children.length} children"

theorem text_recordLine (flat : FlatRecord) : (recordLine flat).text = recordText flat := by
  unfold recordLine Event.text recordText
  simp only [String.append_assoc]

end Luau

variable {options : Options} {data : Array UInt8} {bytecode : Bytecode} {last : Int}
  {trace : List Event}

/-- The trace replays the decoding of a file. Its first line tells the header and its last one
the dialect and how many bytes are left. In between there is a line for each function that was
read: for a standard dump in the order of the walk, for a LuaJIT dump with the children before
their parents and the last child first, and for a Luau dump, after the numbers of strings and
functions, in the order of the listing. A name can be read back from the line it stands in. -/
theorem trace_replays (hdecode : decode options data = .done bytecode last trace) :
    ∃ (title : String) (lines : List String),
      (bytecode.header.dialect, title) ∈ [(Dialect.lua51, "LUA51"), (.lua52, "LUA52"),
        (.lua53, "LUA53"), (.lua54, "LUA54"), (.luaJit1, "LUAJ1"), (.luaJit2, "LUAJ2"),
        (.luau, "LUAU")] ∧
      trace.map Event.text = bytecode.header.traceText :: lines ++
        ["Decoded " ++ title ++ ", " ++ toString (data.size - last) ++ " trailing bytes"] ∧
      (bytecode.header.dialect ∈ [Dialect.lua51, .lua52, .lua53, .lua54] →
        lines = (bytecode.main.walk 0).map fun entry =>
          Standard.chunkText bytecode.header.dialect entry.2.body) ∧
      (bytecode.header.dialect ∈ [Dialect.luaJit1, .luaJit2] →
        lines = bytecode.main.postorder.map fun chunk => Jit.recordText chunk.body) ∧
      (bytecode.header.dialect = .luau → ∃ mid first strings reached found trace',
        Header.luau (Window.whole data) 0 = .done bytecode.header mid first ∧
          Luau.stringTable (Window.whole data) mid = .done strings reached [] ∧
          Luau.fileListing (Window.whole data) 0 = .done found last trace' ∧
          lines = s!"# of strings: {strings.size}" :: s!"# of protos: {found.records.length}" ::
            found.records.map Luau.recordText) ∧
      ∀ name rest, Quoted.read? ((Quoted.bytes name).toList ++ rest) = some (name, rest) := by
  obtain ⟨lines, rfl, hstandard, hjit, hluau⟩ := events_of_decode hdecode
  refine ⟨bytecode.header.dialect.name, lines.map Event.text, ?_, ?_, ?_, ?_, ?_,
    Quoted.read?_bytes⟩
  · cases bytecode.header.dialect <;> decide
  · have hversions := fun hdialect => (hluau hdialect).1
    have hfinished : (Event.finished bytecode.header.dialect (data.size - last)).text =
        "Decoded " ++ bytecode.header.dialect.name ++ ", " ++ toString (data.size - last) ++
          " trailing bytes" := rfl
    rw [List.map_append, List.map_cons, List.map_singleton, Header.text_traceLine hversions,
      hfinished]
  · intro hdialect
    rw [hstandard hdialect, List.map_map]
    exact List.map_congr_left fun entry _ => Standard.text_chunkLine _ _
  · intro hdialect
    have hisJit : bytecode.header.dialect.isLuaJit = true := by
      revert hdialect
      cases bytecode.header.dialect <;> decide
    obtain ⟨hlines, hordered⟩ := hjit hisJit
    rw [hlines, List.map_map]
    refine List.map_congr_left fun chunk hchunk => ?_
    obtain ⟨hfirst, hlast⟩ := hordered chunk hchunk
    exact Jit.text_recordLine hfirst hlast
  · intro hdialect
    obtain ⟨-, mid, first, strings, reached, found, trace', hheader, hstrings, hlisting, rfl⟩ :=
      hluau hdialect
    refine ⟨mid, first, strings, reached, found, trace', hheader, hstrings, hlisting, ?_⟩
    rw [List.map_cons, List.map_cons, List.map_map]
    exact congrArg _ (congrArg _ (List.map_congr_left fun flat _ => Luau.text_recordLine flat))

/-- Three functions are in the tree, and the one that nobody owns has a line as well. -/
theorem trace_replays_sampleOwning : ∃ bytecode last trace lines found trace',
    decode { origin := .luau } (Luau.sampleOwning []) = .done bytecode last trace ∧
      Luau.fileListing (Window.whole (Luau.sampleOwning [])) 0 = .done found last trace' ∧
      (bytecode.main.walk 0).length = 3 ∧ found.records.length = 4 ∧
      trace.map Event.text = "Bytecode version: 3, types version: 0" :: lines ++
        ["Decoded LUAU, 0 trailing bytes"] ∧
      lines[1]? = some "# of protos: 4" ∧ lines.drop 2 = found.records.map Luau.recordText := by
  obtain ⟨bytecode, last, trace, hdecode, hdialect, hcount, hlast, hheader⟩ :
      ∃ bytecode last trace,
        decode { origin := .luau } (Luau.sampleOwning []) = .done bytecode last trace ∧
          bytecode.header.dialect = .luau ∧ bytecode.main.count = 3 ∧
          ((Luau.sampleOwning []).size : Int) - last = 0 ∧
          bytecode.header.traceText = "Bytecode version: 3, types version: 0" :=
    ⟨_, _, _, rfl, rfl, rfl, rfl, rfl⟩
  obtain ⟨title, lines, htitle, htrace, -, -, hluau, -⟩ := trace_replays hdecode
  obtain ⟨mid, first, strings, reached, found, trace', -, -, hlisting, hlines⟩ := hluau hdialect
  obtain ⟨listed, last', traced, hlisted, hrecords⟩ : ∃ listed last' traced,
      Luau.fileListing (Window.whole (Luau.sampleOwning [])) 0 = .done listed last' traced ∧
        listed.records.length = 4 := ⟨_, _, _, rfl, rfl⟩
  obtain ⟨rfl, -, -⟩ := Outcome.done.inj (hlisting.symm.trans hlisted)
  obtain rfl : title = "LUAU" := by simpa [hdialect] using htitle
  rw [hheader, hlast] at htrace
  rw [hrecords] at hlines
  refine ⟨bytecode, last, trace, lines, found, trace', hdecode, hlisting, ?_, hrecords, htrace,
    ?_, ?_⟩
  · rw [Prototype.length_walk, hcount]
  · rw [hlines]
    rfl
  · rw [hlines, List.drop_succ_cons, List.drop_succ_cons, List.drop_zero]

end Texts

end LuaDump
