import LuaDump.Proofs.Delivery
import LuaDump.Proofs.Prefix
import LuaDump.Proofs.Tree

/-! # What holds of every function of a dump

A property of functions holds of all functions of a dump if it holds of each function as it
is read. Every dialect puts its trees together in its own way: by recursion, by
a stack of completed functions, or by a table of functions.
-/

namespace LuaDump

open Decoder

variable {room : Nat} {holds : Prototype → Prop} {maxDepth : Int}

namespace Standard

/-- Properties of the parts of a function. -/
structure Parts where
  head : Head → Prop
  instruction : Int → Prop
  constant : Constant → Prop
  upvalues : List Upvalue → Prop
  tail : Tail → Prop

/-- A grammar delivers parts with the given properties. -/
structure Grammar.Delivers (room : Nat) (g : Grammar) (parts : Parts) : Prop where
  settles : g.Settles
  head : g.head.Delivers room parts.head
  instruction : g.instruction.Delivers room parts.instruction
  constant : g.constant.Delivers room parts.constant
  upvalues : g.upvalues.Delivers room parts.upvalues
  tail : g.tail.Delivers room parts.tail

theorem Grammar.Delivers.chunk {g : Grammar} {parts : Parts} (hg : g.Delivers room parts)
    (hassemble : ∀ {head instructions constants early tail children}, parts.head head →
      AllOf room parts.instruction instructions → AllOf room parts.constant constants →
      parts.upvalues early → parts.tail tail → children.length ≤ room →
      holds ⟨assemble head instructions constants early tail, children⟩) (levels : Nat) :
    (g.chunk maxDepth levels).Delivers room (Prototype.Everywhere holds) := by
  induction levels with
  | zero => exact .fail _
  | succ levels ih =>
      refine .named (hg.head.bind fun head hhead => .skip (settles_emit _) fun _ => ?_) _
      refine (delivers_counted _ hg.settles.count hg.instruction).bind
        fun instructions hinstructions => ?_
      refine (delivers_countedLabelled _ _ hg.settles.count hg.constant).bind
        fun constants hconstants => ?_
      refine hg.upvalues.bind fun early hearly => ?_
      refine (delivers_countedLabelled _ _ hg.settles.count ih).bind fun children hchildren => ?_
      refine hg.tail.map fun tail htail => Prototype.everywhere_iff.mpr ⟨?_, hchildren.all⟩
      exact hassemble hhead hinstructions hconstants hearly htail hchildren.length_le

end Standard

namespace Jit

variable {h : Header}

/-- The functions on a stack have the property throughout. -/
def StackHolds (holds : Prototype → Prop) (stack : List Completed) : Prop :=
  ∀ completed ∈ stack, completed.prototype.Everywhere holds

/-- The parts of a record. -/
structure RecordParts where
  head : RecordHead
  progress : Progress
  numbers : List Number
  info : DebugInfo

def RecordParts.prototype (parts : RecordParts) : Prototype :=
  ⟨parts.head.body parts.progress.constants parts.numbers parts.info,
    parts.progress.children.map (·.prototype)⟩

/-- What the parts of a record come from. -/
structure RecordParts.From (room : Nat) (h : Header) (stack : List Completed)
    (parts : RecordParts) : Prop where
  head : (recordHead h).Gives room parts.head
  constants : (constants parts.head.constantCount stack).Gives room parts.progress
  numbers : (labelledItems "number" parts.head.numberCount number).Gives room parts.numbers
  info : (debugBlock h parts.head.debugSize parts.head.instructions.length
    parts.head.numUpvalues.toNat parts.head.lineCount).Gives room parts.info

theorem fields_delivers (stack : List Completed) :
    (fields h maxDepth stack).Delivers room fun found => ∃ parts : RecordParts,
      parts.From room h stack ∧ found.1.prototype = parts.prototype ∧
        found.2 = parts.progress.stack ∧ found.1.height = heightOver parts.progress.children ∧
          found.1.height ≤ maxDepth := by
  refine (settles_recordHead h).gives.bind fun head hhead => ?_
  refine (settles_constants _ stack).gives.bind fun progress hprogress => ?_
  refine ((settles_labelledItems _ _ settles_number).gives.named _).bind fun numbers hnumbers => ?_
  dsimp only
  split
  next =>
    rw [fail_bind]
    exact .fail _
  next hdepth =>
    refine (settles_debugBlock h _ _ _ _).gives.map fun info hinfo => ?_
    exact ⟨⟨head, progress, numbers, info⟩, ⟨hhead, hprogress, hnumbers, hinfo⟩, rfl, rfl, rfl,
      Int.not_lt.mp hdepth⟩

/-- A record leaves the stack with its function in place of the children. -/
structure RecordParts.Completes (room : Nat) (h : Header) (maxDepth : Int)
    (stack : List Completed) (parts : RecordParts) (next : List Completed) : Prop where
  parts_from : parts.From room h stack
  next_eq : next =
    ⟨parts.prototype, heightOver parts.progress.children⟩ :: parts.progress.stack
  height_le : heightOver parts.progress.children ≤ maxDepth

theorem record_delivers (stack : List Completed) :
    (record h maxDepth stack).Delivers room fun next =>
      ∀ found ∈ next, ∃ parts : RecordParts, parts.Completes room h maxDepth stack found := by
  refine .skip settles_position fun offset => .skip settles_varint fun size => ?_
  split
  · exact .pure (by simp)
  · refine .skip settles_position fun start => .block (fields_delivers stack) ?_
    rintro ⟨⟨prototype, height⟩, rest⟩ reached ⟨parts, hparts, rfl, rfl, rfl, hdepth⟩
    dsimp only
    split
    · rw [failAt_bind]
      exact .failAt _ _
    · refine .skip (settles_skip size) fun _ => .pure fun next hnext => ?_
      obtain rfl := Option.some.inj hnext
      exact ⟨parts, hparts, rfl, hdepth⟩

/-- What holds of the state before the constants of a record, and is kept by each of them,
holds of the state behind them. -/
theorem constants_delivers (invariant : Nat → Progress → Prop) {stack : List Completed}
    (hstart : invariant 0 { stack })
    (hconstant : ∀ index progress, invariant index progress →
      (constant progress).Delivers room (invariant (index + 1))) (count : Nat) :
    (constants count stack).Delivers room fun progress =>
      count ≤ room ∧ invariant count progress := by
  refine .named (.checkCount_bind fun hcount => ?_) _
  refine (delivers_fold invariant count hstart ?_).mono fun progress hprogress =>
    ⟨by omega, hprogress⟩
  exact fun index progress _ hprogress => (hconstant index progress hprogress).within _

/-- A constant that is no child is put before the others, and a child is taken from the
stack. -/
theorem constant_delivers (progress : Progress) :
    (constant progress).Delivers room fun next =>
      (∃ found, writtenConstant.Gives room (some found) ∧ next = progress.push found) ∨
        ∃ completed rest, progress.stack = completed :: rest ∧
          next = ⟨rest, progress.children ++ [completed],
            .proto progress.children.length :: progress.constants⟩ := by
  refine .skip settles_position fun offset => ?_
  refine settles_writtenConstant.gives.bind fun written hwritten => ?_
  split
  next next hnext =>
    apply Delivers.pure
    cases written with
    | some found =>
        obtain rfl := Option.some.inj hnext
        exact .inl ⟨found, hwritten, rfl⟩
    | none =>
        simp only [Progress.extend?, Progress.adopt?] at hnext
        split at hnext
        next => exact absurd hnext (by simp)
        next completed rest hstack =>
          obtain rfl := Option.some.inj hnext
          exact .inr ⟨completed, rest, hstack, rfl⟩
  next => exact .failAt _ _

/-- Children come from the stack, and what is left was there before. -/
theorem constants_keep {kept : Completed → Prop} {stack : List Completed}
    (hstack : ∀ completed ∈ stack, kept completed) (count : Nat) :
    (constants count stack).Delivers room fun progress =>
      (∀ completed ∈ progress.stack, kept completed) ∧
        ∀ completed ∈ progress.children, kept completed := by
  refine (constants_delivers (fun _ progress => (∀ completed ∈ progress.stack, kept completed) ∧
    ∀ completed ∈ progress.children, kept completed) ⟨hstack, by simp⟩ ?_ count).mono
      fun progress hprogress => hprogress.2
  rintro index progress ⟨hstack, hchildren⟩
  refine (constant_delivers progress).mono ?_
  rintro next (⟨found, -, rfl⟩ | ⟨completed, rest, hcons, rfl⟩)
  · exact ⟨hstack, hchildren⟩
  · rw [hcons] at hstack
    obtain ⟨hfirst, hrest⟩ := List.forall_mem_cons.mp hstack
    exact ⟨hrest, List.forall_mem_append.mpr ⟨hchildren, by simpa using hfirst⟩⟩

theorem RecordParts.From.stackHolds {stack : List Completed} {parts : RecordParts}
    (hparts : parts.From room h stack) (hstack : StackHolds holds stack) :
    StackHolds holds parts.progress.stack ∧ StackHolds holds parts.progress.children :=
  (constants_keep hstack _).of_gives hparts.constants

/-- What holds of every function as it is read, and still when it gets a name, holds of all
functions of a dump. -/
theorem main_delivers
    (hrecord : ∀ {stack} {parts : RecordParts}, parts.From room h stack → holds parts.prototype)
    (hname : ∀ {body children} {name : Bytes}, name.length ≤ room → holds ⟨body, children⟩ →
      holds ⟨{ body with name }, children⟩) :
    (main h maxDepth).Delivers room (Prototype.Everywhere holds) := by
  have hnext : ∀ stack, StackHolds holds stack →
      (record h maxDepth stack).Delivers room fun next =>
        ∀ found ∈ next, StackHolds holds found := by
    intro stack hstack
    refine (record_delivers stack).mono fun next hnext found hfound => ?_
    obtain ⟨parts, hparts, rfl, -⟩ := hnext found hfound
    obtain ⟨hrest, hchildren⟩ := hparts.stackHolds hstack
    have htree : parts.prototype.Everywhere holds :=
      Prototype.everywhere_iff.mpr ⟨hrecord hparts, List.forall_mem_map.mpr hchildren⟩
    exact List.forall_mem_cons.mpr ⟨htree, hrest⟩
  have hstep : ∀ (count : Nat) (state : Nat × List Completed), count < room →
      StackHolds holds state.2 → (recordStep h maxDepth state).Delivers room
        (Sum.elim (fun state => StackHolds holds state.2) (StackHolds holds)) := by
    intro _ state _ hstack
    refine ((hnext state.2 hstack).within _).bind fun next hholds => ?_
    cases next with
    | some found => exact .pure (hholds found rfl)
    | none => exact .pure hstack
  have hchunkName : (chunkName h).Delivers room fun name => name.length ≤ room := by
    unfold chunkName
    split
    · exact .pure (Nat.zero_le _)
    · exact .named (.skip settles_varint fun size => delivers_take size) _
  refine .named (hchunkName.bind fun name hlength => ?_) _
  refine (delivers_iterate (settles_recordStep h maxDepth)
    (fun _ state => StackHolds holds state.2) hstep
    (fun completed hcompleted => absurd hcompleted List.not_mem_nil)).bind fun stack hstack => ?_
  unfold soleCompleted
  split
  next completed =>
    refine .map (.pure (hstack completed (List.mem_singleton_self _))) fun tree htree => ?_
    cases tree
    obtain ⟨hown, hchildren⟩ := Prototype.everywhere_iff.mp htree
    exact Prototype.everywhere_iff.mpr ⟨hname hlength hown, hchildren⟩
  next =>
    rw [fail_bind]
    exact .fail _

end Jit

namespace Luau

variable {h : Header} {strings : Array Bytes}

/-- The functions that have no parent yet have the property throughout. -/
def TableHolds (holds : Prototype → Prop) (table : Table) : Prop :=
  ∀ {number entry}, table.get? number = some entry → entry.prototype.Everywhere holds

theorem get?_of_setIfInBounds_none {table : Table} {number other : Nat} {entry : Entry}
    (hget : Table.get? (table.setIfInBounds number none) other = some entry) :
    table.get? other = some entry := by
  unfold Table.get? at hget ⊢
  rw [Array.getElem?_setIfInBounds] at hget
  split at hget
  next => split at hget <;> simp at hget
  next => exact hget

theorem get?_push {table : Table} {entry found : Entry} {number : Nat}
    (hget : Table.get? (table.push (some entry)) number = some found) :
    (number = table.size ∧ found = entry) ∨ table.get? number = some found := by
  unfold Table.get? at hget ⊢
  rw [Array.getElem?_push] at hget
  split at hget
  next hlast => exact .inl ⟨hlast, (Option.some.inj hget).symm⟩
  next => exact .inr hget

/-- The parts of a record. -/
structure RecordParts where
  maxStack : Int
  numParams : Int
  numUpvalues : Int
  variadic : UInt8
  types : Int × Bytes
  instructions : List Int
  raw : List Constant
  taken : Table × List Child
  linked : List Constant
  lineDefined : Int
  name : Bytes
  lines : List Int × List (Int × Int)
  names : List Local × List Bytes

def RecordParts.prototype (parts : RecordParts) : Prototype where
  body :=
    { name := parts.name
      lineDefined := parts.lineDefined
      numUpvalues := parts.numUpvalues
      numParams := parts.numParams
      maxStack := parts.maxStack
      flags := parts.types.1
      vararg := if parts.variadic = 0 then none else some ⟨true, true⟩
      instructions := parts.instructions
      constants := parts.linked
      sourceLines := parts.lines.2
      lineInfo := parts.lines.1
      locals := parts.names.1
      upvalueNames := parts.names.2
      typeInfo := parts.types.2 }
  children := parts.taken.2.map (·.entry.prototype)

/-- What the parts of a record come from. -/
structure RecordParts.From (room : Nat) (h : Header) (strings : Array Bytes) (table : Table)
    (parts : RecordParts) : Prop where
  maxStack : byte.Gives room parts.maxStack
  numParams : byte.Gives room parts.numParams
  numUpvalues : byte.Gives room parts.numUpvalues
  types : (typeBlock h).Gives room parts.types
  instructions : (counted "count instruction" count instruction).Gives room parts.instructions
  raw : (constants strings).Gives room parts.raw
  taken : (takeChildren table).Gives room parts.taken
  linked : (linkConstants (parts.taken.2.map (·.number)) 0 parts.raw).Gives room parts.linked
  lineDefined : count.Gives room parts.lineDefined
  name : (stringRef strings).Gives room parts.name
  lines : (optionalPart ([], []) (lineTable parts.instructions.length)).Gives room parts.lines
  names : (optionalPart ([], []) (debugTable strings)).Gives room parts.names

theorem record_delivers (table : Table) :
    (record h strings maxDepth table).Delivers room fun found => ∃ parts : RecordParts,
      parts.From room h strings table ∧ found.1.prototype = parts.prototype ∧
        found.2 = parts.taken.1 ∧ found.1.height = heightOver parts.taken.2 ∧
          found.1.height ≤ maxDepth := by
  refine settles_byte.gives.bind fun maxStack hmaxStack => ?_
  refine settles_byte.gives.bind fun numParams hnumParams => ?_
  refine settles_byte.gives.bind fun numUpvalues hnumUpvalues => ?_
  refine .skip settles_nextByte fun variadic => ?_
  refine (settles_typeBlock h).gives.bind fun types htypes => ?_
  refine (settles_counted _ settles_count settles_instruction).gives.bind
    fun instructions hinstructions => ?_
  refine (settles_constants strings).gives.bind fun raw hraw => ?_
  refine (settles_takeChildren table).gives.bind fun taken htaken => ?_
  refine (settles_linkConstants _ _ _).gives.bind fun linked hlinked => ?_
  dsimp only
  split
  next =>
    rw [fail_bind]
    exact .fail _
  next hdepth =>
    refine settles_count.gives.bind fun lineDefined hline => ?_
    refine (settles_stringRef strings).gives.bind fun name hname => ?_
    refine .skip (settles_emit _) fun _ => ?_
    refine (settles_optionalPart _ (settles_lineTable _)).gives.bind fun lines hlines => ?_
    refine (settles_optionalPart _ (settles_debugTable strings)).gives.map fun names hnames => ?_
    exact ⟨⟨maxStack, numParams, numUpvalues, variadic, types, instructions, raw, taken, linked,
      lineDefined, name, lines, names⟩, ⟨hmaxStack, hnumParams, hnumUpvalues, htypes,
      hinstructions, hraw, htaken, hlinked, hline, hname, hlines, hnames⟩, rfl, rfl, rfl,
      Int.not_lt.mp hdepth⟩

/-- Constants are read one by one, each with those before it at hand. -/
theorem constants_delivers (invariant : List Constant → Prop) (hstart : invariant [])
    (hconstant : ∀ known : Array Constant, invariant known.toList →
      (constant strings known).Delivers room fun value => invariant (known.toList ++ [value])) :
    (constants strings).Delivers room fun values =>
      values.length ≤ room ∧ invariant values := by
  refine .named (.skip settles_varint fun count => .checkCount_bind fun hcount => ?_) _
  refine (delivers_fold (fun index (known : Array Constant) =>
    known.size = index ∧ invariant known.toList) count ⟨rfl, hstart⟩ ?_).map ?_
  · rintro index known - ⟨hsize, hknown⟩
    refine .within ((hconstant known hknown).map fun value hvalue => ?_) _
    exact ⟨by rw [Array.size_push, hsize], by rwa [Array.toList_push]⟩
  · rintro values ⟨hsize, hvalues⟩
    exact ⟨by rw [Array.length_toList]; omega, hvalues⟩

/-- How a constant is linked to the children with the given numbers. -/
inductive LinkedTo (numbers : List Nat) : Constant → Constant → Prop
  | proto {target : Int} {place : Nat} (hplace : childIndex? numbers target = some place) :
      LinkedTo numbers (.proto target) (.proto place)
  | other {constant : Constant} (hconstant : ∀ target, constant ≠ .proto target) :
      LinkedTo numbers constant constant

/-- Constants are linked one by one. -/
structure Links (numbers : List Nat) (raw linked : List Constant) : Prop where
  length_eq : linked.length = raw.length
  of_raw : ∀ constant ∈ raw, ∃ result ∈ linked, LinkedTo numbers constant result
  to_raw : ∀ result ∈ linked, ∃ constant ∈ raw, LinkedTo numbers constant result

theorem linkConstants_delivers (numbers : List Nat) (slot : Nat) (raw : List Constant) :
    (linkConstants numbers slot raw).Delivers room (Links numbers raw) := by
  induction raw generalizing slot with
  | nil => exact .pure ⟨rfl, by simp, by simp⟩
  | cons constant rest ih =>
      have hlink : (linkConstant numbers slot constant).Delivers room
          (LinkedTo numbers constant) := by
        unfold linkConstant
        split
        next target =>
          split
          next place hplace => exact .pure (.proto hplace)
          next => exact .fail _
        next hother => exact .pure (.other fun target heq => hother target heq)
      refine hlink.bind fun result hresult => (ih _).map fun others hothers => ⟨?_, ?_, ?_⟩
      · rw [List.length_cons, List.length_cons, hothers.length_eq]
      · refine List.forall_mem_cons.mpr ⟨⟨result, List.mem_cons_self .., hresult⟩, ?_⟩
        intro found hfound
        obtain ⟨other, hmem, hlinked⟩ := hothers.of_raw found hfound
        exact ⟨other, List.mem_cons_of_mem _ hmem, hlinked⟩
      · refine List.forall_mem_cons.mpr ⟨⟨constant, List.mem_cons_self .., hresult⟩, ?_⟩
        intro other hother
        obtain ⟨found, hmem, hlinked⟩ := hothers.to_raw other hother
        exact ⟨found, List.mem_cons_of_mem _ hmem, hlinked⟩

/-- The number that a place was found by stands there. -/
theorem getElem?_of_childIndex? {numbers : List Nat} {target : Int} {place : Nat}
    (hplace : childIndex? numbers target = some place) :
    ∃ number : Nat, numbers[place]? = some number ∧ target = number := by
  obtain ⟨hlt, hfound, -⟩ := List.findIdx?_eq_some_iff_getElem.mp hplace
  exact ⟨numbers[place], List.getElem?_eq_getElem hlt, (eq_of_beq hfound).symm⟩

/-- Children come from the table, and what is left was there before. -/
structure TakenFrom (table : Table) (taken : Table × List Child) : Prop where
  size_eq : taken.1.size = table.size
  rest : ∀ {number entry}, taken.1.get? number = some entry → table.get? number = some entry
  children : ∀ child ∈ taken.2, table.get? child.number = some child.entry

theorem takeChildren_delivers (table : Table) :
    (takeChildren table).Delivers room fun taken =>
      taken.2.length ≤ room ∧ TakenFrom table taken := by
  refine .named (.skip settles_varint fun count => .checkCount_bind fun hcount => ?_) _
  refine (delivers_fold (fun index (state : Table × List Child) =>
    state.2.length = index ∧ TakenFrom table state) count
      ⟨rfl, rfl, id, fun child hmem => absurd hmem List.not_mem_nil⟩ ?_).mono
        fun taken htaken => ⟨by omega, htaken.2⟩
  rintro index ⟨rest, children⟩ - ⟨hlength, htaken⟩
  refine .skip settles_position fun offset => .skip settles_varint fun number => ?_
  split
  next entry hget =>
    refine .pure ⟨by simp [hlength], ?_, ?_, ?_⟩
    · rw [Array.size_setIfInBounds, htaken.size_eq]
    · exact fun hother => htaken.rest (get?_of_setIfInBounds_none hother)
    · exact List.forall_mem_append.mpr ⟨htaken.children, by simpa using htaken.rest hget⟩
  next => exact .failAt _ _

/-- What every record keeps of the table holds of the one that the main function is found in. -/
theorem main_keeps {onStrings : Array Bytes → Prop} (kept : Table → Prop)
    (hstrings : stringTable.Delivers room onStrings) (hempty : kept #[])
    (hrecord : ∀ {strings index table}, onStrings strings → kept table →
      (nextRecord h strings maxDepth index table).Delivers room kept) :
    (main h maxDepth).Delivers room fun tree => ∃ table number height,
      kept table ∧ table.get? number = some ⟨tree, height⟩ := by
  refine .named (hstrings.bind fun strings hknown => .skip (settles_emit _) fun _ => ?_) _
  refine .skip (settles_userdataTypes h strings) fun _ => .skip settles_varint fun recordCount => ?_
  refine .skip (settles_emit _) fun _ => .checkCount_bind fun _ => ?_
  refine (delivers_fold (fun _ table => kept table) recordCount hempty
    fun index table _ htable => hrecord hknown htable).bind fun table htable => ?_
  refine .skip settles_position fun offset => .skip settles_varint fun number => ?_
  split
  next entry hget => exact .pure ⟨table, number, entry.height, htable, hget⟩
  next => exact .failAt _ _

/-- What holds of every function as it is read holds of all functions of a dump. -/
theorem main_delivers {onStrings : Array Bytes → Prop} {holds : Prototype → Prop}
    (hstrings : stringTable.Delivers room onStrings)
    (hrecord : ∀ {strings table} {parts : RecordParts}, onStrings strings →
      parts.From room h strings table → holds parts.prototype) :
    (main h maxDepth).Delivers room (Prototype.Everywhere holds) := by
  refine (main_keeps (TableHolds holds) hstrings (fun hget => ?_) ?_).mono ?_
  · simp [Table.get?] at hget
  · intro strings index table hknown htable
    refine .within ((record_delivers table).map ?_) _
    rintro ⟨entry, rest⟩ ⟨parts, hparts, hentry, rfl, -⟩ number found hget
    have htaken := ((takeChildren_delivers table).of_gives hparts.taken).2
    rcases get?_push hget with ⟨-, rfl⟩ | hold
    · rw [hentry]
      refine Prototype.everywhere_iff.mpr ⟨hrecord hknown hparts, ?_⟩
      exact List.forall_mem_map.mpr fun child hchild => htable (htaken.children child hchild)
    · exact htable (htaken.rest hold)
  · rintro tree ⟨table, number, height, htable, hget⟩
    exact htable hget

end Luau

theorem mainFunction_of_isLuaJit {h : Header} (hdialect : h.dialect.isLuaJit = true)
    (maxDepth : Int) : mainFunction h maxDepth = Jit.main h maxDepth := by
  unfold mainFunction
  split
  all_goals simp_all [Dialect.isLuaJit]

section Files

variable {options : Options} {data : Array UInt8} {bytecode : Bytecode} {last : Int}
  {trace : List Event}

/-- A file is its header and its main function. The trace ends with the number of bytes behind
them. -/
theorem trace_of_decode (hdecode : decode options data = .done bytecode last trace) :
    ∃ mid first second,
      options.origin.header (Window.whole data) 0 = .done bytecode.header mid first ∧
        mainFunction bytecode.header options.maxDepth (Window.whole data) mid =
          .done bytecode.main last second ∧
        trace = first ++ second ++ [.finished bytecode.header.dialect (data.size - last)] := by
  obtain ⟨header, mid, first, _, hheader, hrest, rfl⟩ := bind_eq_done_iff.mp hdecode
  split at hrest
  next => simp at hrest
  next =>
    obtain ⟨tree, reached, second, finish, hmain, hfinish, rfl⟩ := bind_eq_done_iff.mp hrest
    obtain ⟨rfl, rfl, rfl⟩ := Outcome.done.inj hfinish
    refine ⟨mid, first, second, hheader, hmain, ?_⟩
    rw [List.append_assoc]
    rfl

/-- What a decoded file comes from. -/
theorem decode_gives (hdecode : decode options data = .done bytecode last trace) :
    options.origin.header.Gives data.size bytecode.header ∧
      (mainFunction bytecode.header options.maxDepth).Gives data.size bytecode.main := by
  obtain ⟨mid, first, second, hheader, hmain, -⟩ := trace_of_decode hdecode
  have hstart := Place.whole data
  obtain ⟨hpassed, hinside⟩ := (settles_header options.origin).passed hstart hheader
  exact ⟨⟨_, _, _, _, hstart, hheader⟩, ⟨_, _, _, _, hstart.next (by omega) hinside, hmain⟩⟩

end Files

end LuaDump
