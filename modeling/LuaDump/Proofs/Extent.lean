import LuaDump.Proofs.Shape
import LuaDump.Proofs.Spending

/-! # The extent of a dump

All that a decoded file holds in lists, over all of its functions, is no more than the bytes
that were read. Functions that wait for a parent are part of the state, so what was paid for
them is the credit of the records that follow.
-/

namespace LuaDump

open Decoder

namespace Constant

/-- The entries that stand directly in a table. -/
def entryCount : Constant → Nat
  | .table array hash => array.length + hash.length
  | _ => 0

/-- A constant and the entries that stand directly in it. -/
def extent (constant : Constant) : Nat :=
  constant.entryCount + 1

theorem extent_of_not_table {constant : Constant}
    (hconstant : ∀ array hash, constant ≠ .table array hash) : constant.extent = 1 := by
  cases constant with
  | table array hash => exact absurd rfl (hconstant array hash)
  | _ => rfl

theorem IsScalar.extent_eq {constant : Constant} (hconstant : constant.IsScalar) :
    constant.extent = 1 :=
  extent_of_not_table hconstant.not_table

theorem sum_map_extent (constants : List Constant) :
    (constants.map extent).sum = constants.length + (constants.map entryCount).sum := by
  induction constants with
  | nil => rfl
  | cons first rest ih =>
      simp only [List.map_cons, List.sum_cons, List.length_cons, ih, extent]
      omega

end Constant

/-- The items of the lists of a function, with one for the function itself. -/
def Body.extent (body : Body) : Nat :=
  1 + body.instructions.length + body.constants.length + body.numConstants.length +
    body.sourceLines.length + body.lineInfo.length + body.locals.length + body.upvalues.length +
    body.upvalueNames.length + (body.constants.map Constant.entryCount).sum

namespace Prototype

variable {measure : Body → Nat}

/-- A measure of functions, summed up over a tree. -/
def total (measure : Body → Nat) (tree : Prototype) : Nat :=
  (tree.postorder.map (measure ·.body)).sum

theorem sum_postorderAll (trees : List Prototype) :
    ((postorderAll trees).map (measure ·.body)).sum = (trees.map (total measure)).sum := by
  induction trees with
  | nil => rfl
  | cons tree rest ih =>
      rw [postorderAll, List.map_append, List.sum_append, ih, List.map_cons, List.sum_cons,
        Nat.add_comm]
      rfl

theorem total_eq (body : Body) (children : List Prototype) :
    total measure ⟨body, children⟩ = measure body + (children.map (total measure)).sum := by
  rw [total, postorder, List.map_append, List.sum_append, sum_postorderAll, Nat.add_comm]
  simp

end Prototype

/-- What a list of trees has in its functions. -/
abbrev forestExtent (trees : List Prototype) : Nat :=
  (trees.map (Prototype.total Body.extent)).sum

namespace Standard

variable {h : Header} {g : Grammar}

/-- The items of the lists behind the nested functions. -/
def Tail.extent (tail : Tail) : Nat :=
  tail.upvalues.length + tail.lineInfo.length + tail.sourceLines.length + tail.locals.length +
    tail.upvalueNames.length

/-- What the parts of a function cost. -/
structure Grammar.Spends (g : Grammar) : Prop where
  settles : g.Settles
  constant : g.constant.Yields Constant.IsScalar
  upvalues : g.upvalues.Spends 0 List.length
  tail : g.tail.Spends 0 Tail.extent

theorem Grammar.Spends.chunk (hg : g.Spends) (maxDepth : Int) (levels : Nat) :
    (g.chunk maxDepth levels).Spends 0 (Prototype.total Body.extent) := by
  induction levels with
  | zero => exact .fail _
  | succ levels ih =>
      have hconstant : g.constant.Spends 0 Constant.extent :=
        hg.settles.constant.spends_of_yields hg.constant fun constant hscalar =>
          Nat.le_of_eq hscalar.extent_eq
      refine .named (.skip hg.settles.head fun head => .skip (settles_emit _) fun _ => ?_) _
      refine (hg.settles.instruction.spends_counted _ hg.settles.count).pay fun instructions => ?_
      refine (hconstant.countedLabelled _ _ hg.settles.count).pay fun constants => ?_
      refine hg.upvalues.pay fun early => ?_
      refine (ih.countedLabelled _ _ hg.settles.count).pay fun children => ?_
      refine hg.tail.pay fun tail => .pure ?_
      rw [Prototype.total_eq]
      simp only [Body.extent, assemble, Tail.extent, Constant.sum_map_extent,
        List.length_append, List.length_nil]
      omega

theorem spends_plainTail {string : Decoder Bytes} {int : Decoder Int} (hstring : string.Settles 1)
    (hint : int.Settles 1) : (plainTail string int).Spends 0 Tail.extent := by
  have hline : (plainLine int).Settles 1 := hint.bind fun _ => settles_pure _
  refine (hline.spends_counted _ hint).pay fun sourceLines => ?_
  refine ((settles_localVariable hstring hint).spends_counted _ hint).pay fun locals => ?_
  refine (hstring.spends_counted _ hint).pay fun names => .pure ?_
  simp only [Tail.extent, List.length_nil]
  omega

theorem spends_tail52 : (tail52 h).Spends 0 Tail.extent := by
  refine (settles_upvalue.spends_counted _ (settles_int h)).pay fun upvalues => ?_
  refine .skip (settles_terminatedString h) fun name => ?_
  refine (spends_plainTail (settles_terminatedString h) (settles_int h)).pay
    fun tail => .pure ?_
  simp only [Tail.extent]
  omega

theorem spends_tail54 : tail54.Spends 0 Tail.extent := by
  have hint : groupedInt.Settles 1 := settles_groupedInt
  have hdelta : lineDelta.Settles 1 := settles_nextByte.bind fun _ => settles_pure _
  have hline : anchoredLine.Settles 1 := hint.bind fun _ => hint.weak.bind fun _ => settles_pure _
  have hlocal := settles_localVariable settles_groupedString hint
  refine (hdelta.spends_counted _ hint).pay fun lineInfo => ?_
  refine (hline.spends_counted _ hint).pay fun sourceLines => ?_
  refine (hlocal.spends_counted _ hint).pay fun locals => ?_
  refine (settles_groupedString.spends_counted _ hint).pay fun names => .pure ?_
  simp only [Tail.extent, List.length_nil]
  omega

/-- Captured variables that are described before the nested functions. -/
theorem spends_upvalues {upvalue : Decoder Upvalue} {count : Decoder Int}
    (hupvalue : upvalue.Settles 1) (hcount : count.Settles 1) :
    (counted "count upvalues" count upvalue).Spends 0 List.length :=
  (hupvalue.spends_counted _ hcount).trade fun upvalues => by omega

theorem grammar51_spends : (grammar51 h).Spends where
  settles := grammar51_settles h
  constant := taggedConstant_scalar payload51_scalar
  upvalues := .pure (Nat.le_refl 0)
  tail := spends_plainTail (settles_terminatedString h) (settles_int h)

theorem grammar52_spends : (grammar52 h).Spends where
  settles := grammar52_settles h
  constant := taggedConstant_scalar payload51_scalar
  upvalues := .pure (Nat.le_refl 0)
  tail := spends_tail52

theorem grammar53_spends : (grammar53 h).Spends where
  settles := grammar53_settles h
  constant := taggedConstant_scalar payload53_scalar
  upvalues := spends_upvalues settles_upvalue (settles_int h)
  tail := spends_plainTail (settles_escapedString h) (settles_int h)

theorem grammar54_spends : (grammar54 h).Spends where
  settles := grammar54_settles h
  constant := taggedConstant_scalar payload54_scalar
  upvalues := spends_upvalues settles_upvalueWithKind settles_groupedInt
  tail := spends_tail54

end Standard

namespace Jit

variable {h : Header}

/-- What the functions on a stack have. -/
def stackExtent (stack : List Completed) : Nat :=
  forestExtent (stack.map (·.prototype))

theorem stackExtent_cons (completed : Completed) (stack : List Completed) :
    stackExtent (completed :: stack) =
      completed.prototype.total Body.extent + stackExtent stack :=
  rfl

theorem stackExtent_concat (stack : List Completed) (completed : Completed) :
    stackExtent (stack ++ [completed]) =
      stackExtent stack + completed.prototype.total Body.extent := by
  simp [stackExtent, forestExtent]

theorem extent_tableOf (slots : List Constant) (hash : List (Constant × Constant)) :
    (tableOf slots hash).extent ≤ slots.length + hash.length + 1 := by
  cases slots with
  | nil => simp [tableOf, Constant.extent, Constant.entryCount]
  | cons first array =>
      simp only [tableOf, Constant.extent, Constant.entryCount, List.length_cons]
      split
      · omega
      · rw [List.length_append, List.length_singleton]
        omega

theorem spends_table : table.Spends 0 Constant.extent := by
  refine .named (.skip settles_varint fun arrayCount => .skip settles_varint fun hashCount => ?_) _
  refine ((settles_tableSlot.spends_items _).named _).pay fun slots => ?_
  refine ((settles_tableEntry.spends_items _).named _).pay fun hash => .pure ?_
  have hextent := extent_tableOf slots hash
  omega

/-- A written constant, where a child is a constant of its own. -/
def writtenExtent (written : Option Constant) : Nat :=
  written.elim 1 Constant.extent

theorem spends_writtenConstant : writtenConstant.Spends 0 writtenExtent := by
  refine .skip settles_varint fun tag => ?_
  split
  · exact .pure (Nat.le_refl 1)
  · exact spends_table.pay fun value => .pure (Nat.le_add_left _ _)
  · exact .skip settles_word fun value => .pure (Nat.le_add_right _ _)
  · exact .skip settles_word fun value => .pure (Nat.le_add_right _ _)
  · exact .skip settles_double fun re => .skip settles_double fun im =>
      .pure (by simp [writtenExtent, Constant.extent, Constant.entryCount])
  · have hstring : ∀ tag, (taggedString 5 tag).Spends (0 + 1) Constant.extent := fun tag =>
      (settles_taggedString 5 tag).spends_of_yields (taggedString_scalar 5 tag)
        fun value hscalar => Nat.le_of_eq hscalar.extent_eq
    exact (hstring _).bind fun value => .pure (Nat.le_refl _)

/-- What the state before a constant has. -/
def Progress.extent (progress : Progress) : Nat :=
  stackExtent progress.stack + stackExtent progress.children +
    (progress.constants.map Constant.extent).sum

theorem Progress.extent_extend? {progress next : Progress} {written : Option Constant}
    (hnext : progress.extend? written = some next) :
    next.extent = progress.extent + writtenExtent written := by
  cases written with
  | some constant =>
      obtain rfl := Option.some.inj hnext
      simp only [extent, push, List.map_cons, List.sum_cons, writtenExtent, Option.elim_some]
      omega
  | none =>
      simp only [extend?, adopt?] at hnext
      split at hnext
      next => exact absurd hnext (by simp)
      next completed rest hstack =>
        obtain rfl := Option.some.inj hnext
        simp only [extent, hstack, stackExtent_cons, stackExtent_concat, List.map_cons,
          List.sum_cons, writtenExtent, Option.elim_none, Constant.extent, Constant.entryCount]
        omega

theorem spends_constants (count : Nat) (stack : List Completed) :
    (constants count stack).Spends (stackExtent stack) Progress.extent := by
  have hconstant : ∀ progress, (constant progress).Spends progress.extent Progress.extent := by
    intro progress
    refine .skip settles_position fun offset => spends_writtenConstant.pay fun written => ?_
    split
    next next hnext => exact .pure (Nat.le_of_eq (Progress.extent_extend? hnext))
    next => exact .failAt _ _
  refine .named (.checkCount_bind ?_) _
  exact .fold (fun index progress => (hconstant progress).within _) count 0 { stack }

theorem settles_instruction : (instruction h).Settles 4 := by
  have hword : (unsigned 4 h.bigEndian).Settles 4 := by
    rw [unsigned, checkWidth, if_pos (by decide), pure_bind]
    exact (settles_field _ 4).bind fun _ => settles_pure _
  exact hword.bind fun _ => settles_pure _

/-- What a record has before its constants. Every instruction is four bytes long, which pays for
its two lines as well. -/
def RecordHead.extent (head : RecordHead) : Nat :=
  4 * head.instructions.length + head.upvalues.length + 1

theorem spends_recordHead : (recordHead h).Spends 0 RecordHead.extent := by
  refine .skip settles_nextByte fun flags => .skip settles_nextByte fun numParams => ?_
  refine .skip settles_nextByte fun frameSize => .skip settles_nextByte fun numUpvalues => ?_
  refine .skip settles_varint fun constantCount => .skip settles_varint fun numberCount => ?_
  refine .skip settles_varint fun instructionCount => .skip (settles_debugHead h) fun head => ?_
  refine .skip (settles_emit _) fun _ => ?_
  refine ((settles_instruction.spends_items _).named _).pay fun instructions => ?_
  refine (((settles_upvalue h).spends_items _).named _).pay fun upvalues => .pure ?_
  simp only [RecordHead.extent]
  omega

/-- What the debug information has, with every line counted twice. -/
def DebugInfo.extent (info : DebugInfo) : Nat :=
  2 * info.lineInfo.length + info.upvalueNames.length + info.locals.length

theorem spends_localVariables : localVariables.Spends 0 List.length := by
  have hstep : ∀ state : Nat × List Local, (localStep state).Spends state.2.length
      (Sum.elim (fun next => next.2.length) List.length) := by
    intro state
    refine .skip settles_nextByte fun code => ?_
    split
    · exact .pure (by simp)
    · refine .skip (settles_localName code) fun name => .skip settles_varint fun startDelta => ?_
      exact .skip settles_varint fun length => .pure (by simp)
  exact Spends.iterate hstep (0, [])

theorem spends_debugInfo (instructionCount upvalueCount lineCount : Nat) :
    (debugInfo h instructionCount upvalueCount lineCount).Spends instructionCount
      DebugInfo.extent := by
  have hline : (lineEntry h lineCount).Spends 1 fun _ => 2 :=
    ((settles_unsigned _ _).bind fun _ => settles_pure _).spends.trade fun line => Nat.le_refl _
  refine ((hline.items instructionCount).named _).draw (by simp) fun lineInfo => ?_
  refine ((Settles.spends_collect (fun _ => settles_takeUntil 0) upvalueCount 0).named _).pay
    fun upvalueNames => ?_
  refine (spends_localVariables.named _).pay fun locals => .pure ?_
  simp only [DebugInfo.extent, List.map_const', List.sum_replicate_nat]
  omega

theorem spends_debugBlock (size instructionCount upvalueCount lineCount : Nat) :
    (debugBlock h size instructionCount upvalueCount lineCount).Spends instructionCount
      DebugInfo.extent := by
  unfold debugBlock
  split
  · exact .pure (Nat.zero_le _)
  · refine .named (.block (spends_debugInfo instructionCount upvalueCount lineCount) ?_) _
    intro info reached hinfo
    exact .skip (settles_skip size) fun _ => .pure hinfo

theorem spends_fields (maxDepth : Int) (stack : List Completed) :
    (fields h maxDepth stack).Spends (stackExtent stack) fun found =>
      stackExtent (found.1 :: found.2) := by
  refine spends_recordHead.pay fun head => ?_
  refine (spends_constants head.constantCount stack).draw (by omega) fun progress => ?_
  refine (((settles_number.spends.labelledItems _ _)).named _).pay fun numbers => ?_
  dsimp only
  split
  next =>
    rw [fail_bind]
    exact .fail _
  next =>
    refine (spends_debugBlock _ _ _ _).draw ?_ fun info => .pure ?_
    · simp only [RecordHead.extent]
      omega
    · have hchildren : forestExtent (progress.children.map (·.prototype)) =
          stackExtent progress.children := rfl
      simp only [stackExtent_cons, Prototype.total_eq, Body.extent, RecordHead.body,
        RecordHead.extent, DebugInfo.extent, Progress.extent, Constant.sum_map_extent,
        List.map_const', List.sum_replicate_nat, List.length_map, hchildren]
      omega

/-- The stack behind a record, or the one before it at the end of the file. -/
theorem spends_record (maxDepth : Int) (stack : List Completed) :
    (record h maxDepth stack).Spends (stackExtent stack) fun next =>
      stackExtent (next.getD stack) := by
  refine .skip settles_position fun offset => .skip settles_varint fun size => ?_
  split
  · exact .pure (Nat.le_add_right _ _)
  · refine .skip settles_position fun start => ?_
    refine .block ((spends_fields maxDepth stack).afford (by omega)) ?_
    rintro ⟨completed, rest⟩ reached hpaid
    dsimp only
    split
    · rw [failAt_bind]
      exact .failAt _ _
    · exact .skip (settles_skip size) fun _ => .pure hpaid

theorem spends_main (maxDepth : Int) :
    (main h maxDepth).Spends 0 (Prototype.total Body.extent) := by
  have hstep : ∀ state : Nat × List Completed, (recordStep h maxDepth state).Spends
      (stackExtent state.2) (Sum.elim (fun next => stackExtent next.2) stackExtent) := by
    rintro ⟨index, stack⟩
    refine ((spends_record maxDepth stack).within _).bind fun next => ?_
    cases next with
    | some next => exact .pure (Nat.le_refl _)
    | none => exact .pure (Nat.le_refl _)
  refine .named (.skip (settles_chunkName h) fun name => ?_) _
  refine (Spends.iterate hstep (0, [])).bind fun stack => ?_
  unfold soleCompleted
  split
  next completed =>
    rw [pure_bind]
    refine .pure (Nat.le_of_eq ?_)
    obtain ⟨⟨body, children⟩, height⟩ := completed
    rw [Prototype.total_eq, stackExtent_cons, Prototype.total_eq]
    rfl
  next =>
    rw [fail_bind]
    exact .fail _

end Jit

namespace Luau

variable {h : Header} {strings : Array Bytes}

theorem spends_constant (known : Array Constant) :
    (constant strings known).Spends 0 Constant.extent := by
  refine .skip settles_position fun offset => .skip settles_nextByte fun tag => ?_
  split
  next payload hsome =>
    unfold payload? at hsome
    split at hsome <;> simp only [Option.some.injEq, reduceCtorEq] at hsome <;> subst hsome
    · exact .pure (Nat.le_refl 1)
    · exact .skip settles_nextByte fun _ => .pure (Nat.le_add_right _ _)
    · exact .skip (settles_float _ _) fun _ => .pure (Nat.le_add_right _ _)
    · exact .skip (settles_stringRef strings) fun _ => .pure (Nat.le_add_right _ _)
    · exact .skip (settles_unsigned _ _) fun _ => .pure (Nat.le_add_right _ _)
    · refine .skip settles_varint fun count => ?_
      refine (Settles.spends_collect (fun _ => settles_tableKey known) count 0).pay
        fun hash => .pure ?_
      simp only [Constant.extent, Constant.entryCount, List.length_nil]
      omega
    · exact .skip settles_varint fun _ => .pure (Nat.le_add_right _ _)
    · exact .skip (settles_collect (fun _ => settles_single) 4 0) fun _ =>
        .pure (Nat.le_add_right _ _)
  next => exact .failAt _ _

theorem spends_constants : (constants strings).Spends 0 fun values =>
    (values.map Constant.extent).sum := by
  have hnext : ∀ index (known : Array Constant), (nextConstant strings index known).Spends
      (known.toList.map Constant.extent).sum fun next => (next.toList.map Constant.extent).sum := by
    intro index known
    refine .within ((spends_constant known).pay fun value => .pure (Nat.le_of_eq ?_)) _
    simp
  refine .named (.skip settles_varint fun count => .checkCount_bind ?_) _
  exact (Spends.fold hnext count 0 #[]).draw (Nat.zero_le _) fun values =>
    .pure (Nat.le_add_left _ _)

/-- Linking changes no table. -/
theorem spends_linkConstants (numbers : List Nat) (slot : Nat) (raw : List Constant) :
    (linkConstants numbers slot raw).Spends (raw.map Constant.extent).sum fun linked =>
      (linked.map Constant.extent).sum := by
  induction raw generalizing slot with
  | nil => exact .pure (Nat.le_refl 0)
  | cons constant rest ih =>
      have hlink : (linkConstant numbers slot constant).Spends constant.extent
          Constant.extent := by
        unfold linkConstant
        split
        next target =>
          split
          next place hplace => exact .pure (Nat.le_refl 1)
          next => exact .fail _
        next => exact .pure (Nat.le_refl _)
      rw [List.map_cons, List.sum_cons]
      refine hlink.draw (by omega) fun linked => (ih _).draw (by omega) fun others => .pure ?_
      rw [List.map_cons, List.sum_cons]
      omega

/-- What a place of the table has; one that has been taken has nothing. -/
def entryExtent (entry : Option Entry) : Nat :=
  entry.elim 0 fun entry => entry.prototype.total Body.extent

/-- What the functions of a table have that have no parent yet. -/
def tableExtent (table : Table) : Nat :=
  (table.toList.map entryExtent).sum

theorem tableExtent_push (table : Table) (entry : Entry) :
    tableExtent (table.push (some entry)) =
      tableExtent table + entry.prototype.total Body.extent := by
  simp [tableExtent, entryExtent]

theorem sum_map_set {α : Type} {measure : α → Nat} {items : List α} {place : Nat} {old : α}
    (hold : items[place]? = some old) (new : α) :
    ((items.set place new).map measure).sum + measure old =
      (items.map measure).sum + measure new := by
  induction items generalizing place with
  | nil => simp at hold
  | cons first rest ih =>
      cases place with
      | zero =>
          obtain rfl := Option.some.inj hold
          simp only [List.set_cons_zero, List.map_cons, List.sum_cons]
          omega
      | succ place =>
          have hrest := ih (show rest[place]? = some old by simpa using hold)
          simp only [List.set_cons_succ, List.map_cons, List.sum_cons]
          omega

/-- What is taken out of a table is no longer in it. -/
theorem tableExtent_take {table : Table} {number : Nat} {entry : Entry}
    (hget : table.get? number = some entry) :
    tableExtent (table.setIfInBounds number none) + entry.prototype.total Body.extent =
      tableExtent table := by
  have hplace : table.toList[number]? = some (some entry) := by
    rwa [Array.getElem?_toList, ← Option.join_eq_some_iff]
  have hset : _ + entryExtent (some entry) = tableExtent table + entryExtent none :=
    sum_map_set hplace none
  rwa [← Array.toList_setIfInBounds] at hset

theorem total_le_tableExtent {table : Table} {number : Nat} {entry : Entry}
    (hget : table.get? number = some entry) :
    entry.prototype.total Body.extent ≤ tableExtent table := by
  have htaken := tableExtent_take hget
  omega

/-- What the children of a function have. -/
def childrenExtent (children : List Child) : Nat :=
  forestExtent (children.map (·.entry.prototype))

theorem spends_takeChildren (table : Table) :
    (takeChildren table).Spends (tableExtent table) fun taken =>
      tableExtent taken.1 + childrenExtent taken.2 := by
  have htake : ∀ (index : Nat) (state : Table × List Child), (takeChild state).Spends
      (tableExtent state.1 + childrenExtent state.2) fun next =>
        tableExtent next.1 + childrenExtent next.2 := by
    rintro index ⟨table, children⟩
    refine .skip settles_position fun offset => .skip settles_varint fun number => ?_
    split
    next entry hget =>
      have htaken := tableExtent_take hget
      refine .pure ?_
      simp only [childrenExtent, forestExtent, List.map_append, List.sum_append, List.map_cons,
        List.map_nil, List.sum_cons, List.sum_nil]
      omega
    next => exact .failAt _ _
  refine .named (.skip settles_varint fun count => .checkCount_bind ?_) _
  exact (Spends.fold htake count 0 (table, [])).afford (Nat.le_add_right _ _)

theorem spends_lineTable (instructionCount : Nat) :
    (lineTable instructionCount).Spends 0 fun lines => lines.1.length + lines.2.length := by
  have hinterval : ∀ gap index (state : Int × List (Int × Int)),
      (nextInterval gap index state).Spends state.2.length fun next => next.2.length := by
    intro gap index state
    exact .skip (settles_signed _ _) fun delta => .pure (by simp)
  refine .named (.skip settles_nextByte fun gap => ?_) _
  refine (settles_byte.spends_items _).pay fun lineInfo => ?_
  refine (Spends.fold (hinterval gap.toNat) _ 0 (0, [])).draw (Nat.zero_le _) fun state => .pure ?_
  simp only [List.length_reverse, List.length_nil]
  omega

theorem spends_debugTable : (debugTable strings).Spends 0 fun names =>
    names.1.length + names.2.length := by
  refine .named ?_ _
  refine ((settles_localVariable strings).spends_counted _ settles_count).pay fun locals => ?_
  refine ((settles_stringRef strings).spends_counted _ settles_count).pay fun names => .pure ?_
  dsimp only
  omega

theorem spends_optionalPart {α β : Type} {part : Decoder (List α × List β)}
    (hpart : part.Spends 0 fun lists => lists.1.length + lists.2.length) :
    (optionalPart ([], []) part).Spends 0 fun lists => lists.1.length + lists.2.length := by
  refine .skip settles_nextByte fun present => ?_
  split
  · exact .pure (Nat.zero_le _)
  · exact hpart.afford (Nat.zero_le _)

theorem spends_record (maxDepth : Int) (table : Table) :
    (record h strings maxDepth table).Spends (tableExtent table) fun found =>
      found.1.prototype.total Body.extent + tableExtent found.2 := by
  refine .skip settles_byte fun maxStack => .skip settles_byte fun numParams => ?_
  refine .skip settles_byte fun numUpvalues => .skip settles_nextByte fun variadic => ?_
  refine .skip (settles_typeBlock h) fun types => ?_
  refine (settles_instruction.spends_counted _ settles_count).pay fun instructions => ?_
  refine spends_constants.pay fun raw => ?_
  refine (spends_takeChildren table).draw (by omega) fun taken => ?_
  refine (spends_linkConstants _ _ raw).draw (by omega) fun linked => ?_
  dsimp only
  split
  next =>
    rw [fail_bind]
    exact .fail _
  next =>
    refine .skip settles_count fun lineDefined => .skip (settles_stringRef strings) fun name => ?_
    refine .skip (settles_emit _) fun _ => ?_
    refine (spends_optionalPart (spends_lineTable _)).pay fun lines => ?_
    refine (spends_optionalPart spends_debugTable).pay fun names => .pure ?_
    have hchildren : forestExtent (taken.2.map (·.entry.prototype)) = childrenExtent taken.2 := rfl
    simp only [Prototype.total_eq, Body.extent, Constant.sum_map_extent, List.length_nil, hchildren]
    omega

theorem spends_main (maxDepth : Int) :
    (main h maxDepth).Spends 0 (Prototype.total Body.extent) := by
  have hnext : ∀ strings index table,
      (nextRecord h strings maxDepth index table).Spends (tableExtent table) tableExtent := by
    intro strings index table
    refine .within ((spends_record maxDepth table).bind fun found => .pure (Nat.le_of_eq ?_)) _
    rw [tableExtent_push, Nat.add_comm]
  refine .named (.skip settles_stringTable fun strings => .skip (settles_emit _) fun _ => ?_) _
  refine .skip (settles_userdataTypes h strings) fun _ => .skip settles_varint fun count => ?_
  refine .skip (settles_emit _) fun _ => .checkCount_bind ?_
  refine (Spends.fold (hnext strings) count 0 #[]).draw (Nat.zero_le _) fun table => ?_
  refine .skip settles_position fun offset => .skip settles_varint fun index => ?_
  split
  next entry hget =>
    have hentry := total_le_tableExtent hget
    exact .pure (by omega)
  next => exact .failAt _ _

end Luau

theorem spends_mainFunction (h : Header) (maxDepth : Int) :
    (mainFunction h maxDepth).Spends 0 (Prototype.total Body.extent) := by
  unfold mainFunction
  split
  · exact Standard.grammar51_spends.chunk maxDepth _
  · exact Standard.grammar52_spends.chunk maxDepth _
  · exact Standard.grammar53_spends.chunk maxDepth _
  · exact Standard.grammar54_spends.chunk maxDepth _
  · exact Jit.spends_main maxDepth
  · exact Jit.spends_main maxDepth
  · exact Luau.spends_main maxDepth

/-- Behind a header, all that a file comes to have is paid for by the bytes of its functions. -/
theorem spends_file (options : Options) :
    (file options).Spends 0 fun bytecode => bytecode.main.total Body.extent := by
  refine .skip (settles_header options.origin) fun header => ?_
  split
  · rw [failAt_bind]
    exact .failAt _ _
  · refine (spends_mainFunction header options.maxDepth).pay fun main => ?_
    have hfinish : (do
        let left ← remaining
        emit (.finished header.dialect left)
        pure ⟨header, main⟩ : Decoder Bytecode).Yields fun bytecode => bytecode.main = main := by
      intro w pos bytecode last trace hdone
      obtain ⟨rfl, -, -⟩ := Outcome.done.inj hdone
      rfl
    refine (settles_finish header main).spends_of_yields hfinish fun bytecode hmain => ?_
    rw [hmain]
    exact Nat.le_add_left _ _

/-- What a file comes to have in the lists of all its functions, one more for every function and
the entries of every table is at most the number of bytes that were read. -/
theorem extent_le_consumed {options : Options} {data : Array UInt8} {bytecode : Bytecode}
    {last : Int} {trace : List Event} (hdecode : decode options data = .done bytecode last trace) :
    (bytecode.main.total Body.extent : Int) ≤ last ∧ last ≤ data.size := by
  obtain ⟨-, hinside, hpaid⟩ := spends_file options (.whole data) hdecode
  dsimp only at hpaid
  exact ⟨by omega, hinside⟩

/-- A Luau dump of one function with two constants, the second a table with the first as its
key. -/
def smallTableSample : Array UInt8 :=
  #[3, 0, 1, 0, 0, 0, 0, 0, 2, 0, 5, 1, 0, 0, 0, 0, 0, 0, 0]

theorem extent_le_consumed_smallTableSample : ∃ bytecode last trace,
    decode { origin := .luau } smallTableSample = .done bytecode last trace ∧
      bytecode.main.total Body.extent = 4 ∧
        (bytecode.main.total Body.extent : Int) ≤ last ∧ last ≤ smallTableSample.size := by
  obtain ⟨bytecode, last, trace, hdecode, hextent⟩ : ∃ bytecode last trace,
      decode { origin := .luau } smallTableSample = .done bytecode last trace ∧
        bytecode.main.total Body.extent = 4 := ⟨_, _, _, rfl, rfl⟩
  exact ⟨bytecode, last, trace, hdecode, hextent, extent_le_consumed hdecode⟩

end LuaDump
