import LuaDump.Proofs.Jit.Stack
import LuaDump.Proofs.Reading.Number
import LuaDump.Proofs.Relocation

/-! # The length of a record

A record declares how many bytes its fields take. The fields determine where they end, wherever
the record stands and however long it is said to be, so one length only is accepted. A record that
is said to be shorter is truncated, and one that is said to be longer has bytes left over.
-/

namespace LuaDump

namespace Decoder

/-- What one group adds to a number that is accepted so far. -/
theorem lowGroup_eq_done {bits shift value : Nat} {start pos mid last : Int} {w : Window}
    {b : UInt8} {next : (Nat × Nat) ⊕ Nat} {trace trace' : List Event}
    (hbyte : nextByte w pos = .done b mid trace')
    (hdone : lowGroup bits start (shift, value) w pos = .done next last trace) :
    mid = last ∧ value + groupOf b * 2 ^ shift < 2 ^ bits ∧
      next = if isMarked b then .inl (shift + 7, value + groupOf b * 2 ^ shift)
        else .inr (value + groupOf b * 2 ^ shift) := by
  obtain ⟨_, _, _, _, hfirst, hgroup, -⟩ := bind_eq_done_iff.mp hdone
  obtain ⟨rfl, rfl, -⟩ := Outcome.done.inj (hbyte.symm.trans hfirst)
  split at hgroup
  next => exact absurd hgroup not_failAt_eq_done
  next hsmall =>
    split at hgroup
    next hmarked =>
      obtain ⟨rfl, rfl, -⟩ := pure_eq_done_iff.mp hgroup
      exact ⟨rfl, Nat.not_le.mp hsmall, by simp_all⟩
    next hmarked =>
      split at hgroup
      next => exact absurd hgroup not_failAt_eq_done
      next =>
        obtain ⟨rfl, rfl, -⟩ := pure_eq_done_iff.mp hgroup
        exact ⟨rfl, Nat.not_le.mp hsmall, by simp_all⟩

/-- A number that is read from its groups fits into the bits. -/
theorem lowGroup_loop_lt {bits : Nat} {start : Int} {w : Window} (hw : w.Sound) (n : Nat)
    {shift value result : Nat} {pos last : Int} {trace : List Event}
    (hholds : w.Holds pos (Bytes.lowGroups n))
    (hdone : iterate (lowGroup bits start) (shift, value) w pos = .done result last trace) :
    value + n * 2 ^ shift < 2 ^ bits := by
  induction n using Nat.strongRecOn generalizing shift value pos trace with
  | ind n ih =>
      have hinside := hholds.inside
      rw [iterate_eq_bind (settles_lowGroup bits start) hw _ hholds.nonneg (by omega)] at hdone
      obtain ⟨next, mid, _, _, hstep, hrest, -⟩ := bind_eq_done_iff.mp hdone
      by_cases hn : n < 128
      · rw [Bytes.lowGroups_of_lt hn] at hholds
        obtain ⟨_, hbyte⟩ := reads_nextByte _ w pos hw hholds
        obtain ⟨-, hlt, -⟩ := lowGroup_eq_done hbyte hstep
        rwa [(group_of_lt hn).1] at hlt
      · -- The number without its lowest group is read above that group.
        have hgroup := group_of_marked (Nat.mod_lt n (by decide : 0 < 128))
        rw [Bytes.lowGroups_of_le (by omega)] at hholds
        obtain ⟨_, hbyte⟩ := reads_nextByte _ w pos hw hholds.left
        obtain ⟨rfl, -, rfl⟩ := lowGroup_eq_done hbyte hstep
        rw [hgroup.1, hgroup.2, if_pos rfl] at hrest
        have hlt := ih (n / 128) (by omega) hholds.right hrest
        rwa [groups_split] at hlt

/-- The groups of a number that does not fit are refused. -/
theorem lt_of_varint_eq_done {w : Window} (hw : w.Sound) {n value : Nat} {pos last : Int}
    {trace : List Event} (hholds : w.Holds pos (Bytes.lowGroups n))
    (hdone : varint w pos = .done value last trace) : n < 2 ^ 32 := by
  obtain ⟨start, mid, _, _, hposition, hloop, -⟩ := bind_eq_done_iff.mp hdone
  obtain ⟨-, rfl, -⟩ := Outcome.done.inj hposition
  simpa using lowGroup_loop_lt hw n hholds hloop

end Decoder

namespace Jit

open Decoder

variable {h : Header}

section Moving

theorem movable_word : word.Movable :=
  movable_varint.bind fun _ => movable_varint.bind fun _ => .pure _

theorem movable_double : double.Movable :=
  movable_word.bind fun _ => .pure _

theorem movable_taggedString (firstTag tag : Nat) : (taggedString firstTag tag).Movable :=
  ((movable_take _).bind fun _ => .pure _).named _

theorem movable_tableSlot : tableSlot.Movable := by
  refine movable_varint.bind fun tag => ?_
  split
  · exact .pure _
  · exact .pure _
  · exact .pure _
  · exact movable_varint.bind fun _ => .pure _
  · exact movable_double.bind fun _ => .pure _
  · exact movable_taggedString _ _

theorem movable_table : table.Movable := by
  refine MovesTo.named ?_ _
  have hentry : tableEntry.Movable :=
    movable_tableSlot.bind fun _ => movable_tableSlot.bind fun _ => .pure _
  refine movable_varint.bind fun arrayCount => movable_varint.bind fun hashCount => ?_
  refine ((movable_items _ movable_tableSlot).named _).bind fun slots => ?_
  exact ((movable_items _ hentry).named _).bind fun hash => .pure _

theorem movable_writtenConstant : writtenConstant.Movable := by
  refine movable_varint.bind fun tag => ?_
  split
  · exact .pure _
  · exact movable_table.bind fun _ => .pure _
  · exact movable_word.bind fun _ => .pure _
  · exact movable_word.bind fun _ => .pure _
  · exact movable_double.bind fun _ => movable_double.bind fun _ => .pure _
  · exact (movable_taggedString _ _).bind fun _ => .pure _

theorem movable_constant (progress : Progress) : (constant progress).Movable := by
  refine .position_bind fun offset offset' => movable_writtenConstant.bind fun written => ?_
  split
  · exact .pure _
  · exact .failAt _ _

theorem movable_number : number.Movable := by
  refine movable_peekByte.bind fun selector => movable_numericHead.bind fun low => ?_
  split
  · exact movable_varint.bind fun _ => .pure _
  · exact .pure _

theorem movable_localStep (state : Nat × List Local) : (localStep state).Movable := by
  have hname : ∀ code, (localName code).Movable := by
    intro code
    unfold localName
    split
    · exact .pure _
    · exact (movable_takeUntil 0).bind fun rest => .pure _
  refine movable_nextByte.bind fun code => ?_
  split
  · exact .pure _
  · refine (hname code).bind fun name => ?_
    exact movable_varint.bind fun _ => movable_varint.bind fun _ => .pure _

theorem movable_debugInfo (h : Header) (instructionCount upvalueCount lineCount : Nat) :
    (debugInfo h instructionCount upvalueCount lineCount).Movable := by
  have hline : (lineEntry h lineCount).Movable := (movable_unsigned _ _).bind fun _ => .pure _
  refine ((movable_items _ hline).named _).bind fun lineInfo => ?_
  refine (MovesTo.named (.collect (fun _ => movable_takeUntil 0) _ _) _).bind fun names => ?_
  exact (MovesTo.named (.iterate movable_localStep _) _).bind fun locals => .pure _

theorem movable_debugBlock (h : Header) (size instructionCount upvalueCount lineCount : Nat) :
    (debugBlock h size instructionCount upvalueCount lineCount).Movable := by
  unfold debugBlock
  split
  · exact .pure _
  · refine MovesTo.named ?_ _
    have hblock := (movable_block (movable_debugInfo h instructionCount upvalueCount lineCount)
      size).bind fun info => (movable_skip size).bind fun _ => MovesTo.pure info
    simpa only [block, bind_assoc, pure_bind] using hblock

theorem movable_debugHead (h : Header) : (debugHead h).Movable := by
  unfold debugHead
  split
  · exact .pure _
  · refine movable_varint.bind fun size => ?_
    split
    · exact .pure _
    · exact movable_varint.bind fun _ => movable_varint.bind fun _ => .pure _

theorem movable_recordHead (h : Header) : (recordHead h).Movable := by
  refine movable_nextByte.bind fun flags => movable_nextByte.bind fun numParams => ?_
  refine movable_nextByte.bind fun frameSize => movable_nextByte.bind fun numUpvalues => ?_
  refine movable_varint.bind fun constantCount => movable_varint.bind fun numberCount => ?_
  refine movable_varint.bind fun instructionCount => (movable_debugHead h).bind fun sizes => ?_
  refine (MovesTo.emit _).bind fun _ => ?_
  have hinstruction : (instruction h).Movable := (movable_unsigned _ _).bind fun _ => .pure _
  have hupvalue : (upvalue h).Movable := (movable_unsigned _ _).bind fun _ => .pure _
  refine ((movable_items _ hinstruction).named _).bind fun instructions => ?_
  exact ((movable_items _ hupvalue).named _).bind fun upvalues => .pure _

theorem movable_constants (count : Nat) (stack : List Completed) :
    (constants count stack).Movable := by
  refine MovesTo.named ((movable_checkCount _).bind fun _ => ?_) _
  exact .fold (fun index progress => (movable_constant progress).within _) _ _ _

/-- The fields of a record are read alike wherever they stand. -/
theorem movable_fields (h : Header) (maxDepth : Int) (stack : List Completed) :
    (fields h maxDepth stack).Movable := by
  refine (movable_recordHead h).bind fun head => (movable_constants _ stack).bind fun progress => ?_
  refine ((movable_labelledItems _ _ movable_number).named _).bind fun numConstants => ?_
  dsimp only
  split
  · rw [fail_bind]
    exact .fail _
  · exact (movable_debugBlock h _ _ _ _).bind fun _ => .pure _

end Moving

section Records

variable {maxDepth : Int} {stack : List Completed} {w : Window} {pos mid : Int} {size : Nat}
  {trace : List Event}

/-- What is done with the fields of a record and the position that they reach. -/
def completeRecord (offset start : Int) (size : Nat)
    (read : (Completed × List Completed) × Int) : Decoder (Option (List Completed)) := do
  if read.2 ≠ start + size then failAt offset (.recordSize size (read.2 - start))
  skip size
  pure (some (read.1.1 :: read.1.2))

theorem record_of_size (hsize : varint w pos = .done size mid trace) (hne : size ≠ 0) :
    record h maxDepth stack w pos =
      ((block size (fields h maxDepth stack) >>= completeRecord pos mid size) w mid).after
        trace := by
  have hposition : ∀ pos, position w pos = .done pos pos [] := fun _ => rfl
  rw [record, bind_of_done (hposition pos), bind_of_done hsize, Outcome.after_nil]
  simp only [if_neg hne, block, bind_assoc]
  rw [bind_of_done (hposition mid), Outcome.after_nil]
  rfl

/-- In a record that is accepted, the fields end where its size says. -/
theorem fields_of_record (hsize : varint w pos = .done size mid trace) (hne : size ≠ 0)
    {found : Option (List Completed)} {last : Int} {trace' : List Event}
    (hdone : record h maxDepth stack w pos = .done found last trace') :
    last = mid + size ∧ mid + size ≤ w.stop ∧ ∃ value inner,
      fields h maxDepth stack ⟨w.data, mid + size⟩ mid = .done value (mid + size) inner := by
  rcases record_eq_done hdone with
    ⟨-, _, hend⟩ | ⟨_, _, _, inner, completed, rest, hread, -, hle, hfields, -, rfl, -⟩
  · obtain ⟨rfl, -, -⟩ := Outcome.done.inj (hsize.symm.trans hend)
    exact absurd rfl hne
  · obtain ⟨rfl, rfl, -⟩ := Outcome.done.inj (hsize.symm.trans hread)
    exact ⟨rfl, hle, (completed, rest), inner, hfields⟩

/-- A record is truncated if it does not fit, or if its fields do not fit into it. -/
theorem record_truncated (hsize : varint w pos = .done size mid trace) (hne : size ≠ 0)
    (hshort : mid + size ≤ w.stop →
      (fields h maxDepth stack ⟨w.data, mid + size⟩ mid).Truncated) :
    (record h maxDepth stack w pos).Truncated := by
  rw [record_of_size hsize hne]
  refine Outcome.Truncated.after ?_ trace
  have hblock : (block size (fields h maxDepth stack) w mid).Truncated := by
    by_cases hle : mid + size ≤ w.stop
    · obtain ⟨failure, last, trace', hfailed, hkind⟩ := (hshort hle).eq_failed
      rw [block_of_le _ hle, inWindow, hfailed]
      exact hkind
    · exact block_truncated _ (Int.not_le.mp hle)
  obtain ⟨failure, last, trace', hfailed, hkind⟩ := hblock.eq_failed
  rw [bind_of_failed hfailed]
  exact hkind

/-- A record whose fields end elsewhere is refused at its size. -/
theorem record_mismatch (hsize : varint w pos = .done size mid trace) (hne : size ≠ 0)
    (hle : mid + size ≤ w.stop) {value : Completed × List Completed} {reached : Int}
    {inner : List Event}
    (hfields : fields h maxDepth stack ⟨w.data, mid + size⟩ mid = .done value reached inner)
    (hreached : reached ≠ mid + size) :
    ∃ last trace', record h maxDepth stack w pos =
      .failed ⟨.recordSize size (reached - mid), pos, []⟩ last trace' := by
  have hblock : block size (fields h maxDepth stack) w mid = .done (value, reached) mid inner := by
    rw [block_of_le _ hle]
    exact inWindow_eq_done_iff.mpr ⟨hfields, rfl⟩
  rw [record_of_size hsize hne, bind_of_done hblock, completeRecord, if_pos hreached, failAt_bind]
  exact ⟨mid, trace ++ (inner ++ []), rfl⟩

end Records

section Lengths

variable {maxDepth : Int} {stack : List Completed} {head rest : Bytes} {size size' : Nat}
  {value : Completed × List Completed}

/-- The window over the first bytes of `rest`, which stand behind `head`. -/
def blockAfter (head rest : Bytes) (size : Nat) : Window :=
  ⟨(head ++ rest).toArray, head.length + size⟩

theorem stop_blockAfter (head rest : Bytes) (size : Nat) :
    (blockAfter head rest size).stop = head.length + size :=
  rfl

theorem sound_blockAfter (head : Bytes) (hsize : size ≤ rest.length) :
    (blockAfter head rest size).Sound := by
  constructor
  · rw [stop_blockAfter]
    omega
  · simp only [blockAfter, List.size_toArray, List.length_append]
    omega

/-- The fields take the first `size` bytes of `rest` behind `head`, and a block of just these
bytes is enough. -/
structure Fills (h : Header) (maxDepth : Int) (stack : List Completed) (head rest : Bytes)
    (size : Nat) (value : Completed × List Completed) : Prop where
  le_length : size ≤ rest.length
  done : ∃ inner, fields h maxDepth stack (blockAfter head rest size) head.length =
    .done value (head.length + size) inner

namespace Fills

/-- Fields that fill their block fill it wherever it stands. -/
theorem move (hfills : Fills h maxDepth stack head rest size value) (head' : Bytes) :
    Fills h maxDepth stack head' rest size value := by
  have hlength := hfills.le_length
  obtain ⟨inner, hfields⟩ := hfills.done
  have hle : (head.length : Int) + size ≤ (Window.whole (head ++ rest).toArray).stop := by
    rw [Window.stop_whole_append]
    omega
  have hshifted := (Window.shifted_whole head head' rest).narrow hle
  obtain ⟨-, -, inner', hfields'⟩ := movable_fields h maxDepth stack hshifted hfields
  rw [Int.add_comm (head.length : Int), Int.add_sub_cancel] at hfields'
  exact ⟨hlength, inner', hfields'⟩

theorem settledBy (hfills : Fills h maxDepth stack head rest size value) :
    (fields h maxDepth stack).SettledBy (blockAfter head rest size) head.length
      (head.length + size) := by
  obtain ⟨inner, hfields⟩ := hfills.done
  have hinside : (head.length : Int) ≤ (blockAfter head rest size).stop := by
    rw [stop_blockAfter]
    omega
  exact ((settles_fields h maxDepth stack _ _ (sound_blockAfter head hfills.le_length)
    (Int.natCast_nonneg _) hinside).done hfields).2

/-- The fields do not fit into a shorter block. -/
theorem truncated (hfills : Fills h maxDepth stack head rest size value) (hlt : size' < size) :
    (fields h maxDepth stack (blockAfter head rest size') head.length).Truncated := by
  have hlength := hfills.le_length
  refine hfills.settledBy.truncated (blockAfter head rest size')
    (sound_blockAfter head (by omega)) ?_ ?_ fun i _ _ => rfl
  · rw [stop_blockAfter]
    omega
  · rw [stop_blockAfter]
    omega

/-- The fields do not look beyond their end. -/
theorem done_of_le (hfills : Fills h maxDepth stack head rest size value) (hle : size ≤ size')
    (hlength : size' ≤ rest.length) :
    ∃ inner, fields h maxDepth stack (blockAfter head rest size') head.length =
      .done value (head.length + size) inner := by
  obtain ⟨inner, hfields⟩ := hfills.done
  have hstop : (head.length : Int) + size ≤ (blockAfter head rest size').stop := by
    rw [stop_blockAfter]
    omega
  have halike := hfills.settledBy.alike (blockAfter head rest size')
    (sound_blockAfter head hlength) hstop fun i _ _ => rfl
  rw [hfields] at halike
  exact halike.eq_done

end Fills

theorem holds_lowGroups (before rest : Bytes) (size : Nat) :
    (Window.whole (before ++ Bytes.lowGroups size ++ rest).toArray).Holds before.length
      (Bytes.lowGroups size) := by
  have hholds := (Window.whole_holds (before ++ Bytes.lowGroups size) rest).right
  rwa [Int.zero_add] at hholds

/-- The size in front of a record is read. -/
theorem varint_of_lowGroups (before rest : Bytes) (hsize : size < 2 ^ 32) :
    ∃ trace, varint (Window.whole (before ++ Bytes.lowGroups size ++ rest).toArray) before.length =
      .done size (before ++ Bytes.lowGroups size).length trace := by
  have hholds := holds_lowGroups before rest size
  obtain ⟨trace, hread⟩ := reads_varint hsize _ _ (Window.whole_sound _) hholds
  refine ⟨trace, ?_⟩
  rw [hread, List.length_append, Int.natCast_add]

/-- One length of a record is accepted. With any other one, the same bytes are truncated if the
length is less or exceeds them, and else the length is refused. -/
theorem record_length_unique (h : Header) (maxDepth : Int) (stack : List Completed)
    (before rest : Bytes) {size : Nat} (hsize : 0 < size) {found : Option (List Completed)}
    {last : Int} {trace : List Event}
    (hdone : record h maxDepth stack
      (Window.whole (before ++ Bytes.lowGroups size ++ rest).toArray) before.length =
        .done found last trace) :
    last = before.length + (Bytes.lowGroups size).length + size ∧
    ∀ (before' : Bytes) (size' : Nat), 0 < size' → size' < 2 ^ 32 → size' ≠ size →
      ∃ failure last' trace', record h maxDepth stack
          (Window.whole (before' ++ Bytes.lowGroups size' ++ rest).toArray) before'.length =
            .failed failure last' trace' ∧
        (size' < size ∨ rest.length < size' → failure.kind = .truncated) ∧
        (size < size' → size' ≤ rest.length →
          failure.kind = .sizeMismatch ∧ failure.offset = before'.length) := by
  have hholds := holds_lowGroups before rest size
  have hlt : size < 2 ^ 32 := by
    rcases record_eq_done hdone with ⟨-, _, hend⟩ | ⟨_, _, _, _, _, _, hread, -⟩
    · exact lt_of_varint_eq_done (Window.whole_sound _) hholds hend
    · exact lt_of_varint_eq_done (Window.whole_sound _) hholds hread
  obtain ⟨_, hread⟩ := varint_of_lowGroups before rest hlt
  obtain ⟨hlast, hle, value, inner, hfields⟩ := fields_of_record hread (by omega) hdone
  rw [Window.stop_whole_append] at hle
  have hfills : Fills h maxDepth stack (before ++ Bytes.lowGroups size) rest size value :=
    ⟨by omega, inner, hfields⟩
  refine ⟨by rw [hlast, List.length_append, Int.natCast_add], fun before' size' hpos hlt' hne => ?_⟩
  obtain ⟨_, hread'⟩ := varint_of_lowGroups before' rest hlt'
  have hstop := Window.stop_whole_append (before' ++ Bytes.lowGroups size') rest
  have hfills' := hfills.move (before' ++ Bytes.lowGroups size')
  -- The fields end behind `size` bytes. A longer block does not change that, a shorter one cuts
  -- them off, and one that exceeds the file is not opened.
  by_cases hlonger : size < size' ∧ size' ≤ rest.length
  · obtain ⟨_, hlong⟩ := hfills'.done_of_le (by omega) hlonger.2
    obtain ⟨last', trace', hfailed⟩ :=
      record_mismatch hread' (by omega) (by omega) hlong (by omega)
    exact ⟨_, last', trace', hfailed, by omega, fun _ _ => ⟨rfl, rfl⟩⟩
  · have htruncated := record_truncated hread' (by omega) fun hinside =>
      hfills'.truncated (by omega)
    obtain ⟨failure, last', trace', hfailed, hkind⟩ := htruncated.eq_failed
    exact ⟨failure, last', trace', hfailed, fun _ => hkind,
      fun hmore hfit => absurd ⟨hmore, hfit⟩ hlonger⟩

/-- A function without fields takes seven bytes. It is refused if it is said to take six, nine of
the ten bytes that there are, or so many that the number is written in two bytes. -/
theorem record_length_unique_emptyFunction :
    let header : Header := { dialect := .luaJit2, stripped := true }
    let read := fun size : Nat => record header 200 []
      (Window.whole ([] ++ Bytes.lowGroups size ++ List.replicate 10 0).toArray) 0
    (∃ found trace, read 7 = .done found 8 trace) ∧
      ∀ size ∈ [6, 9, 128], ∃ failure last trace, read size = .failed failure last trace ∧
        failure.kind = if size = 9 then .sizeMismatch else .truncated := by
  intro header read
  have hdone : ∃ found trace, read 7 = .done found 8 trace := by
    simp only [read, Bytes.lowGroups_of_lt (by decide : 7 < 128)]
    exact ⟨_, _, rfl⟩
  refine ⟨hdone, fun size hsize => ?_⟩
  obtain ⟨found, trace, hdone⟩ := hdone
  have hother : 0 < size ∧ size < 2 ^ 32 ∧ size ≠ 7 := by
    revert size
    decide
  obtain ⟨failure, last, trace', hfailed, hshort, hlong⟩ :=
    (record_length_unique header 200 [] [] (List.replicate 10 0) (by decide) hdone).2 [] size
      hother.1 hother.2.1 hother.2.2
  refine ⟨failure, last, trace', hfailed, ?_⟩
  rw [List.length_replicate] at hshort hlong
  split
  next hnine => exact (hlong (by omega) (by omega)).1
  next hnine =>
    refine hshort ?_
    simp only [List.mem_cons, List.not_mem_nil, or_false] at hsize
    omega

end Lengths

end Jit

end LuaDump
