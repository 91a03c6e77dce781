import LuaDump.Proofs.Settling.Function

/-! # Reading elsewhere

What a decoder yields depends on the bytes that remain, not on where they stand. If the same
bytes remain from two positions on, each in its own window, then a decoder that succeeds at one of
them succeeds at the other one, with the same value and behind as many bytes.
-/

namespace LuaDump

namespace Window

/-- The same bytes remain from two positions on, each in its own window. -/
structure Shifted (w : Window) (pos : Int) (w' : Window) (pos' : Int) : Prop where
  sound : w.Sound
  sound' : w'.Sound
  nonneg : 0 ≤ pos
  nonneg' : 0 ≤ pos'
  inside : pos ≤ w.stop
  remaining_eq : w.remaining pos = w'.remaining pos'
  byte_eq : ∀ i : Nat, pos + i < w.stop → w.data[pos.toNat + i]? = w'.data[pos'.toNat + i]?

namespace Shifted

variable {w w' : Window} {pos pos' : Int}

/-- Both windows end as far from the positions. -/
theorem stop_sub_eq (hshifted : Shifted w pos w' pos') : w.stop - pos = w'.stop - pos' :=
  hshifted.remaining_eq

theorem advance (hshifted : Shifted w pos w' pos') {count : Int} (hcount : 0 ≤ count)
    (hle : pos + count ≤ w.stop) : Shifted w (pos + count) w' (pos' + count) := by
  have hnonneg := hshifted.nonneg
  have hnonneg' := hshifted.nonneg'
  have hstop := hshifted.stop_sub_eq
  refine ⟨hshifted.sound, hshifted.sound', by omega, by omega, hle, ?_, fun i hi => ?_⟩
  · simp only [remaining]
    omega
  · have hbyte := hshifted.byte_eq (count.toNat + i) (by omega)
    have hplace : (pos + count).toNat + i = pos.toNat + (count.toNat + i) := by omega
    have hplace' : (pos' + count).toNat + i = pos'.toNat + (count.toNat + i) := by omega
    rw [hplace, hplace', hbyte]

/-- The windows over the next bytes. -/
theorem narrow (hshifted : Shifted w pos w' pos') {size : Nat} (hle : pos + size ≤ w.stop) :
    Shifted ⟨w.data, pos + size⟩ pos ⟨w'.data, pos' + size⟩ pos' := by
  have hnonneg := hshifted.nonneg
  have hnonneg' := hshifted.nonneg'
  have hstop := hshifted.stop_sub_eq
  refine ⟨hshifted.sound.narrow (by omega) hle, hshifted.sound'.narrow (by omega) (by omega),
    hnonneg, hnonneg', by dsimp only; omega, ?_, fun i hi => ?_⟩
  · simp only [remaining]
    omega
  · exact hshifted.byte_eq i (Int.lt_of_lt_of_le hi hle)

theorem slice_eq (hshifted : Shifted w pos w' pos') {size : Nat} (hle : pos + size ≤ w.stop) :
    w.slice pos (pos + size) = w'.slice pos' (pos' + size) := by
  have hstop := hshifted.stop_sub_eq
  apply List.ext_getElem?
  intro i
  rw [getElem?_slice hshifted.sound hshifted.nonneg (by omega) hle,
    getElem?_slice hshifted.sound' hshifted.nonneg' (by omega) (by omega)]
  by_cases hi : i < size
  · rw [if_pos (by omega), if_pos (by omega), hshifted.byte_eq i (by omega)]
  · rw [if_neg (by omega), if_neg (by omega)]

theorem before?_eq {target : UInt8} {count start start' : Nat}
    (hbytes : ∀ i < count, w.data[start + i]? = w'.data[start' + i]?) :
    w.before? target count start = w'.before? target count start' := by
  induction count generalizing start start' with
  | zero => rfl
  | succ count ih =>
      have hfirst := hbytes 0 (Nat.succ_pos count)
      have hrest : w.before? target count (start + 1) = w'.before? target count (start' + 1) := by
        refine ih fun i hi => ?_
        have hbyte := hbytes (i + 1) (by omega)
        rwa [← Nat.add_assoc, ← Nat.add_assoc, Nat.add_right_comm start,
          Nat.add_right_comm start'] at hbyte
      rw [before?, before?, hrest]
      rw [Nat.add_zero, Nat.add_zero] at hfirst
      rw [hfirst]

/-- The search covers as many bytes in both windows, and it meets the same ones. -/
theorem search_eq (hshifted : Shifted w pos w' pos') (target : UInt8) :
    w.before? target (w.reach (w.place pos).toNat) (w.place pos).toNat =
      w'.before? target (w'.reach (w'.place pos').toNat) (w'.place pos').toNat := by
  have hstop := hshifted.stop_sub_eq
  have hinside := hshifted.inside
  have hreach := reach_eq hshifted.sound hshifted.nonneg hinside
  have hreach' := reach_eq hshifted.sound' hshifted.nonneg' (by omega : pos' ≤ w'.stop)
  have hcount : w.reach (w.place pos).toNat = w'.reach (w'.place pos').toNat := by omega
  rw [← hcount]
  refine before?_eq fun i hi => ?_
  rw [place_of_nonneg w hshifted.nonneg, place_of_nonneg w' hshifted.nonneg']
  exact hshifted.byte_eq i (by omega)

end Shifted

theorem stop_whole_append (head rest : Bytes) :
    (whole (head ++ rest).toArray).stop = head.length + rest.length := by
  simp [whole]

/-- The same bytes behind two other strings of bytes. -/
theorem shifted_whole (head head' rest : Bytes) :
    Shifted (whole (head ++ rest).toArray) head.length (whole (head' ++ rest).toArray)
      head'.length := by
  refine ⟨whole_sound _, whole_sound _, Int.natCast_nonneg _, Int.natCast_nonneg _, ?_, ?_,
    fun i _ => ?_⟩
  · rw [stop_whole_append]
    omega
  · rw [remaining, remaining, stop_whole_append, stop_whole_append]
    omega
  · simp only [whole, List.getElem?_toArray, Int.toNat_natCast]
    rw [List.getElem?_append_right (by omega), List.getElem?_append_right (by omega),
      Nat.add_sub_cancel_left, Nat.add_sub_cancel_left]

end Window

namespace Decoder

variable {α β σ : Type}

/-- Where the same bytes remain, the second decoder succeeds if the first one does. It yields the
same value behind as many bytes. -/
def MovesTo (d d' : Decoder α) : Prop :=
  ∀ ⦃w pos w' pos'⦄, Window.Shifted w pos w' pos' → ∀ ⦃value last trace⦄,
    d w pos = .done value last trace →
      pos ≤ last ∧ last ≤ w.stop ∧ ∃ trace', d' w' pos' = .done value (pos' + (last - pos)) trace'

/-- The decoder reads the same bytes alike wherever they stand. -/
def Movable (d : Decoder α) : Prop :=
  d.MovesTo d

namespace MovesTo

variable {d d' : Decoder α}

theorem pure (value : α) : (Pure.pure value : Decoder α).MovesTo (Pure.pure value) := by
  intro w pos w' pos' hshifted result last trace hdone
  obtain ⟨rfl, rfl, -⟩ := pure_eq_done_iff.mp hdone
  exact ⟨Int.le_refl _, hshifted.inside, [], by rw [Int.sub_self, Int.add_zero]; rfl⟩

theorem failAt (offset : Int) (cause : Cause) : (Decoder.failAt offset cause).MovesTo d' :=
  fun _ _ _ _ _ _ _ _ hdone => absurd hdone not_failAt_eq_done

theorem fail (cause : Cause) : (Decoder.fail cause).MovesTo d' :=
  fun _ _ _ _ _ _ _ _ hdone => absurd hdone not_fail_eq_done

theorem bind {next next' : α → Decoder β} (hd : d.MovesTo d')
    (hnext : ∀ value, (next value).MovesTo (next' value)) :
    (d >>= next).MovesTo (d' >>= next') := by
  intro w pos w' pos' hshifted result last trace hdone
  obtain ⟨value, mid, first, second, hfirst, hsecond, -⟩ := bind_eq_done_iff.mp hdone
  obtain ⟨hmid, hstop, first', hfirst'⟩ := hd hshifted hfirst
  -- As many bytes are passed in both windows, so the same ones remain.
  have hrest := hshifted.advance (by omega : 0 ≤ mid - pos) (by omega)
  rw [(by omega : pos + (mid - pos) = mid)] at hrest
  obtain ⟨hlast, hinside, second', hsecond'⟩ := hnext value hrest hsecond
  refine ⟨by omega, hinside, first' ++ second', ?_⟩
  refine bind_eq_done_iff.mpr ⟨value, _, first', second', hfirst', ?_, rfl⟩
  rw [hsecond', (by omega : pos' + (mid - pos) + (last - mid) = pos' + (last - pos))]

/-- What follows may use the position, which differs. -/
theorem position_bind {next next' : Int → Decoder β}
    (hnext : ∀ start start', (next start).MovesTo (next' start')) :
    (position >>= next).MovesTo (position >>= next') := by
  intro w pos w' pos' hshifted result last trace hdone
  obtain ⟨start, mid, first, second, hposition, hsecond, -⟩ := bind_eq_done_iff.mp hdone
  obtain ⟨rfl, rfl, -⟩ := Outcome.done.inj hposition
  obtain ⟨hlast, hinside, second', hsecond'⟩ := hnext pos pos' hshifted hsecond
  exact ⟨hlast, hinside, [] ++ second',
    bind_eq_done_iff.mpr ⟨pos', pos', [], second', rfl, hsecond', rfl⟩⟩

theorem emit (event : Event) : (Decoder.emit event).MovesTo (Decoder.emit event) := by
  intro w pos w' pos' hshifted result last trace hdone
  obtain ⟨rfl, rfl, -⟩ := Outcome.done.inj hdone
  exact ⟨Int.le_refl _, hshifted.inside, [event], by rw [Int.sub_self, Int.add_zero]; rfl⟩

theorem within (hd : d.MovesTo d') (label : Label) :
    (Decoder.within label d).MovesTo (Decoder.within label d') := by
  intro w pos w' pos' hshifted result last trace hdone
  obtain ⟨hlast, hinside, trace', hdone'⟩ := hd hshifted (within_eq_done_iff.mp hdone)
  exact ⟨hlast, hinside, trace', within_eq_done_iff.mpr hdone'⟩

theorem named (hd : d.MovesTo d') (name : String) :
    (Decoder.named name d).MovesTo (Decoder.named name d') :=
  hd.within _

theorem collect {item item' : Nat → Decoder α} (hitem : ∀ index, (item index).MovesTo (item' index))
    (count index : Nat) : (collect item count index).MovesTo (collect item' count index) := by
  induction count generalizing index with
  | zero => exact pure []
  | succ count ih => exact (hitem index).bind fun first => (ih _).bind fun rest => pure _

theorem fold {item item' : Nat → σ → Decoder σ}
    (hitem : ∀ index state, (item index state).MovesTo (item' index state)) (count index : Nat)
    (state : σ) : (fold item count index state).MovesTo (fold item' count index state) := by
  induction count generalizing index state with
  | zero => exact pure state
  | succ count ih => exact (hitem index state).bind fun next => ih _ next

theorem iterateFor {step step' : α → Decoder (α ⊕ β)}
    (hstep : ∀ state, (step state).MovesTo (step' state)) (rounds : Nat) (state : α) :
    (iterateFor step rounds state).MovesTo (iterateFor step' rounds state) := by
  induction rounds generalizing state with
  | zero => exact fun _ _ _ _ _ _ _ _ hdone => absurd hdone (by simp [Decoder.iterateFor, short])
  | succ rounds ih =>
      refine (hstep state).bind fun next => ?_
      cases next with
      | inl next => exact ih next
      | inr result => exact pure result

/-- As many rounds are left where the same bytes remain. -/
theorem iterate {step step' : α → Decoder (α ⊕ β)}
    (hstep : ∀ state, (step state).MovesTo (step' state)) (state : α) :
    (iterate step state).MovesTo (iterate step' state) := by
  intro w pos w' pos' hshifted result last trace hdone
  unfold Decoder.iterate at hdone ⊢
  rw [← hshifted.remaining_eq]
  exact iterateFor hstep _ state hshifted hdone

end MovesTo

/-- A decoder that takes a fixed number of bytes and computes its value from them. -/
theorem movable_of_fixed {d : Decoder α} {size : Nat} (hsettles : d.Settles size)
    (value : Bytes → α)
    (henough : ∀ (w : Window) (pos : Int), w.Sound → 0 ≤ pos → pos + size ≤ w.stop →
      d w pos = .done (value (w.slice pos (pos + size))) (pos + size) []) : d.Movable := by
  intro w pos w' pos' hshifted result last trace hdone
  have hsettled := hsettles w pos hshifted.sound hshifted.nonneg hshifted.inside
  have hlast := (hsettled.done hdone).1
  have hinside := hsettled.last_le_stop hdone
  have hstop := hshifted.stop_sub_eq
  rw [henough w pos hshifted.sound hshifted.nonneg (by omega)] at hdone
  obtain ⟨rfl, rfl, -⟩ := Outcome.done.inj hdone
  refine ⟨by omega, hinside, [], ?_⟩
  rw [henough w' pos' hshifted.sound' hshifted.nonneg' (by omega), hshifted.slice_eq hinside,
    (by omega : pos' + (pos + size - pos) = pos' + size)]

theorem movable_field (what : String) (size : Nat) : (field what size).Movable :=
  movable_of_fixed (settles_field what size) id fun _ _ hw hpos hle => field_of_le hw what hpos hle

/-- A negative count fails where it stands. -/
theorem movable_take (count : Int) : (take count).Movable := by
  by_cases hcount : 0 ≤ count
  · rw [← Int.toNat_of_nonneg hcount]
    exact movable_of_fixed (settles_take count.toNat) id fun _ _ _ _ hle => take_of_le hle
  · have hd : take count = fail (.negativeRead count) := by
      funext w pos
      exact if_pos (by omega)
    rw [hd]
    exact .fail _

theorem movable_skip (count : Nat) : (skip count).Movable :=
  movable_of_fixed (settles_skip count) (fun _ => ()) fun _ _ _ _ hle => skip_of_le hle

theorem movable_nextByte : nextByte.Movable :=
  movable_of_fixed settles_nextByte (fun bytes => bytes.headD 0)
    fun _ _ hw hpos hle => nextByte_of_le hw hpos hle

theorem movable_peekByte : peekByte.Movable := by
  intro w pos w' pos' hshifted result last trace hdone
  have hstop := hshifted.stop_sub_eq
  by_cases hle : pos + 1 ≤ w.stop
  · have hslice : w.slice pos (pos + (1 : Nat)) = w'.slice pos' (pos' + (1 : Nat)) :=
      hshifted.slice_eq hle
    rw [peekByte_of_le hshifted.sound hshifted.nonneg hle] at hdone
    obtain ⟨rfl, rfl, -⟩ := Outcome.done.inj hdone
    refine ⟨Int.le_refl _, hshifted.inside, [], ?_⟩
    rw [peekByte_of_le hshifted.sound' hshifted.nonneg' (by omega), Int.sub_self, Int.add_zero]
    rw [Int.natCast_one] at hslice
    rw [hslice]
  · have hfew := peekByte_truncated (Int.not_le.mp hle)
    rw [hdone] at hfew
    exact hfew.elim

theorem movable_checkCount (count : Int) : (checkCount count).Movable := by
  intro w pos w' pos' hshifted result last trace hdone
  unfold checkCount at hdone ⊢
  rw [← hshifted.remaining_eq]
  split at hdone
  next hcount =>
    obtain ⟨-, rfl, -⟩ := Outcome.done.inj hdone
    rw [if_pos hcount, Int.sub_self, Int.add_zero]
    exact ⟨Int.le_refl _, hshifted.inside, [], rfl⟩
  next => simp at hdone

theorem movable_takeUntil (terminator : UInt8) : (takeUntil terminator).Movable := by
  intro w pos w' pos' hshifted result last trace hdone
  have hreach := Window.reach_eq hshifted.sound hshifted.nonneg hshifted.inside
  have hsame := hshifted.search_eq terminator
  cases hfound : w.before? terminator (w.reach (w.place pos).toNat) (w.place pos).toNat with
  | none =>
      have hfew := takeUntil_of_none hfound
      rw [hdone] at hfew
      exact hfew.elim
  | some bytes =>
      have hlength := Window.length_before?_lt hfound
      rw [takeUntil_of_some hshifted.nonneg hfound] at hdone
      obtain ⟨rfl, rfl, -⟩ := Outcome.done.inj hdone
      refine ⟨by omega, by omega, [], ?_⟩
      rw [takeUntil_of_some hshifted.nonneg' (hsame ▸ hfound),
        (by omega : pos' + (pos + bytes.length + 1 - pos) = pos' + bytes.length + 1)]

theorem movable_unsigned (width : Int) (bigEndian : Bool) :
    (unsigned width bigEndian).Movable := by
  unfold unsigned checkWidth
  split
  · exact (MovesTo.pure _).bind fun size => (movable_field _ size).bind fun bytes => .pure _
  · rw [fail_bind]
    exact .fail _

theorem movable_items (count : Int) {item : Decoder α} (hitem : item.Movable) :
    (items count item).Movable :=
  (movable_checkCount count).bind fun _ => .collect (fun _ => hitem) _ _

theorem movable_labelledItems (label : String) (count : Int) {item : Decoder α}
    (hitem : item.Movable) : (labelledItems label count item).Movable :=
  (movable_checkCount count).bind fun _ =>
    .collect (fun index => hitem.within (.item label index)) _ _

/-- What is read in a block. -/
theorem movable_block {d : Decoder α} (hd : d.Movable) (size : Nat) :
    (block size d >>= fun read => pure read.1).Movable := by
  intro w pos w' pos' hshifted result last trace hdone
  have hstop := hshifted.stop_sub_eq
  obtain ⟨read, mid, first, second, hread, hpure, -⟩ := bind_eq_done_iff.mp hdone
  obtain ⟨rfl, rfl, -⟩ := pure_eq_done_iff.mp hpure
  by_cases hle : pos + size ≤ w.stop
  · rw [block_of_le d hle] at hread
    obtain ⟨hinner, rfl⟩ := inWindow_eq_done_iff.mp hread
    obtain ⟨-, -, trace', hinner'⟩ := hd (hshifted.narrow hle) hinner
    refine ⟨Int.le_refl _, hshifted.inside, trace' ++ [], ?_⟩
    rw [Int.sub_self, Int.add_zero]
    refine bind_eq_done_iff.mpr ⟨(read.1, pos' + (read.2 - pos)), pos', trace', [], ?_, rfl, rfl⟩
    rw [block_of_le d (by omega)]
    exact inWindow_eq_done_iff.mpr ⟨hinner', rfl⟩
  · have hfew := block_truncated d (Int.not_le.mp hle)
    rw [hread] at hfew
    exact hfew.elim

theorem movable_lowGroups (bits : Nat) : (lowGroups bits).Movable := by
  refine .position_bind fun start start' => .iterate (fun state => ?_) _
  refine movable_nextByte.bind fun b => ?_
  dsimp only
  split
  · exact .failAt _ _
  · split
    · exact .pure _
    · split
      · exact .failAt _ _
      · exact .pure _

theorem movable_varint : varint.Movable :=
  movable_lowGroups 32

theorem movable_numericHead : numericHead.Movable := by
  refine .position_bind fun start start' => movable_nextByte.bind fun b => ?_
  dsimp only
  split
  · exact .pure _
  · refine (MovesTo.iterate (fun state => ?_) _).bind fun value => .pure _
    refine movable_nextByte.bind fun group => ?_
    dsimp only
    split
    · exact .pure _
    · split
      · exact .failAt _ _
      · exact .pure _

end Decoder

end LuaDump
