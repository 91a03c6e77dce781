import LuaDump.Proofs.Delivery

/-! # What decoders raise

The failures that a decoder can come to at a place of a file. `Raises` allows some failures and
asks of a success only that it stays in the window, so that its rules compose. Every decoder
may run out of input; what else it may raise is decided where it is used.
-/

namespace LuaDump.Decoder

variable {α β σ : Type} {data : Array UInt8} {room : Nat} {blame blame' : Failure → Prop}
  {d : Decoder α} {property : α → Prop} {w : Window} {pos : Int}

/-- At a position, a success stays in the window and a failure is one that `blame` allows. -/
structure RaisesAt (d : Decoder α) (w : Window) (pos : Int) (blame : Failure → Prop) : Prop where
  done : ∀ {value last trace}, d w pos = .done value last trace → pos ≤ last ∧ last ≤ w.stop
  failed : ∀ {failure last trace}, d w pos = .failed failure last trace → blame failure

/-- `RaisesAt` wherever at most `room` bytes of the data are left. -/
def Raises (data : Array UInt8) (room : Nat) (d : Decoder α) (blame : Failure → Prop) : Prop :=
  ∀ ⦃w pos⦄, w.data = data → Place room w pos → d.RaisesAt w pos blame

/-- Input that ends too early is allowed, wherever in the data that is noticed. -/
def AllowsShort (data : Array UInt8) (blame : Failure → Prop) : Prop :=
  ∀ ⦃cause : Cause⦄ ⦃offset : Int⦄, cause.kind = .truncated → 0 ≤ offset → offset ≤ data.size →
    blame ⟨cause, offset, []⟩

/-- Failures that are allowed whatever labels they get. -/
structure Tolerant (data : Array UInt8) (blame : Failure → Prop) : Prop where
  short : AllowsShort data blame
  push : ∀ {failure} (label : Label), blame failure → blame (failure.push label)

theorem Place.inFile (hplace : Place room w pos) : pos ≤ w.data.size :=
  Int.le_trans hplace.inside hplace.sound.inFile

theorem AllowsShort.at_place (hshort : AllowsShort data blame) (hdata : w.data = data)
    (hplace : Place room w pos) {cause : Cause} (hkind : cause.kind = .truncated) :
    blame ⟨cause, pos, []⟩ :=
  hshort hkind hplace.nonneg (hdata ▸ hplace.inFile)

theorem RaisesAt.bind {next : α → Decoder β} (hd : d.RaisesAt w pos blame)
    (hnext : ∀ {value mid trace}, d w pos = .done value mid trace →
      (next value).RaisesAt w mid blame) : (d >>= next).RaisesAt w pos blame where
  done := by
    intro result last trace hdone
    obtain ⟨value, mid, first, second, hfirst, hsecond, -⟩ := bind_eq_done_iff.mp hdone
    have hmid := hd.done hfirst
    have hlast := (hnext hfirst).done hsecond
    exact ⟨by omega, hlast.2⟩
  failed := by
    intro failure last trace hfailed
    rcases bind_eq_failed_iff.mp hfailed with
      hfirst | ⟨value, mid, first, second, hfirst, hsecond, -⟩
    · exact hd.failed hfirst
    · exact (hnext hfirst).failed hsecond

theorem RaisesAt.of_done {value : α} {last : Int} {trace : List Event}
    (hdone : d w pos = .done value last trace) (hpos : pos ≤ last) (hlast : last ≤ w.stop) :
    d.RaisesAt w pos blame where
  done := by
    intro value' last' trace' h
    obtain ⟨-, rfl, -⟩ := Outcome.done.inj (hdone.symm.trans h)
    exact ⟨hpos, hlast⟩
  failed := by
    intro failure last' trace' h
    exact absurd (hdone.symm.trans h) (by simp)

theorem RaisesAt.of_failed {failure : Failure} {last : Int} {trace : List Event}
    (hfailed : d w pos = .failed failure last trace) (hblame : blame failure) :
    d.RaisesAt w pos blame where
  done := by
    intro value last' trace' h
    exact absurd (hfailed.symm.trans h) (by simp)
  failed := by
    intro failure' last' trace' h
    obtain ⟨rfl, -, -⟩ := Outcome.failed.inj (hfailed.symm.trans h)
    exact hblame

theorem RaisesAt.mono (hd : d.RaisesAt w pos blame)
    (himp : ∀ failure, blame failure → blame' failure) : d.RaisesAt w pos blame' :=
  ⟨hd.done, fun hfailed => himp _ (hd.failed hfailed)⟩

theorem RaisesAt.within {label : Label}
    (hd : d.RaisesAt w pos fun failure => blame (failure.push label)) :
    (Decoder.within label d).RaisesAt w pos blame := by
  refine ⟨fun hdone => hd.done (within_eq_done_iff.mp hdone), ?_⟩
  intro failure last trace hfailed
  obtain ⟨inner, hinner, rfl⟩ := within_eq_failed_iff.mp hfailed
  exact hd.failed hinner

theorem RaisesAt.position_bind {next : Int → Decoder β} (hinside : pos ≤ w.stop)
    (hnext : (next pos).RaisesAt w pos blame) : (position >>= next).RaisesAt w pos blame := by
  refine RaisesAt.bind (.of_done rfl (Int.le_refl pos) hinside) fun hdone => ?_
  obtain ⟨rfl, rfl, -⟩ := Outcome.done.inj hdone
  exact hnext

namespace Raises

theorem mono (hd : d.Raises data room blame) (himp : ∀ failure, blame failure → blame' failure) :
    d.Raises data room blame' :=
  fun _ _ hdata hplace => (hd hdata hplace).mono himp

theorem pure (value : α) : (Pure.pure value : Decoder α).Raises data room blame :=
  fun w pos _ hplace => .of_done (pure_apply value w pos) (Int.le_refl pos) hplace.inside

theorem emit (event : Event) : (Decoder.emit event).Raises data room blame :=
  fun _ pos _ hplace => .of_done rfl (Int.le_refl pos) hplace.inside

theorem failAt {offset : Int} {cause : Cause} (hblame : blame ⟨cause, offset, []⟩) :
    (Decoder.failAt offset cause : Decoder α).Raises data room blame :=
  fun _ _ _ _ => .of_failed rfl hblame

theorem fail {cause : Cause}
    (hblame : ∀ pos : Int, 0 ≤ pos → pos ≤ data.size → blame ⟨cause, pos, []⟩) :
    (Decoder.fail cause : Decoder α).Raises data room blame :=
  fun _ pos hdata hplace => .of_failed rfl (hblame pos hplace.nonneg (hdata ▸ hplace.inFile))

theorem bind {next : α → Decoder β} (hd : d.Raises data room blame)
    (hnext : ∀ value, (next value).Raises data room blame) :
    (d >>= next).Raises data room blame := by
  intro w pos hdata hplace
  apply (hd hdata hplace).bind
  intro value mid trace hdone
  obtain ⟨hmid, hinside⟩ := (hd hdata hplace).done hdone
  exact hnext value hdata (hplace.next hmid hinside)

theorem narrow {room' : Nat} (hd : d.Raises data room blame) (hle : room' ≤ room) :
    d.Raises data room' blame := by
  intro w pos hdata hplace
  have hroom := hplace.room
  exact hd hdata { hplace with room := by omega }

/-- The second part may rely on what the first one delivers. -/
theorem bind_value {next : α → Decoder β} (hd : d.Raises data room blame)
    (hvalue : d.Delivers room property)
    (hnext : ∀ value, property value → (next value).Raises data room blame) :
    (d >>= next).Raises data room blame := by
  intro w pos hdata hplace
  apply (hd hdata hplace).bind
  intro value mid trace hdone
  obtain ⟨hmid, hinside, hproperty⟩ := hvalue hplace hdone
  exact hnext value hproperty hdata (hplace.next hmid hinside)

/-- Behind a decoder that passes a byte there is less room. -/
theorem bind_settled {next : α → Decoder β} (hsettles : d.Settles 1)
    (hd : d.Raises data room blame)
    (hnext : 0 < room → ∀ value, (next value).Raises data (room - 1) blame) :
    (d >>= next).Raises data room blame := by
  intro w pos hdata hplace
  apply (hd hdata hplace).bind
  intro value mid trace hdone
  obtain ⟨hpassed, hinside⟩ := hsettles.passed hplace hdone
  have hroom := hplace.room
  have hplace' : Place (room - 1) w mid :=
    { hplace.next (by omega) hinside with room := by omega }
  exact hnext (by omega) value hdata hplace'

/-- What is done at a position may be blamed on it later. -/
theorem position_bind {next : Int → Decoder β}
    (hnext : ∀ offset : Int, 0 ≤ offset → offset ≤ data.size →
      (next offset).Raises data room blame) : (position >>= next).Raises data room blame :=
  fun _ pos hdata hplace => .position_bind hplace.inside
    (hnext pos hplace.nonneg (hdata ▸ hplace.inFile) hdata hplace)

theorem remaining_bind {next : Int → Decoder β}
    (hnext : ∀ left : Int, 0 ≤ left → (next left).Raises data room blame) :
    (remaining >>= next).Raises data room blame := by
  intro w pos hdata hplace
  have hinside := hplace.inside
  have hleft : 0 ≤ w.remaining pos := by
    simp only [Window.remaining]
    omega
  have hrest := hnext _ hleft hdata hplace
  refine RaisesAt.bind (.of_done rfl (Int.le_refl pos) hplace.inside) fun hdone => ?_
  obtain ⟨rfl, rfl, -⟩ := Outcome.done.inj hdone
  exact hrest

theorem within {label : Label} (hd : d.Raises data room fun failure => blame (failure.push label)) :
    (Decoder.within label d).Raises data room blame :=
  fun _ _ hdata hplace => (hd hdata hplace).within

theorem named {name : String}
    (hd : d.Raises data room fun failure => blame (failure.push (.named name))) :
    (Decoder.named name d).Raises data room blame :=
  hd.within

/-- Labels are no matter where all of them are allowed. -/
theorem label (htolerant : Tolerant data blame) (hd : d.Raises data room blame) (label : Label) :
    (Decoder.within label d).Raises data room blame :=
  (hd.mono fun _ => htolerant.push label).within

theorem checkCount_bind {count : Int} {next : Unit → Decoder α} (hshort : AllowsShort data blame)
    (hnext : count ≤ room → (next ()).Raises data room blame) :
    (checkCount count >>= next).Raises data room blame := by
  intro w pos hdata hplace
  have hroom := hplace.room
  by_cases hcount : count ≤ w.remaining pos
  · have hdone : checkCount count w pos = .done () pos [] := if_pos hcount
    refine RaisesAt.bind (.of_done hdone (Int.le_refl pos) hplace.inside) fun hmid => ?_
    obtain ⟨-, rfl, -⟩ := Outcome.done.inj (hdone.symm.trans hmid)
    simp only [Window.remaining] at hcount
    exact hnext (by omega) hdata hplace
  · have hfailed : checkCount count w pos =
        .failed ⟨.shortSequence (toString count) (w.remaining pos), pos, []⟩ pos [] :=
      if_neg hcount
    exact .of_failed (bind_of_failed hfailed) (hshort.at_place hdata hplace rfl)

/-- What is read in a window of its own is read from the same data. -/
theorem block {size : Nat} {next : α × Int → Decoder β} (hshort : AllowsShort data blame)
    (hd : d.Raises data room blame) (hvalue : d.Delivers room property)
    (hnext : ∀ value reached, property value → (next (value, reached)).Raises data room blame) :
    (do
      let block ← limit size
      let found ← inWindow block d
      next found).Raises data room blame := by
  intro w pos hdata hplace
  by_cases hfits : pos + size ≤ w.stop
  · have hlimit : limit size w pos = .done ⟨w.data, pos + size⟩ pos [] := if_pos hfits
    have hnonneg := hplace.nonneg
    have hroom := hplace.room
    have hblock : Place room ⟨w.data, pos + size⟩ pos :=
      ⟨hplace.sound.narrow (by omega) hfits, hnonneg, by dsimp only; omega, by dsimp only; omega⟩
    have hsame : (⟨w.data, pos + size⟩ : Window).data = data := hdata
    refine RaisesAt.bind (.of_done hlimit (Int.le_refl pos) hplace.inside) fun hmid => ?_
    obtain ⟨rfl, rfl, -⟩ := Outcome.done.inj (hlimit.symm.trans hmid)
    cases hinner : d ⟨w.data, pos + size⟩ pos with
    | failed failure last trace =>
        have hfailed : inWindow ⟨w.data, pos + size⟩ d w pos = .failed failure pos trace := by
          rw [inWindow, hinner]
        exact .of_failed (bind_of_failed hfailed) ((hd hsame hblock).failed hinner)
    | done value last trace =>
        have hdone : inWindow ⟨w.data, pos + size⟩ d w pos = .done (value, last) pos trace := by
          rw [inWindow, hinner]
        refine RaisesAt.bind (.of_done hdone (Int.le_refl pos) hplace.inside) fun hmid => ?_
        obtain ⟨rfl, rfl, -⟩ := Outcome.done.inj (hdone.symm.trans hmid)
        exact hnext value last (hvalue hblock hinner).2.2 hdata hplace
  · have hfailed : limit size w pos = short "block" size w pos := if_neg hfits
    exact .of_failed (bind_of_failed hfailed) (hshort.at_place hdata hplace rfl)

end Raises

section Fields

/-- A decoder that needs a fixed number of bytes and nothing else. -/
theorem raises_of_fixed {least size : Nat} (hsettles : d.Settles least)
    (hshort : AllowsShort data blame)
    (henough : ∀ (w : Window) (pos : Int), w.Sound → 0 ≤ pos → pos + size ≤ w.stop →
      ∃ value last, d w pos = .done value last [])
    (hfew : ∀ (w : Window) (pos : Int), w.stop < pos + size →
      ∃ what, d w pos = short what size w pos) : d.Raises data room blame := by
  intro w pos hdata hplace
  by_cases hle : pos + size ≤ w.stop
  · obtain ⟨value, last, hdone⟩ := henough w pos hplace.sound hplace.nonneg hle
    obtain ⟨hpassed, hinside⟩ := hsettles.passed hplace hdone
    exact .of_done hdone (by omega) hinside
  · obtain ⟨what, hfailed⟩ := hfew w pos (by omega)
    exact .of_failed hfailed (hshort.at_place hdata hplace rfl)

theorem raises_field (what : String) (size : Nat) (hshort : AllowsShort data blame) :
    (field what size).Raises data room blame := by
  apply raises_of_fixed (settles_field what size) hshort
  · exact fun w pos hw hpos hle => ⟨_, _, field_of_le hw what hpos hle⟩
  · exact fun w pos hfew => ⟨what, if_neg (Int.not_le.mpr hfew)⟩

/-- No byte can be asked for in a negative number. -/
theorem raises_take {count : Int} (hcount : 0 ≤ count) (hshort : AllowsShort data blame) :
    (take count).Raises data room blame := by
  obtain ⟨count, rfl⟩ := Int.eq_ofNat_of_zero_le hcount
  apply raises_of_fixed (settles_take count) hshort
  · exact fun w pos hw hpos hle => ⟨_, _, take_of_le hle⟩
  · intro w pos hfew
    refine ⟨"data", ?_⟩
    rw [take, if_neg (Int.not_lt.mpr hcount), if_neg (Int.not_le.mpr hfew)]

theorem raises_skip (count : Nat) (hshort : AllowsShort data blame) :
    (skip count).Raises data room blame := by
  apply raises_of_fixed (settles_skip count) hshort
  · exact fun w pos hw hpos hle => ⟨_, _, skip_of_le hle⟩
  · intro w pos hfew
    refine ⟨"padding", ?_⟩
    rw [skip, if_neg (Int.not_lt.mpr (Int.natCast_nonneg count))]
    exact bind_of_failed (if_neg (Int.not_le.mpr hfew))

theorem peekByte_of_lt {w : Window} {pos : Int} (hfew : w.stop < pos + 1) :
    peekByte w pos = short "byte" 1 w pos :=
  if_neg (Int.not_le.mpr hfew)

theorem raises_peekByte (hshort : AllowsShort data blame) :
    peekByte.Raises data room blame := by
  intro w pos hdata hplace
  by_cases hle : pos + 1 ≤ w.stop
  · exact .of_done (peekByte_of_le hplace.sound hplace.nonneg hle) (Int.le_refl pos) hplace.inside
  · exact .of_failed (peekByte_of_lt (by omega)) (hshort.at_place hdata hplace rfl)

theorem raises_nextByte (hshort : AllowsShort data blame) :
    nextByte.Raises data room blame := by
  apply raises_of_fixed settles_nextByte hshort
  · exact fun w pos hw hpos hle => ⟨_, _, nextByte_of_le hw hpos hle⟩
  · exact fun w pos hfew => ⟨"byte", bind_of_failed (peekByte_of_lt hfew)⟩

/-- A byte is the one that the file has where it is read. -/
theorem getElem?_of_nextByte {b : UInt8} {mid : Int} {trace : List Event}
    (hplace : Place room w pos) (hdone : nextByte w pos = .done b mid trace) :
    w.data[pos.toNat]? = some b ∧ mid = pos + 1 := by
  obtain ⟨hpassed, hinside⟩ := settles_nextByte.passed hplace hdone
  have hread := nextByte_of_le hplace.sound hplace.nonneg (by omega)
  obtain ⟨rfl, rfl, -⟩ := Outcome.done.inj (hread.symm.trans hdone)
  have hfile := hplace.sound.inFile
  refine ⟨?_, rfl⟩
  rw [List.headD_eq_head?_getD, List.head?_eq_getElem?,
    Window.getElem?_slice hplace.sound hplace.nonneg (by omega) (by omega), if_pos (by omega),
    Nat.add_zero, Array.getElem?_eq_getElem (by have := hplace.nonneg; omega)]
  rfl

/-- What is read behind a byte may rely on what the data has at the offset of the byte. -/
theorem Raises.byte_bind {next : Int → UInt8 → Decoder β} (hshort : AllowsShort data blame)
    (hnext : ∀ (offset : Nat) (b : UInt8), data[offset]? = some b →
      (next offset b).Raises data room blame) :
    (do
      let offset ← position
      let b ← nextByte
      next offset b).Raises data room blame := by
  intro w pos hdata hplace
  apply RaisesAt.position_bind hplace.inside
  apply (raises_nextByte hshort hdata hplace).bind
  intro b mid trace hdone
  obtain ⟨hpassed, hinside⟩ := settles_nextByte.passed hplace hdone
  obtain ⟨offset, rfl⟩ := Int.eq_ofNat_of_zero_le hplace.nonneg
  have hbyte := (getElem?_of_nextByte hplace hdone).1
  rw [hdata, Int.toNat_natCast] at hbyte
  exact hnext offset b hbyte hdata (hplace.next (by omega) hinside)

theorem Place.at_offset {start : Nat} (hstart : start ≤ data.size) :
    Place data.size (Window.whole data) start where
  sound := Window.whole_sound data
  nonneg := Int.natCast_nonneg start
  inside := Int.ofNat_le.mpr hstart
  room := by simp only [Window.whole]; omega

/-- Behind a byte at a known offset of the file. -/
theorem RaisesAt.byte_bind {start : Nat} {next : UInt8 → Decoder β}
    (hshort : AllowsShort data blame) (hstart : start ≤ data.size)
    (hnext : ∀ b, start + 1 ≤ data.size → data[start]? = some b →
      (next b).RaisesAt (Window.whole data) (start + 1 : Nat) blame) :
    (nextByte >>= next).RaisesAt (Window.whole data) start blame := by
  have hplace := Place.at_offset hstart
  apply (raises_nextByte hshort rfl hplace).bind
  intro b mid trace hdone
  obtain ⟨hbyte, rfl⟩ := getElem?_of_nextByte hplace hdone
  have hinside : (start : Int) + 1 ≤ data.size := (settles_nextByte.passed hplace hdone).2
  exact hnext b (by omega) hbyte

/-- Behind bytes at a known offset of the file that are not looked at. -/
theorem RaisesAt.skip_bind {start count : Nat} {next : Unit → Decoder β}
    (hshort : AllowsShort data blame) (hstart : start ≤ data.size)
    (hnext : start + count ≤ data.size →
      (next ()).RaisesAt (Window.whole data) (start + count : Nat) blame) :
    (skip count >>= next).RaisesAt (Window.whole data) start blame := by
  have hplace := Place.at_offset hstart
  apply (raises_skip count hshort rfl hplace).bind
  intro value mid trace hdone
  obtain ⟨hpassed, hinside⟩ := (settles_skip count).passed hplace hdone
  have hread : skip count (Window.whole data) start = .done () (start + count) [] :=
    skip_of_le (Int.le_trans hpassed hinside)
  obtain ⟨rfl, rfl, -⟩ := Outcome.done.inj (hread.symm.trans hdone)
  exact hnext (by simp only [Window.whole] at hinside; omega)

theorem raises_takeUntil (terminator : UInt8) (hshort : AllowsShort data blame) :
    (takeUntil terminator).Raises data room blame := by
  intro w pos hdata hplace
  cases hfound : w.before? terminator (w.reach (w.place pos).toNat) (w.place pos).toNat with
  | none =>
      have hfailed : takeUntil terminator w pos =
          .failed ⟨.unterminated pos (w.remaining pos), pos, []⟩ pos [] := by
        simp only [takeUntil, hfound]
      exact .of_failed hfailed (hshort.at_place hdata hplace rfl)
  | some bytes =>
      have hdone := takeUntil_of_some hplace.nonneg hfound
      obtain ⟨hpassed, hinside⟩ := (settles_takeUntil terminator).passed hplace hdone
      exact .of_done hdone (by omega) hinside

/-- A field whose width is one of the allowed ones. -/
theorem raises_widthField {allowed : List Nat} {width : Int}
    (hwidth : 0 ≤ width ∧ width.toNat ∈ allowed) (what : Nat → String) (value : Nat → Bytes → α)
    (hshort : AllowsShort data blame) :
    (do
      let size ← checkWidth allowed width
      let bytes ← field (what size) size
      pure (value size bytes)).Raises data room blame := by
  rw [checkWidth, if_pos hwidth, pure_bind]
  exact (raises_field _ _ hshort).bind fun bytes => .pure _

theorem raises_unsigned {width : Int} (hwidth : 0 ≤ width ∧ width.toNat ∈ integerWidths)
    (bigEndian : Bool) (hshort : AllowsShort data blame) :
    (unsigned width bigEndian).Raises data room blame :=
  raises_widthField hwidth _ (fun _ bytes => bytes.toNat bigEndian) hshort

theorem raises_signed {width : Int} (hwidth : 0 ≤ width ∧ width.toNat ∈ integerWidths)
    (bigEndian : Bool) (hshort : AllowsShort data blame) :
    (signed width bigEndian).Raises data room blame :=
  raises_widthField hwidth _ (fun size bytes => signExtend (size * 8) (bytes.toNat bigEndian)) hshort

theorem raises_float {width : Int} (hwidth : 0 ≤ width ∧ width.toNat ∈ floatWidths)
    (bigEndian : Bool) (hshort : AllowsShort data blame) :
    (float width bigEndian).Raises data room blame :=
  raises_widthField hwidth _ (fun size bytes => floatOfPattern size (bytes.toNat bigEndian)) hshort

end Fields

section Sequences

theorem raises_collect {item : Nat → Decoder α}
    (hitem : ∀ index, (item index).Raises data room blame) (count index : Nat) :
    (collect item count index).Raises data room blame := by
  induction count generalizing index with
  | zero => exact .pure []
  | succ count ih =>
      exact (hitem index).bind fun first => (ih (index + 1)).bind fun rest => .pure _

theorem raises_items {item : Decoder α} (count : Int) (hshort : AllowsShort data blame)
    (hitem : item.Raises data room blame) : (items count item).Raises data room blame :=
  .checkCount_bind hshort fun _ => raises_collect (fun _ => hitem) _ _

theorem raises_labelledItems {item : Decoder α} (label : String) (count : Int)
    (htolerant : Tolerant data blame) (hitem : item.Raises data room blame) :
    (labelledItems label count item).Raises data room blame :=
  .checkCount_bind htolerant.short fun _ =>
    raises_collect (fun _ => hitem.label htolerant _) _ _

theorem raises_counted {count : Decoder Int} {item : Decoder α} (label : String)
    (htolerant : Tolerant data blame) (hcount : count.Raises data room blame)
    (hitem : item.Raises data room blame) : (counted label count item).Raises data room blame :=
  .label htolerant (hcount.bind fun declared => raises_items declared htolerant.short hitem) _

theorem raises_countedLabelled {count : Decoder Int} {item : Decoder α} (label itemLabel : String)
    (htolerant : Tolerant data blame) (hcount : count.Raises data room blame)
    (hitem : item.Raises data room blame) :
    (countedLabelled label itemLabel count item).Raises data room blame :=
  .label htolerant (hcount.bind fun declared =>
    raises_labelledItems itemLabel declared htolerant hitem) _

/-- What holds of the state at every index keeps the steps of a fold from raising more. -/
theorem raises_fold {item : Nat → σ → Decoder σ} (holds : Nat → σ → Prop) (count : Nat)
    {index : Nat} {state : σ} (hstate : holds index state)
    (hvalue : ∀ place state, place < index + count → holds place state →
      (item place state).Delivers room (holds (place + 1)))
    (hitem : ∀ place state, place < index + count → holds place state →
      (item place state).Raises data room blame) :
    (fold item count index state).Raises data room blame := by
  induction count generalizing index state with
  | zero => exact .pure state
  | succ count ih =>
      refine (hitem index state (by omega) hstate).bind_value
        (hvalue index state (by omega) hstate) fun next hnext => ?_
      exact ih hnext (fun place state hplace => hvalue place state (by omega))
        fun place state hplace => hitem place state (by omega)

/-- A fold whose steps raise no more whatever the state is. -/
theorem raises_plainFold {item : Nat → σ → Decoder σ}
    (hitem : ∀ index state, (item index state).Raises data room blame) (count index : Nat)
    (state : σ) : (fold item count index state).Raises data room blame := by
  induction count generalizing index state with
  | zero => exact .pure state
  | succ count ih => exact (hitem index state).bind fun next => ih (index + 1) next

end Sequences

section Loops

variable {step : σ → Decoder (σ ⊕ β)}

/-- What holds of the state after every step of a loop, of which there are no more than there
is room for, keeps its steps from raising more. -/
theorem raises_iterate (hsettles : ∀ state, (step state).Settles 1) (holds : Nat → σ → Prop)
    (hvalue : ∀ count state, holds count state →
      (step state).Delivers room (Sum.elim (holds (count + 1)) fun _ => True))
    (hstep : ∀ count state, count ≤ room → holds count state →
      (step state).Raises data room blame)
    {start : σ} (hstart : holds 0 start) : (iterate step start).Raises data room blame := by
  intro w pos hdata hplace
  obtain ⟨count, hcount, hstate⟩ : ∃ count : Nat, count + (w.stop - pos) ≤ room ∧
      holds count start := ⟨0, by have := hplace.room; omega, hstart⟩
  clear hstart
  -- Every step leaves fewer bytes for the rest of the loop.
  induction hleft : (w.stop - pos).toNat using Nat.strongRecOn generalizing start pos count with
  | ind left ih =>
      have hinside := hplace.inside
      have hloop : (step start >>= continueWith (iterate step)).RaisesAt w pos blame := by
        apply (hstep count start (by omega) hstate hdata hplace).bind
        intro next mid trace hdone
        obtain ⟨hmid, hwithin, hnext⟩ := hvalue count start hstate hplace hdone
        have hpassed := ((hsettles start).passed hplace hdone).1
        have hplace' := hplace.next hmid hwithin
        cases next with
        | inr result => exact Raises.pure result hdata hplace'
        | inl next => exact ih _ (by omega) hplace' (count + 1) (by omega) hnext rfl
      have heq := iterate_eq_bind hsettles hplace.sound start hplace.nonneg hinside
      exact ⟨fun hdone => hloop.done (heq.symm.trans hdone),
        fun hfailed => hloop.failed (heq.symm.trans hfailed)⟩

/-- A loop whose steps raise no more whatever the state is. -/
theorem raises_plainIterate (hsettles : ∀ state, (step state).Settles 1)
    (hstep : ∀ state, (step state).Raises data room blame) (start : σ) :
    (iterate step start).Raises data room blame := by
  apply raises_iterate hsettles (fun _ _ => True)
  · intro _ state _
    apply (hsettles state).any.mono
    rintro (next | result) - <;> trivial
  · exact fun _ state _ _ => hstep state
  · trivial

end Loops

/-- A failure other than truncation is one of the whole file. -/
theorem Settles.failed_whole {least : Nat} (hsettles : d.Settles least) (hdata : w.data = data)
    (hplace : Place room w pos) {failure : Failure} {last : Int} {trace : List Event}
    (hfailed : d w pos = .failed failure last trace) (hkind : failure.kind ≠ .truncated) :
    ∃ failure' last' trace', d (Window.whole data) pos = .failed failure' last' trace' ∧
      failure.Alike failure' := by
  have hat := hsettles w pos hplace.sound hplace.nonneg hplace.inside
  obtain ⟨reach, hreach, hsettled⟩ := hat.failed hfailed hkind
  have hinside : reach ≤ (Window.whole data).stop :=
    Int.le_trans hsettled.le_stop (hdata ▸ hplace.sound.inFile)
  have halike := hsettled.alike (Window.whole data) (Window.whole_sound data) hinside
    fun i _ _ => by rw [hdata]; rfl
  rw [hfailed] at halike
  exact halike.eq_failed

end LuaDump.Decoder
