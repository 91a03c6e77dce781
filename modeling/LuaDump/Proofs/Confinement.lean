import LuaDump.Proofs.Relocation

/-! # Decoders that stay in their window

A confined decoder stops between the position it starts from and the end of its window, whether
it succeeds or fails, and nothing outside of these bounds has a say in how it ends: two windows
with the same bytes between them give the same outcome. A field that fails also stops where it
started.
-/

namespace LuaDump

namespace Window.Shifted

variable {w w' : Window} {pos : Int}

theorem stop_eq (hshifted : Shifted w pos w' pos) : w'.stop = w.stop := by
  have hstop := hshifted.stop_sub_eq
  omega

theorem moveTo (hshifted : Shifted w pos w' pos) {reached : Int} (hle : pos ≤ reached)
    (hstop : reached ≤ w.stop) : Shifted w reached w' reached := by
  have hmoved := hshifted.advance (by omega : 0 ≤ reached - pos) (by omega)
  rwa [(by omega : pos + (reached - pos) = reached)] at hmoved

end Window.Shifted

@[simp] theorem Outcome.pos_after {α : Type} (earlier : List Event) (outcome : Outcome α) :
    (outcome.after earlier).pos = outcome.pos := by
  cases outcome <;> rfl

namespace Decoder

variable {α β : Type}

/-- The decoder stops between its start and the end of the window, and the bytes between them
decide the outcome. -/
def Confined (d : Decoder α) : Prop :=
  ∀ ⦃w w' pos⦄, Window.Shifted w pos w' pos →
    pos ≤ (d w pos).pos ∧ (d w pos).pos ≤ w.stop ∧ d w' pos = d w pos

namespace Confined

variable {d : Decoder α}

/-- A decoder that does not move, and that looks at no more than the end of the window. -/
theorem of_still (hpos : ∀ w pos, (d w pos).pos = pos)
    (hsame : ∀ w w' pos, w'.stop = w.stop → d w' pos = d w pos) : d.Confined := by
  intro w w' pos hshifted
  rw [hpos]
  exact ⟨Int.le_refl _, hshifted.inside, hsame w w' pos hshifted.stop_eq⟩

theorem pure (value : α) : (Pure.pure value : Decoder α).Confined :=
  of_still (fun _ _ => rfl) fun _ _ _ _ => rfl

theorem failAt (offset : Int) (cause : Cause) :
    (Decoder.failAt offset cause : Decoder α).Confined :=
  of_still (fun _ _ => rfl) fun _ _ _ _ => rfl

theorem fail (cause : Cause) : (Decoder.fail cause : Decoder α).Confined :=
  of_still (fun _ _ => rfl) fun _ _ _ _ => rfl

theorem short (what : String) (size : Int) : (Decoder.short what size : Decoder α).Confined := by
  refine of_still (fun _ _ => rfl) fun w w' pos hstop => ?_
  simp only [Decoder.short, Window.remaining, hstop]

theorem bind {next : α → Decoder β} (hd : d.Confined) (hnext : ∀ value, (next value).Confined) :
    (d >>= next).Confined := by
  intro w w' pos hshifted
  obtain ⟨hle, hstop, hsame⟩ := hd hshifted
  cases houtcome : d w pos with
  | failed failure reached trace =>
      rw [houtcome] at hle hstop
      rw [bind_of_failed houtcome, bind_of_failed (hsame.trans houtcome)]
      exact ⟨hle, hstop, rfl⟩
  | done value reached trace =>
      rw [houtcome] at hle hstop
      obtain ⟨hle', hstop', hsame'⟩ := hnext value (hshifted.moveTo hle hstop)
      rw [bind_of_done houtcome, bind_of_done (hsame.trans houtcome), Outcome.pos_after]
      exact ⟨Int.le_trans hle hle', hstop', congrArg (Outcome.after trace) hsame'⟩

theorem map (hd : d.Confined) (f : α → β) : (f <$> d).Confined :=
  hd.bind fun value => pure (f value)

theorem iterateFor {step : α → Decoder (α ⊕ β)} (hstep : ∀ state, (step state).Confined)
    (rounds : Nat) (state : α) : (iterateFor step rounds state).Confined := by
  induction rounds generalizing state with
  | zero => exact short "byte" 1
  | succ rounds ih =>
      refine (hstep state).bind fun next => ?_
      cases next with
      | inl next => exact ih next
      | inr result => exact pure result

/-- Both windows have as many bytes left, and so as many rounds. -/
theorem iterate {step : α → Decoder (α ⊕ β)} (hstep : ∀ state, (step state).Confined)
    (state : α) : (iterate step state).Confined := by
  intro w w' pos hshifted
  unfold Decoder.iterate
  rw [← hshifted.remaining_eq]
  exact iterateFor hstep _ state hshifted

/-- A decoder that takes a fixed number of bytes and computes its value from them. -/
theorem of_fixed {size : Nat} (what : String) (value : Bytes → α)
    (henough : ∀ (w : Window) (pos : Int), w.Sound → 0 ≤ pos → pos + size ≤ w.stop →
      d w pos = .done (value (w.slice pos (pos + size))) (pos + size) [])
    (hshort : ∀ (w : Window) (pos : Int), w.stop < pos + size →
      d w pos = Decoder.short what size w pos) : d.Confined := by
  intro w w' pos hshifted
  have hstop := hshifted.stop_eq
  by_cases hle : pos + size ≤ w.stop
  · rw [henough w pos hshifted.sound hshifted.nonneg hle,
      henough w' pos hshifted.sound' hshifted.nonneg (by omega), hshifted.slice_eq hle]
    refine ⟨?_, hle, rfl⟩
    simp only [Outcome.pos]
    omega
  · rw [hshort w pos (by omega), hshort w' pos (by omega)]
    exact short what size hshifted

end Confined

/-- The decoder stops where it started if it fails. -/
def FailsInPlace (d : Decoder α) : Prop :=
  ∀ ⦃w pos failure last trace⦄, d w pos = .failed failure last trace → last = pos

namespace FailsInPlace

variable {d : Decoder α}

theorem of_still (hpos : ∀ w pos, (d w pos).pos = pos) : d.FailsInPlace := by
  intro w pos failure last trace hfailed
  have hstill := hpos w pos
  rw [hfailed] at hstill
  exact hstill

/-- What cannot fail may follow. -/
theorem bind {next : α → Decoder β} (hd : d.FailsInPlace)
    (hnext : ∀ value w pos failure last trace, next value w pos ≠ .failed failure last trace) :
    (d >>= next).FailsInPlace := by
  intro w pos failure last trace hfailed
  rcases bind_eq_failed_iff.mp hfailed with hfirst | ⟨value, mid, _, second, -, hsecond, -⟩
  · exact hd hfirst
  · exact absurd hsecond (hnext value w mid failure last second)

theorem map (hd : d.FailsInPlace) (f : α → β) : (f <$> d).FailsInPlace :=
  hd.bind fun _ _ _ _ _ _ => nofun

end FailsInPlace

/-! ## Fields -/

theorem confined_position : position.Confined :=
  .of_still (fun _ _ => rfl) fun _ _ _ _ => rfl

theorem confined_remaining : remaining.Confined := by
  refine .of_still (fun _ _ => rfl) fun w w' pos hstop => ?_
  simp only [remaining, Window.remaining, hstop]

theorem confined_checkCount (count : Int) : (checkCount count).Confined := by
  refine .of_still (fun w pos => ?_) fun w w' pos hstop => ?_
  · unfold checkCount
    split <;> rfl
  · have hleft : w'.remaining pos = w.remaining pos := by
      rw [Window.remaining, hstop, Window.remaining]
    rw [checkCount, checkCount, hleft]

theorem pos_peekByte (w : Window) (pos : Int) : (peekByte w pos).pos = pos := by
  unfold peekByte
  split
  · split <;> rfl
  · rfl

theorem peekByte_of_gt {w : Window} {pos : Int} (hfew : w.stop < pos + 1) :
    peekByte w pos = short "byte" 1 w pos :=
  if_neg (Int.not_le.mpr hfew)

theorem confined_peekByte : peekByte.Confined := by
  intro w w' pos hshifted
  have hstop := hshifted.stop_eq
  rw [pos_peekByte]
  refine ⟨Int.le_refl _, hshifted.inside, ?_⟩
  by_cases hle : pos + 1 ≤ w.stop
  · have hslice : w.slice pos (pos + (1 : Nat)) = w'.slice pos (pos + (1 : Nat)) :=
      hshifted.slice_eq hle
    rw [Int.natCast_one] at hslice
    rw [peekByte_of_le hshifted.sound hshifted.nonneg hle,
      peekByte_of_le hshifted.sound' hshifted.nonneg (by omega), hslice]
  · rw [peekByte_of_gt (by omega), peekByte_of_gt (by omega)]
    exact (Confined.short "byte" 1 hshifted).2.2

theorem confined_nextByte : nextByte.Confined := by
  refine .of_fixed "byte" (fun bytes => bytes.headD 0)
    (fun _ _ hw hpos hle => nextByte_of_le hw hpos hle) fun w pos hfew => ?_
  rw [nextByte, bind_of_failed (peekByte_of_gt hfew)]
  rfl

theorem confined_field (what : String) (size : Nat) : (field what size).Confined :=
  .of_fixed what id (fun _ _ hw hpos hle => field_of_le hw what hpos hle)
    fun _ _ hfew => if_neg (Int.not_le.mpr hfew)

/-- A negative count fails where it stands. -/
theorem confined_take (count : Int) : (take count).Confined := by
  by_cases hcount : 0 ≤ count
  · rw [← Int.toNat_of_nonneg hcount]
    refine .of_fixed "data" id (fun _ _ _ _ hle => take_of_le hle) fun w pos hfew => ?_
    simp only [take, if_neg (Int.not_lt.mpr (Int.natCast_nonneg count.toNat)),
      if_neg (Int.not_le.mpr hfew)]
  · have hd : take count = fail (.negativeRead count) := by
      funext w pos
      exact if_pos (by omega)
    rw [hd]
    exact .fail _

theorem confined_skip (count : Int) : (skip count).Confined := by
  by_cases hcount : 0 ≤ count
  · rw [← Int.toNat_of_nonneg hcount]
    refine .of_fixed "padding" (fun _ => ()) (fun _ _ _ _ hle => skip_of_le hle) ?_
    intro w pos hfew
    have hneed : need "padding" count.toNat w pos = short "padding" count.toNat w pos :=
      if_neg (Int.not_le.mpr hfew)
    rw [skip, if_neg (Int.not_lt.mpr (Int.natCast_nonneg count.toNat)), bind_of_failed hneed]
    rfl
  · rw [skip, if_pos (by omega)]
    exact .fail _

theorem confined_takeUntil (terminator : UInt8) : (takeUntil terminator).Confined := by
  intro w w' pos hshifted
  have hreach := Window.reach_eq hshifted.sound hshifted.nonneg hshifted.inside
  have hsame := (hshifted.search_eq terminator).symm
  cases hfound : w.before? terminator (w.reach (w.place pos).toNat) (w.place pos).toNat with
  | none =>
      have hnone := hsame.trans hfound
      simp only [takeUntil, hfound, hnone, hshifted.remaining_eq]
      exact ⟨Int.le_refl _, hshifted.inside, trivial⟩
  | some bytes =>
      have hlength := Window.length_before?_lt hfound
      rw [takeUntil_of_some hshifted.nonneg hfound,
        takeUntil_of_some hshifted.nonneg (hsame.trans hfound)]
      dsimp only [Outcome.pos]
      exact ⟨by omega, by omega, rfl⟩

/-- A field whose width is checked first. -/
theorem confined_widthField (allowed : List Nat) (width : Int) (what : Nat → String)
    (value : Nat → Bytes → α) :
    (do
      let size ← checkWidth allowed width
      let bytes ← field (what size) size
      pure (value size bytes)).Confined := by
  unfold checkWidth
  refine .bind ?_ fun size => (confined_field _ size).map (value size)
  split
  · exact .pure _
  · exact .fail _

theorem confined_unsigned (width : Int) (bigEndian : Bool) : (unsigned width bigEndian).Confined :=
  confined_widthField _ width _ fun _ bytes => bytes.toNat bigEndian

theorem confined_signed (width : Int) (bigEndian : Bool) : (signed width bigEndian).Confined :=
  confined_widthField _ width _ fun size bytes => signExtend (size * 8) (bytes.toNat bigEndian)

theorem confined_float (width : Int) (bigEndian : Bool) : (float width bigEndian).Confined :=
  confined_widthField _ width _ fun size bytes => floatOfPattern size (bytes.toNat bigEndian)

theorem confined_single : single.Confined :=
  (confined_field "float" 4).map fun bytes => floatOfPattern 4 bytes.toNatLE

/-! ## Fields that fail -/

theorem failsInPlace_peekByte : peekByte.FailsInPlace :=
  .of_still pos_peekByte

theorem failsInPlace_nextByte : nextByte.FailsInPlace :=
  failsInPlace_peekByte.bind fun _ _ _ _ _ _ => nofun

theorem failsInPlace_field (what : String) (size : Nat) : (field what size).FailsInPlace := by
  intro w pos failure last trace hfailed
  unfold field at hfailed
  split at hfailed
  · dsimp only at hfailed
    split at hfailed
    · exact absurd hfailed nofun
    · exact (Outcome.failed.inj hfailed).2.1.symm
  · exact (Outcome.failed.inj hfailed).2.1.symm

theorem failsInPlace_take (count : Int) : (take count).FailsInPlace := by
  intro w pos failure last trace hfailed
  unfold take at hfailed
  split at hfailed
  · exact (Outcome.failed.inj hfailed).2.1.symm
  · split at hfailed
    · exact absurd hfailed nofun
    · exact (Outcome.failed.inj hfailed).2.1.symm

theorem failsInPlace_skip (count : Int) : (skip count).FailsInPlace := by
  unfold skip
  split
  · exact .of_still fun _ _ => rfl
  · refine FailsInPlace.bind (.of_still fun w pos => ?_) fun _ _ _ _ _ _ => nofun
    unfold need
    split <;> rfl

theorem failsInPlace_takeUntil (terminator : UInt8) : (takeUntil terminator).FailsInPlace := by
  intro w pos failure last trace hfailed
  dsimp only [takeUntil] at hfailed
  split at hfailed
  · exact absurd hfailed nofun
  · exact (Outcome.failed.inj hfailed).2.1.symm

theorem failsInPlace_widthField (allowed : List Nat) (width : Int) (what : Nat → String)
    (value : Nat → Bytes → α) :
    (do
      let size ← checkWidth allowed width
      let bytes ← field (what size) size
      pure (value size bytes)).FailsInPlace := by
  unfold checkWidth
  split
  · rw [pure_bind]
    exact (failsInPlace_field _ _).map _
  · exact .of_still fun _ _ => rfl

theorem failsInPlace_unsigned (width : Int) (bigEndian : Bool) :
    (unsigned width bigEndian).FailsInPlace :=
  failsInPlace_widthField _ width _ fun _ bytes => bytes.toNat bigEndian

theorem failsInPlace_signed (width : Int) (bigEndian : Bool) :
    (signed width bigEndian).FailsInPlace :=
  failsInPlace_widthField _ width _ fun size bytes =>
    signExtend (size * 8) (bytes.toNat bigEndian)

theorem failsInPlace_float (width : Int) (bigEndian : Bool) :
    (float width bigEndian).FailsInPlace :=
  failsInPlace_widthField _ width _ fun size bytes => floatOfPattern size (bytes.toNat bigEndian)

theorem failsInPlace_single : single.FailsInPlace :=
  (failsInPlace_field "float" 4).map fun bytes => floatOfPattern 4 bytes.toNatLE

/-! ## Integers of variable length -/

theorem confined_lowGroups (bits : Nat) : (lowGroups bits).Confined := by
  refine confined_position.bind fun start => .iterate (fun state => ?_) _
  refine confined_nextByte.bind fun b => ?_
  dsimp only
  split
  · exact .failAt _ _
  · split
    · exact .pure _
    · split
      · exact .failAt _ _
      · exact .pure _

theorem confined_numericHead : numericHead.Confined := by
  refine confined_position.bind fun start => confined_nextByte.bind fun b => ?_
  dsimp only
  split
  · exact .pure _
  · refine (Confined.iterate (fun state => ?_) _).map _
    refine confined_nextByte.bind fun group => ?_
    dsimp only
    split
    · exact .pure _
    · split
      · exact .failAt _ _
      · exact .pure _

theorem confined_highGroups (limit : Int) : (highGroups limit).Confined := by
  refine confined_position.bind fun start => .iterate (fun state => ?_) _
  refine confined_nextByte.bind fun b => ?_
  split
  · exact .failAt _ _
  · exact .pure _

end Decoder

end LuaDump
