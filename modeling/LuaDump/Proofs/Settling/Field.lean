import LuaDump.Decoder.Sequence
import LuaDump.Proofs.Settling

/-! # Fields and sequences settle

Every field of fixed size is settled by its own bytes. A count that is checked against
the remaining bytes looks ahead, but no further than the items after it reach, because
each of them takes a byte.
-/

namespace LuaDump.Decoder

variable {α β σ : Type}

theorem field_of_le {w : Window} (hw : w.Sound) (what : String) {pos : Int} {size : Nat}
    (hpos : 0 ≤ pos) (hle : pos + size ≤ w.stop) :
    field what size w pos = .done (w.slice pos (pos + size)) (pos + size) [] := by
  have hlength := Window.length_slice hw hpos (by omega) hle
  simp only [field, if_pos hle]
  rw [if_pos (by omega)]

theorem take_of_le {w : Window} {pos : Int} {count : Nat} (hle : pos + count ≤ w.stop) :
    take count w pos = .done (w.slice pos (pos + count)) (pos + count) [] := by
  simp only [take, if_neg (Int.not_lt.mpr (Int.natCast_nonneg count)), if_pos hle]

theorem skip_of_le {w : Window} {pos : Int} {count : Nat} (hle : pos + count ≤ w.stop) :
    skip count w pos = .done () (pos + count) [] := by
  have hneed : need "padding" count w pos = .done () pos [] := if_pos hle
  rw [skip, if_neg (Int.not_lt.mpr (Int.natCast_nonneg count)), bind_of_done hneed]
  rfl

/-- A decoder that takes a fixed number of bytes and computes its value from them. -/
theorem settles_of_fixed {d : Decoder α} {size : Nat} (value : Bytes → α)
    (henough : ∀ (w : Window) (pos : Int), w.Sound → 0 ≤ pos → pos + size ≤ w.stop →
      d w pos = .done (value (w.slice pos (pos + size))) (pos + size) [])
    (hshort : ∀ (w : Window) (pos : Int), w.stop < pos + size → (d w pos).Truncated) :
    d.Settles size := by
  intro w pos hw hpos hstop
  by_cases hle : pos + size ≤ w.stop
  · have hdone := henough w pos hw hpos hle
    have hsettled : d.SettledBy w pos (pos + size) := by
      refine ⟨hle, ?_, fun w' _ _ hfew _ => hshort w' pos hfew⟩
      intro w' hw' hle' hagree
      rw [hdone, henough w' pos hw' hpos hle',
        Window.slice_eq_of_agree hw hw' hpos (by omega) hle hle' hagree]
      exact ⟨rfl, rfl⟩
    exact .of_done hdone (Int.le_refl _) hsettled
  · exact .of_truncated (hshort w pos (by omega))

theorem settles_field (what : String) (size : Nat) : (field what size).Settles size := by
  apply settles_of_fixed id
  · intro w pos hw hpos hle
    exact field_of_le hw what hpos hle
  · intro w pos hfew
    simp only [field, if_neg (Int.not_le.mpr hfew)]
    rfl

theorem settles_take (count : Nat) : (take count).Settles count := by
  apply settles_of_fixed id
  · intro w pos hw hpos hle
    exact take_of_le hle
  · intro w pos hfew
    simp only [take, if_neg (Int.not_lt.mpr (Int.natCast_nonneg count)),
      if_neg (Int.not_le.mpr hfew)]
    rfl

/-- A negative count fails where it stands. -/
theorem settles_take_toNat (count : Int) : (take count).Settles count.toNat := by
  by_cases hcount : 0 ≤ count
  · have hd := settles_take count.toNat
    rwa [Int.toNat_of_nonneg hcount] at hd
  · have hd : take count = fail (.negativeRead count) := by
      funext w pos
      exact if_pos (by omega)
    rw [hd]
    exact settles_fail _ _

theorem settles_skip (count : Nat) : (skip count).Settles count := by
  apply settles_of_fixed fun _ => ()
  · intro w pos hw hpos hle
    exact skip_of_le hle
  · intro w pos hfew
    rw [skip, if_neg (Int.not_lt.mpr (Int.natCast_nonneg count))]
    simp only [bind_apply, need, if_neg (Int.not_le.mpr hfew), short]
    rfl

theorem peekByte_of_le {w : Window} (hw : w.Sound) {pos : Int} (hpos : 0 ≤ pos)
    (hle : pos + 1 ≤ w.stop) :
    peekByte w pos = .done ((w.slice pos (pos + 1)).headD 0) pos [] := by
  have hfile := hw.inFile
  have hbyte : w.byteAt? pos = some ((w.slice pos (pos + 1)).headD 0) := by
    rw [Window.byteAt?_of_nonneg w hpos, List.headD_eq_head?_getD, List.head?_eq_getElem?,
      Window.getElem?_slice hw hpos (by omega) hle, if_pos (by omega), Nat.add_zero,
      Array.getElem?_eq_getElem (by omega)]
    rfl
  simp only [peekByte, if_pos hle, hbyte]

theorem peekByte_truncated {w : Window} {pos : Int} (hfew : w.stop < pos + 1) :
    (peekByte w pos).Truncated := by
  simp only [peekByte, if_neg (Int.not_le.mpr hfew)]
  rfl

theorem nextByte_of_le {w : Window} (hw : w.Sound) {pos : Int} (hpos : 0 ≤ pos)
    (hle : pos + 1 ≤ w.stop) :
    nextByte w pos = .done ((w.slice pos (pos + 1)).headD 0) (pos + 1) [] := by
  rw [nextByte, bind_of_done (peekByte_of_le hw hpos hle)]
  rfl

theorem settles_nextByte : nextByte.Settles 1 := by
  apply settles_of_fixed fun bytes => bytes.headD 0
  · intro w pos hw hpos hle
    exact nextByte_of_le hw hpos hle
  · intro w pos hfew
    obtain ⟨failure, last, trace, hfailed, hkind⟩ := (peekByte_truncated hfew).eq_failed
    rw [nextByte, bind_of_failed hfailed]
    exact hkind

/-- A decoder that needs a fixed number of bytes but does not move. -/
theorem foresees_of_fixed {d : Decoder α} {ahead : Nat} (value : Bytes → α)
    (henough : ∀ (w : Window) (pos : Int), w.Sound → 0 ≤ pos → pos + ahead ≤ w.stop →
      d w pos = .done (value (w.slice pos (pos + ahead))) pos [])
    (hshort : ∀ (w : Window) (pos : Int), pos ≤ w.stop → w.stop < pos + ahead →
      (d w pos).Truncated) : d.Foresees ahead := by
  intro w pos hw hpos hstop
  by_cases hle : pos + ahead ≤ w.stop
  · have hdone := henough w pos hw hpos hle
    apply ForeseesAt.of_done hdone
    refine ⟨hle, ?_, fun w' _ hstop' hfew _ => hshort w' pos hstop' hfew⟩
    intro w' hw' hle' hagree
    rw [hdone, henough w' pos hw' hpos hle',
      Window.slice_eq_of_agree hw hw' hpos (by omega) hle hle' hagree]
    exact ⟨rfl, rfl⟩
  · exact .of_truncated (hshort w pos hstop (by omega))

theorem foresees_peekByte : peekByte.Foresees 1 :=
  foresees_of_fixed (fun bytes => bytes.headD 0) (fun _ _ hw hpos hle => peekByte_of_le hw hpos hle)
    fun _ _ _ hfew => peekByte_truncated hfew

theorem foresees_checkCount (count : Int) : (checkCount count).Foresees count.toNat := by
  apply foresees_of_fixed fun _ => ()
  · intro w pos hw hpos hle
    rw [checkCount, if_pos (by simp only [Window.remaining]; omega)]
  · intro w pos hstop hfew
    rw [checkCount, if_neg (by simp only [Window.remaining]; omega)]
    rfl

theorem takeUntil_of_some {w : Window} {terminator : UInt8} {pos : Int} (hpos : 0 ≤ pos)
    {bytes : Bytes}
    (hsome : w.before? terminator (w.reach (w.place pos).toNat) (w.place pos).toNat = some bytes) :
    takeUntil terminator w pos = .done bytes (pos + bytes.length + 1) [] := by
  simp only [takeUntil, hsome]
  rw [Window.place_of_nonneg w hpos, Int.toNat_of_nonneg hpos]

theorem takeUntil_of_none {w : Window} {terminator : UInt8} {pos : Int}
    (hnone : w.before? terminator (w.reach (w.place pos).toNat) (w.place pos).toNat = none) :
    (takeUntil terminator w pos).Truncated := by
  simp only [takeUntil, hnone]
  rfl

theorem settles_takeUntil (terminator : UInt8) : (takeUntil terminator).Settles 1 := by
  intro w pos hw hpos hstop
  have hreach := Window.reach_eq hw hpos hstop
  cases hfound : w.before? terminator (w.reach (w.place pos).toNat) (w.place pos).toNat with
  | none => exact .of_truncated (takeUntil_of_none hfound)
  | some bytes =>
      have hdone := takeUntil_of_some hpos hfound
      have hlength := Window.length_before?_lt hfound
      refine .of_done hdone (by omega) ⟨by omega, ?_, ?_⟩
      · intro w' hw' hstop' hagree
        have hreach' := Window.reach_eq hw' hpos (by omega)
        rw [Window.place_of_nonneg w hpos] at hfound
        rw [Window.place_of_nonneg w' hpos] at hreach'
        have hfound' := Window.before?_eq_some_of_agree hfound
          (hagree.mono (by omega) (by omega)) (by omega : _ < w'.reach pos.toNat)
        rw [← Window.place_of_nonneg w' hpos] at hfound'
        rw [hdone, takeUntil_of_some hpos hfound']
        exact ⟨rfl, rfl⟩
      · intro w' hw' hstop' hfew hagree
        have hreach' := Window.reach_eq hw' hpos hstop'
        rw [Window.place_of_nonneg w hpos] at hfound
        rw [Window.place_of_nonneg w' hpos] at hreach'
        have hnone := Window.before?_eq_none_of_agree hfound
          (hagree.mono (by omega) (by omega)) (by omega : w'.reach pos.toNat ≤ _)
        apply takeUntil_of_none
        rw [Window.place_of_nonneg w' hpos, hnone]

/-- A field whose width is checked first. -/
theorem settles_widthField {allowed : List Nat} (hallowed : ∀ size ∈ allowed, 1 ≤ size)
    (width : Int) (what : Nat → String) (value : Nat → Bytes → α) :
    (do
      let size ← checkWidth allowed width
      let bytes ← field (what size) size
      pure (value size bytes)).Settles 1 := by
  unfold checkWidth
  split
  next hwidth =>
    rw [pure_bind]
    refine ((settles_field (what width.toNat) width.toNat).mono ?_).bind fun bytes => settles_pure _
    exact hallowed _ hwidth.2
  next =>
    refine (settles_fail _ 1).bind fun size => ?_
    exact ((settles_field (what size) size).weak).bind fun bytes => settles_pure _

theorem settles_unsigned (width : Int) (bigEndian : Bool) :
    (unsigned width bigEndian).Settles 1 :=
  settles_widthField (by decide) width _ fun _ bytes => bytes.toNat bigEndian

theorem settles_signed (width : Int) (bigEndian : Bool) : (signed width bigEndian).Settles 1 :=
  settles_widthField (by decide) width _ fun size bytes =>
    signExtend (size * 8) (bytes.toNat bigEndian)

theorem settles_float (width : Int) (bigEndian : Bool) : (float width bigEndian).Settles 1 :=
  settles_widthField (by decide) width _ fun size bytes =>
    floatOfPattern size (bytes.toNat bigEndian)

theorem settles_single : single.Settles 1 :=
  ((settles_field "float" 4).mono (by decide)).bind fun _ => settles_pure _

theorem settles_collect {item : Nat → Decoder α} (hitem : ∀ index, (item index).Settles 1)
    (count index : Nat) : (collect item count index).Settles count := by
  induction count generalizing index with
  | zero => exact settles_pure []
  | succ count ih =>
      have hboth := (hitem index).bind_add fun first =>
        (ih (index + 1)).bind fun rest => settles_pure (first :: rest)
      exact hboth.mono (by omega)

theorem settles_fold {item : Nat → σ → Decoder σ}
    (hitem : ∀ index state, (item index state).Settles 1) (count index : Nat) (state : σ) :
    (fold item count index state).Settles count := by
  induction count generalizing index state with
  | zero => exact settles_pure state
  | succ count ih =>
      have hboth := (hitem index state).bind_add fun next => ih (index + 1) next
      exact hboth.mono (by omega)

/-- A count that is checked against the remaining bytes, and a fold of as many steps. -/
theorem settles_checkedFold {item : Nat → σ → Decoder σ}
    (hitem : ∀ index state, (item index state).Settles 1) (count : Nat) (state : σ) :
    (do
      checkCount count
      fold item count 0 state).Settles count :=
  (foresees_checkCount count).bind (fun _ => settles_fold hitem count 0 state) (by simp)

theorem settles_items (count : Int) {item : Decoder α} (hitem : item.Settles 1) :
    (items count item).Settles count.toNat :=
  (foresees_checkCount count).bind (fun _ => settles_collect (fun _ => hitem) _ _) (Nat.le_refl _)

theorem settles_labelledItems (label : String) (count : Int) {item : Decoder α}
    (hitem : item.Settles 1) : (labelledItems label count item).Settles count.toNat :=
  (foresees_checkCount count).bind
    (fun _ => settles_collect (fun index => hitem.within (.item label index)) _ _) (Nat.le_refl _)

theorem settles_counted (label : String) {count : Decoder Int} {item : Decoder α} {least : Nat}
    (hcount : count.Settles least) (hitem : item.Settles 1) :
    (counted label count item).Settles least :=
  (hcount.bind fun declared => (settles_items declared hitem).weak).named label

theorem settles_countedLabelled (label itemLabel : String) {count : Decoder Int}
    {item : Decoder α} {least : Nat} (hcount : count.Settles least) (hitem : item.Settles 1) :
    (countedLabelled label itemLabel count item).Settles least :=
  (hcount.bind fun declared =>
    (settles_labelledItems itemLabel declared hitem).weak).named label

/-- Run a decoder in the window over the next `size` bytes, without moving. -/
def block (size : Nat) (d : Decoder α) : Decoder (α × Int) := do
  let inner ← limit size
  inWindow inner d

theorem block_of_le {w : Window} {pos : Int} {size : Nat} (d : Decoder α)
    (hle : pos + size ≤ w.stop) :
    block size d w pos = inWindow ⟨w.data, pos + size⟩ d w pos := by
  have hlimit : limit size w pos = .done ⟨w.data, pos + size⟩ pos [] := if_pos hle
  rw [block, bind_of_done hlimit, Outcome.after_nil]

theorem block_truncated {w : Window} {pos : Int} {size : Nat} (d : Decoder α)
    (hfew : w.stop < pos + size) : (block size d w pos).Truncated := by
  rw [block, bind_apply, limit, if_neg (Int.not_le.mpr hfew)]
  rfl

/-- Files that agree on a block cannot be told apart inside it. -/
theorem SettledBy.block {d : Decoder α} {w : Window} {pos reach : Int} {size : Nat}
    (hd : d.SettledBy ⟨w.data, pos + size⟩ pos reach) (hpos : 0 ≤ pos)
    (hle : pos + size ≤ w.stop) : (Decoder.block size d).SettledBy w pos (pos + size) where
  le_stop := hle
  alike := by
    intro w' hw' hle' hagree
    have hreach := hd.le_stop
    have hsame := hd.alike ⟨w'.data, pos + size⟩ (hw'.narrow (by omega) hle') hreach
      (hagree.mono (Int.le_refl _) hreach)
    rw [block_of_le d hle, block_of_le d hle', inWindow, inWindow]
    cases hinner : d ⟨w.data, pos + size⟩ pos with
    | done value last trace =>
        rw [hinner] at hsame
        obtain ⟨trace', hinner'⟩ := hsame.eq_done
        rw [hinner']
        exact ⟨rfl, rfl⟩
    | failed failure last trace =>
        rw [hinner] at hsame
        obtain ⟨failure', last', trace', hinner', halike⟩ := hsame.eq_failed
        rw [hinner']
        exact halike
  truncated := fun _ _ _ hfew _ => block_truncated d hfew

theorem foresees_block {d : Decoder α} {least : Nat} (hd : d.Settles least) (size : Nat) :
    (block size d).Foresees size := by
  intro w pos hw hpos hstop
  by_cases hle : pos + size ≤ w.stop
  · have hinner := hd ⟨w.data, pos + size⟩ pos (hw.narrow (by omega) hle) hpos
      (by show pos ≤ pos + size; omega)
    cases houtcome : d ⟨w.data, pos + size⟩ pos with
    | done value last trace =>
        have hdone : block size d w pos = .done (value, last) pos trace := by
          rw [block_of_le d hle, inWindow, houtcome]
        exact .of_done hdone ((hinner.done houtcome).2.block hpos hle)
    | failed failure last trace =>
        have hfailed : block size d w pos = .failed failure pos trace := by
          rw [block_of_le d hle, inWindow, houtcome]
        constructor
        · intro value last' trace' h
          exact absurd (hfailed.symm.trans h) (by simp)
        · intro failure' last' trace' h hkind
          obtain ⟨rfl, -, -⟩ := Outcome.failed.inj (hfailed.symm.trans h)
          obtain ⟨reach, -, hsettled⟩ := hinner.failed houtcome hkind
          exact ⟨pos + size, by omega, hsettled.block hpos hle⟩
  · exact .of_truncated (block_truncated d (by omega))

end LuaDump.Decoder
