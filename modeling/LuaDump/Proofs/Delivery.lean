import LuaDump.Proofs.Loop
import LuaDump.Proofs.Settling.Field

/-! # What decoders deliver

A property of the values that a decoder delivers where at most a given number of bytes are
left. The number bounds how long a string or a list can be that the decoder comes back with.
-/

namespace LuaDump.Decoder

variable {α β σ : Type} {room : Nat} {d : Decoder α} {property : α → Prop}

/-- A place in a sound window with at most `room` bytes left. -/
structure Place (room : Nat) (w : Window) (pos : Int) : Prop where
  sound : w.Sound
  nonneg : 0 ≤ pos
  inside : pos ≤ w.stop
  room : w.stop - pos ≤ room

/-- Where at most `room` bytes are left, the decoder stops between its start and the end of
the window, with a value that has the property, unless it fails. -/
def Delivers (room : Nat) (d : Decoder α) (property : α → Prop) : Prop :=
  ∀ ⦃w pos⦄, Place room w pos → ∀ ⦃value last trace⦄, d w pos = .done value last trace →
    pos ≤ last ∧ last ≤ w.stop ∧ property value

theorem Place.next {w : Window} {pos last : Int} (hplace : Place room w pos) (hle : pos ≤ last)
    (hinside : last ≤ w.stop) : Place room w last where
  sound := hplace.sound
  nonneg := by have := hplace.nonneg; omega
  inside := hinside
  room := by have := hplace.room; omega

theorem Place.whole (data : Array UInt8) : Place data.size (Window.whole data) 0 where
  sound := Window.whole_sound data
  nonneg := Int.le_refl 0
  inside := (Window.whole_sound data).nonneg
  room := by simp [Window.whole]

theorem Settles.passed {least : Nat} (hsettles : d.Settles least) {w : Window} {pos last : Int}
    {value : α} {trace : List Event} (hplace : Place room w pos)
    (hdone : d w pos = .done value last trace) : pos + least ≤ last ∧ last ≤ w.stop :=
  have hat := hsettles w pos hplace.sound hplace.nonneg hplace.inside
  ⟨(hat.done hdone).1, hat.last_le_stop hdone⟩

theorem Settles.delivers {least : Nat} (hsettles : d.Settles least)
    (hd : ∀ ⦃w pos⦄, Place room w pos → ∀ ⦃value last trace⦄,
      d w pos = .done value last trace → property value) : d.Delivers room property := by
  intro w pos hplace value last trace hdone
  obtain ⟨hle, hinside⟩ := hsettles.passed hplace hdone
  exact ⟨by omega, hinside, hd hplace hdone⟩

theorem Settles.yields {least : Nat} (hsettles : d.Settles least) (hd : d.Yields property) :
    d.Delivers room property :=
  hsettles.delivers fun _ _ _ _ _ _ hdone => hd hdone

theorem Settles.any {least : Nat} (hsettles : d.Settles least) :
    d.Delivers room fun _ => True :=
  hsettles.yields (.any d)

/-- The decoder delivers the value somewhere where at most `room` bytes are left. -/
def Gives (room : Nat) (d : Decoder α) (value : α) : Prop :=
  ∃ w pos last trace, Place room w pos ∧ d w pos = .done value last trace

theorem Settles.gives {least : Nat} (hsettles : d.Settles least) :
    d.Delivers room (d.Gives room) :=
  hsettles.delivers fun _ _ hplace _ _ _ hdone => ⟨_, _, _, _, hplace, hdone⟩

namespace Delivers

theorem of_gives {value : α} (hd : d.Delivers room property) (hgives : d.Gives room value) :
    property value := by
  obtain ⟨w, pos, last, trace, hplace, hdone⟩ := hgives
  exact (hd hplace hdone).2.2

theorem mono {property' : α → Prop} (hd : d.Delivers room property)
    (himp : ∀ value, property value → property' value) : d.Delivers room property' := by
  intro w pos hplace value last trace hdone
  obtain ⟨hle, hinside, hvalue⟩ := hd hplace hdone
  exact ⟨hle, hinside, himp value hvalue⟩

theorem pure {value : α} (hvalue : property value) :
    (Pure.pure value : Decoder α).Delivers room property :=
  (settles_pure value).yields (.pure hvalue)

theorem failAt (offset : Int) (cause : Cause) :
    (Decoder.failAt offset cause : Decoder α).Delivers room property := by
  intro w pos _ value last trace hdone
  exact absurd hdone not_failAt_eq_done

theorem fail (cause : Cause) : (Decoder.fail cause : Decoder α).Delivers room property := by
  intro w pos _ value last trace hdone
  exact absurd hdone not_fail_eq_done

theorem bind {next : α → Decoder β} {property' : β → Prop} (hd : d.Delivers room property)
    (hnext : ∀ value, property value → (next value).Delivers room property') :
    (d >>= next).Delivers room property' := by
  intro w pos hplace result last trace hdone
  obtain ⟨value, mid, first, second, hfirst, hsecond, -⟩ := bind_eq_done_iff.mp hdone
  obtain ⟨hmid, hinside, hvalue⟩ := hd hplace hfirst
  obtain ⟨hlast, hwithin, hresult⟩ := hnext value hvalue (hplace.next hmid hinside) hsecond
  exact ⟨by omega, hwithin, hresult⟩

/-- Behind a decoder that passes a byte there is less room. -/
theorem bind_settled {next : α → Decoder β} {property' : β → Prop} (hsettles : d.Settles 1)
    (hd : d.Delivers room property)
    (hnext : ∀ value, property value → (next value).Delivers (room - 1) property') :
    (d >>= next).Delivers room property' := by
  intro w pos hplace result last trace hdone
  obtain ⟨value, mid, first, second, hfirst, hsecond, -⟩ := bind_eq_done_iff.mp hdone
  obtain ⟨hmid, hinside, hvalue⟩ := hd hplace hfirst
  have hpassed := (hsettles.passed hplace hfirst).1
  have hroom := hplace.room
  have hplace' : Place (room - 1) w mid := { hplace.next hmid hinside with room := by omega }
  obtain ⟨hlast, hwithin, hresult⟩ := hnext value hvalue hplace' hsecond
  exact ⟨by omega, hwithin, hresult⟩

/-- What a decoder delivers may not matter. -/
theorem skip {least : Nat} {next : α → Decoder β} {property' : β → Prop}
    (hsettles : d.Settles least) (hnext : ∀ value, (next value).Delivers room property') :
    (d >>= next).Delivers room property' :=
  hsettles.any.bind fun value _ => hnext value

theorem map {next : α → β} {property' : β → Prop} (hd : d.Delivers room property)
    (hnext : ∀ value, property value → property' (next value)) :
    (d >>= fun value => Pure.pure (next value)).Delivers room property' :=
  hd.bind fun value hvalue => .pure (hnext value hvalue)

theorem within (hd : d.Delivers room property) (label : Label) :
    (Decoder.within label d).Delivers room property :=
  fun _ _ hplace _ _ _ hdone => hd hplace (within_eq_done_iff.mp hdone)

theorem named (hd : d.Delivers room property) (name : String) :
    (Decoder.named name d).Delivers room property :=
  hd.within _

theorem checkCount_bind {count : Int} {next : Unit → Decoder α}
    (hnext : count ≤ room → (next ()).Delivers room property) :
    (checkCount count >>= next).Delivers room property := by
  intro w pos hplace value last trace hdone
  obtain ⟨_, mid, first, second, hcheck, hsecond, -⟩ := bind_eq_done_iff.mp hdone
  have hroom := hplace.room
  unfold checkCount at hcheck
  split at hcheck
  next hcount =>
    simp only [Window.remaining] at hcount
    obtain ⟨-, rfl, -⟩ := Outcome.done.inj hcheck
    exact hnext (by omega) hplace hsecond
  next => exact absurd hcheck (by simp)

/-- What is read in a window of its own has no more room there. -/
theorem block {size : Nat} {next : α × Int → Decoder β} {property' : β → Prop}
    (hd : d.Delivers room property)
    (hnext : ∀ value reached, property value → (next (value, reached)).Delivers room property') :
    (do
      let block ← limit size
      let found ← inWindow block d
      next found).Delivers room property' := by
  intro w pos hplace result last trace hdone
  obtain ⟨block, mid, first, second, hlimit, hsecond, -⟩ := bind_eq_done_iff.mp hdone
  obtain ⟨hsound, hnonneg, hinside, hroom⟩ := hplace
  unfold limit at hlimit
  split at hlimit
  next hfits =>
    obtain ⟨rfl, rfl, -⟩ := Outcome.done.inj hlimit
    obtain ⟨⟨value, reached⟩, mid, third, fourth, hinner, hrest, -⟩ := bind_eq_done_iff.mp hsecond
    obtain ⟨hvalue, rfl⟩ := inWindow_eq_done_iff.mp hinner
    have hblock : Place room ⟨w.data, pos + size⟩ pos :=
      ⟨hsound.narrow (by omega) hfits, hnonneg, by dsimp only; omega, by dsimp only; omega⟩
    exact hnext value reached (hd hblock hvalue).2.2 ⟨hsound, hnonneg, hinside, hroom⟩ hrest
  next => exact absurd hlimit (by simp [short])

end Delivers

theorem delivers_take (count : Int) :
    (take count).Delivers room fun bytes => bytes.length ≤ room := by
  refine (settles_take_toNat count).delivers fun w pos hplace bytes last trace hdone => ?_
  have hroom := hplace.room
  unfold take at hdone
  split at hdone
  next => exact absurd hdone not_fail_eq_done
  next hcount =>
    split at hdone
    next hfits =>
      obtain ⟨rfl, -, -⟩ := Outcome.done.inj hdone
      have hlength := Window.length_slice hplace.sound hplace.nonneg (by omega) hfits
      omega
    next => exact absurd hdone (by simp [short])

theorem delivers_checkCount (count : Int) : (checkCount count).Delivers room fun _ => True := by
  rw [← bind_pure (checkCount count)]
  exact .checkCount_bind fun _ => .pure trivial

theorem delivers_takeUntil (terminator : UInt8) :
    (takeUntil terminator).Delivers room fun bytes => bytes.length + 1 ≤ room := by
  have hsettles := settles_takeUntil terminator
  refine hsettles.delivers fun w pos hplace bytes last trace hdone => ?_
  have hinside := (hsettles.passed hplace hdone).2
  have hroom := hplace.room
  cases hfound : w.before? terminator (w.reach (w.place pos).toNat) (w.place pos).toNat with
  | none =>
      have htruncated := takeUntil_of_none hfound
      rw [hdone] at htruncated
      exact htruncated.elim
  | some found =>
      rw [takeUntil_of_some hplace.nonneg hfound] at hdone
      obtain ⟨rfl, rfl, -⟩ := Outcome.done.inj hdone
      omega

/-- A list with at most `room` values, each of which has the property. -/
structure AllOf (room : Nat) (property : α → Prop) (values : List α) : Prop where
  length_le : values.length ≤ room
  all : ∀ value ∈ values, property value

section Sequences

theorem delivers_collect {item : Nat → Decoder α}
    (hitem : ∀ index, (item index).Delivers room property) (count index : Nat) :
    (collect item count index).Delivers room fun values =>
      values.length = count ∧ ∀ value ∈ values, property value := by
  induction count generalizing index with
  | zero => exact .pure ⟨rfl, by simp⟩
  | succ count ih =>
      refine (hitem index).bind fun first hfirst => (ih (index + 1)).map fun rest hrest => ?_
      exact ⟨by rw [List.length_cons, hrest.1], List.forall_mem_cons.mpr ⟨hfirst, hrest.2⟩⟩

/-- A checked count of items is no greater than the room. -/
theorem delivers_checkedCollect {item : Nat → Decoder α} {count : Int}
    (hitem : ∀ index, (item index).Delivers room property) :
    (do
      checkCount count
      collect item count.toNat 0).Delivers room (AllOf room property) := by
  refine .checkCount_bind fun hcount => (delivers_collect hitem _ _).mono fun values hvalues => ?_
  exact ⟨by omega, hvalues.2⟩

theorem delivers_items {item : Decoder α} (count : Int) (hitem : item.Delivers room property) :
    (items count item).Delivers room (AllOf room property) :=
  delivers_checkedCollect fun _ => hitem

/-- A list has as many items as were asked for. -/
theorem delivers_items_length {item : Decoder α} (count : Nat)
    (hitem : item.Delivers room property) :
    (items count item).Delivers room fun values =>
      values.length = count ∧ ∀ value ∈ values, property value :=
  .checkCount_bind fun _ => delivers_collect (fun _ => hitem) count 0

theorem delivers_labelledItems {item : Decoder α} (label : String) (count : Int)
    (hitem : item.Delivers room property) :
    (labelledItems label count item).Delivers room (AllOf room property) :=
  delivers_checkedCollect fun index => hitem.within (.item label index)

theorem delivers_counted {count : Decoder Int} {item : Decoder α} {least : Nat} (label : String)
    (hcount : count.Settles least) (hitem : item.Delivers room property) :
    (counted label count item).Delivers room (AllOf room property) :=
  .named (.skip hcount fun declared => delivers_items declared hitem) label

theorem delivers_countedLabelled {count : Decoder Int} {item : Decoder α} {least : Nat}
    (label itemLabel : String) (hcount : count.Settles least)
    (hitem : item.Delivers room property) :
    (countedLabelled label itemLabel count item).Delivers room (AllOf room property) :=
  .named (.skip hcount fun declared => delivers_labelledItems itemLabel declared hitem) label

theorem delivers_foldFrom {item : Nat → σ → Decoder σ} (holds : Nat → σ → Prop) (count : Nat)
    {index : Nat} {state : σ} (hstate : holds index state)
    (hitem : ∀ place state, place < index + count → holds place state →
      (item place state).Delivers room (holds (place + 1))) :
    (fold item count index state).Delivers room (holds (index + count)) := by
  induction count generalizing index state with
  | zero => exact .pure hstate
  | succ count ih =>
      refine (hitem index state (by omega) hstate).bind fun next hnext => ?_
      have hrest := ih hnext fun place state hplace => hitem place state (by omega)
      rwa [Nat.add_right_comm, Nat.add_assoc] at hrest

/-- What holds of the state at every index holds of it in the end. -/
theorem delivers_fold {item : Nat → σ → Decoder σ} (holds : Nat → σ → Prop) (count : Nat)
    {state : σ} (hstate : holds 0 state)
    (hitem : ∀ index state, index < count → holds index state →
      (item index state).Delivers room (holds (index + 1))) :
    (fold item count 0 state).Delivers room (holds count) := by
  have hfold : (fold item count 0 state).Delivers room (holds (0 + count)) :=
    delivers_foldFrom holds count hstate fun index state hindex => hitem index state (by omega)
  rwa [Nat.zero_add] at hfold

end Sequences

/-- What holds of the state after every step of a loop, of which there are no more than there
is room for, leads to the result. -/
theorem delivers_iterate {step : σ → Decoder (σ ⊕ β)} {property : β → Prop}
    (hsettles : ∀ state, (step state).Settles 1) (holds : Nat → σ → Prop)
    (hstep : ∀ count state, count < room → holds count state →
      (step state).Delivers room (Sum.elim (holds (count + 1)) property))
    {start : σ} (hstart : holds 0 start) : (iterate step start).Delivers room property := by
  refine (settles_iterate hsettles start).delivers fun w pos hplace result last trace hdone => ?_
  have hroom := hplace.room
  obtain ⟨state, mid, later, hvisits, hlast⟩ := exists_visits_of_iterate_eq_done hsettles
    hplace.sound hplace.nonneg hplace.inside hdone
  -- Every step so far has passed a byte.
  have hbefore : Place room w mid ∧ ∃ count : Nat, pos + count ≤ mid ∧ holds count state := by
    clear hlast
    induction hvisits with
    | start => exact ⟨hplace, 0, by omega, hstart⟩
    | @step state next mid last trace _ hnext ih =>
        obtain ⟨hmid, count, hcount, hstate⟩ := ih
        obtain ⟨hpassed, hinside⟩ := (hsettles state).passed hmid hnext
        have hholds := hstep count state (by omega) hstate hmid hnext
        exact ⟨hmid.next hholds.1 hinside, count + 1, by omega, hholds.2.2⟩
  obtain ⟨hmid, count, hcount, hstate⟩ := hbefore
  obtain ⟨hpassed, hinside⟩ := (hsettles state).passed hmid hlast
  exact (hstep count state (by omega) hstate hmid hlast).2.2

end LuaDump.Decoder
