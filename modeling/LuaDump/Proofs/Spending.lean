import Mathlib.Algebra.Order.Ring.Int
import LuaDump.Proofs.Delivery

/-! # What values cost

Everything that a decoder comes back with has been paid for, by the bytes that the decoder
passed or by a credit it was given. What one decoder has paid for is the credit of the next, so
nothing is paid for twice, wherever it is moved in between.
-/

namespace LuaDump.Decoder

variable {α β σ : Type} {credit credit' least : Nat} {price price' : α → Nat} {d : Decoder α}

/-- The price of the value is at most the credit and the number of bytes passed. -/
def Spends (credit : Nat) (d : Decoder α) (price : α → Nat) : Prop :=
  ∀ ⦃room w pos⦄, Place room w pos → ∀ ⦃value last trace⦄, d w pos = .done value last trace →
    pos ≤ last ∧ last ≤ w.stop ∧ price value + pos ≤ credit + last

theorem Settles.spends (hsettles : d.Settles least) : d.Spends 0 fun _ => least := by
  intro room w pos hplace value last trace hdone
  obtain ⟨hpassed, hinside⟩ := hsettles.passed hplace hdone
  exact ⟨by omega, hinside, by dsimp only; omega⟩

/-- Values of a kind that the credit and the bytes of any value pay for. -/
theorem Settles.spends_of_yields {property : α → Prop} (hsettles : d.Settles least)
    (hvalue : d.Yields property)
    (hprice : ∀ value, property value → price value ≤ credit + least) : d.Spends credit price := by
  intro room w pos hplace value last trace hdone
  have hpaid := hprice value (hvalue hdone)
  obtain ⟨hpassed, hinside⟩ := hsettles.passed hplace hdone
  exact ⟨by omega, hinside, by omega⟩

namespace Spends

/-- What is added to the credit may be added to the price, and prices may be lowered. -/
theorem trade (hd : d.Spends credit price)
    (hle : ∀ value, price' value + credit ≤ price value + credit') : d.Spends credit' price' := by
  intro room w pos hplace value last trace hdone
  have hvalue := hle value
  obtain ⟨hpos, hinside, hpaid⟩ := hd hplace hdone
  exact ⟨hpos, hinside, by omega⟩

theorem afford (hd : d.Spends credit price) (hle : credit ≤ credit') : d.Spends credit' price :=
  hd.trade fun _ => Nat.add_le_add_left hle _

/-- Credit that is not needed is kept. -/
theorem frame (hd : d.Spends credit price) (more : Nat) :
    d.Spends (credit + more) fun value => price value + more :=
  hd.trade fun value => by omega

theorem pure {value : α} (hvalue : price value ≤ credit) :
    (Pure.pure value : Decoder α).Spends credit price := by
  intro room w pos hplace result last trace hdone
  obtain ⟨rfl, rfl, -⟩ := pure_eq_done_iff.mp hdone
  exact ⟨Int.le_refl _, hplace.inside, by omega⟩

theorem failAt (offset : Int) (cause : Cause) :
    (Decoder.failAt offset cause : Decoder α).Spends credit price :=
  fun _ _ _ _ _ _ _ hdone => absurd hdone not_failAt_eq_done

theorem fail (cause : Cause) : (Decoder.fail cause : Decoder α).Spends credit price :=
  fun _ _ _ _ _ _ _ hdone => absurd hdone not_fail_eq_done

/-- What the first part has paid for is the credit of the second. -/
theorem bind {next : α → Decoder β} {price' : β → Nat} (hd : d.Spends credit price)
    (hnext : ∀ value, (next value).Spends (price value) price') :
    (d >>= next).Spends credit price' := by
  intro room w pos hplace result last trace hdone
  obtain ⟨value, mid, first, second, hfirst, hsecond, -⟩ := bind_eq_done_iff.mp hdone
  obtain ⟨hmid, hinside, hpaid⟩ := hd hplace hfirst
  obtain ⟨hlast, hwithin, hpaid'⟩ := hnext value (hplace.next hmid hinside) hsecond
  exact ⟨by omega, hwithin, by omega⟩

/-- A first part that needs some of the credit leaves the rest. -/
theorem draw {needed : Nat} {next : α → Decoder β} {price' : β → Nat}
    (hd : d.Spends needed price) (hneeded : needed ≤ credit)
    (hnext : ∀ value, (next value).Spends (credit - needed + price value) price') :
    (d >>= next).Spends credit price' :=
  (hd.trade fun value => by omega).bind hnext

/-- A first part that needs no credit adds to it. -/
theorem pay {next : α → Decoder β} {price' : β → Nat} (hd : d.Spends 0 price)
    (hnext : ∀ value, (next value).Spends (credit + price value) price') :
    (d >>= next).Spends credit price' :=
  hd.draw (Nat.zero_le credit) hnext

theorem skip {next : α → Decoder β} {price' : β → Nat} (hsettles : d.Settles least)
    (hnext : ∀ value, (next value).Spends (credit + least) price') :
    (d >>= next).Spends credit price' :=
  hsettles.spends.pay hnext

theorem within (hd : d.Spends credit price) (label : Label) :
    (Decoder.within label d).Spends credit price :=
  fun _ _ _ hplace _ _ _ hdone => hd hplace (within_eq_done_iff.mp hdone)

theorem named (hd : d.Spends credit price) (name : String) :
    (Decoder.named name d).Spends credit price :=
  hd.within _

theorem checkCount_bind {count : Int} {next : Unit → Decoder α}
    (hnext : (next ()).Spends credit price) : (checkCount count >>= next).Spends credit price := by
  intro room w pos hplace value last trace hdone
  obtain ⟨_, mid, first, second, hcheck, hsecond, -⟩ := bind_eq_done_iff.mp hdone
  unfold checkCount at hcheck
  split at hcheck
  next =>
    obtain ⟨-, rfl, -⟩ := Outcome.done.inj hcheck
    exact hnext hplace hsecond
  next => exact absurd hcheck (by simp)

/-- What is read in a window of its own costs at most the size of the window. -/
theorem block {size : Nat} {next : α × Int → Decoder β} {price' : β → Nat}
    (hd : d.Spends credit price)
    (hnext : ∀ value reached, price value ≤ credit + size →
      (next (value, reached)).Spends credit price') :
    (do
      let block ← limit size
      let found ← inWindow block d
      next found).Spends credit price' := by
  intro room w pos hplace result last trace hdone
  obtain ⟨block, mid, first, second, hlimit, hsecond, -⟩ := bind_eq_done_iff.mp hdone
  obtain ⟨hsound, hnonneg, hinside, hroom⟩ := hplace
  unfold limit at hlimit
  split at hlimit
  next hfits =>
    obtain ⟨rfl, rfl, -⟩ := Outcome.done.inj hlimit
    obtain ⟨⟨value, reached⟩, mid, third, fourth, hinner, hrest, -⟩ := bind_eq_done_iff.mp hsecond
    obtain ⟨hvalue, rfl⟩ := inWindow_eq_done_iff.mp hinner
    have hblock : Place room ⟨w.data, pos + size⟩ pos :=
      ⟨hsound.narrow (by omega) hfits, hnonneg, by dsimp only; omega, by dsimp only; omega⟩
    obtain ⟨-, hreached, hpaid⟩ := hd hblock hvalue
    dsimp only at hreached
    exact hnext value reached (by omega) ⟨hsound, hnonneg, hinside, hroom⟩ hrest
  next => exact absurd hlimit (by simp [short])

theorem collect {item : Nat → Decoder α} (hitem : ∀ index, (item index).Spends credit price)
    (count index : Nat) :
    (collect item count index).Spends (count * credit) fun values => (values.map price).sum := by
  induction count generalizing index with
  | zero => exact .pure (by simp)
  | succ count ih =>
      rw [Nat.succ_mul, Nat.add_comm]
      refine ((hitem index).frame (count * credit)).bind fun first => ?_
      rw [Nat.add_comm]
      refine ((ih (index + 1)).frame (price first)).bind fun rest => .pure (Nat.le_of_eq ?_)
      rw [List.map_cons, List.sum_cons, Nat.add_comm]

theorem items {item : Decoder α} (count : Int) (hitem : item.Spends credit price) :
    (items count item).Spends (count.toNat * credit) fun values => (values.map price).sum :=
  .checkCount_bind (.collect (fun _ => hitem) _ _)

theorem labelledItems {item : Decoder α} (label : String) (count : Int)
    (hitem : item.Spends 0 price) :
    (labelledItems label count item).Spends 0 fun values => (values.map price).sum := by
  have hitems := Spends.collect (fun index => hitem.within (.item label index)) count.toNat 0
  rw [Nat.mul_zero] at hitems
  exact .checkCount_bind hitems

theorem countedLabelled {count : Decoder Int} {item : Decoder α} (label itemLabel : String)
    (hcount : count.Settles least) (hitem : item.Spends 0 price) :
    (countedLabelled label itemLabel count item).Spends 0 fun values =>
      (values.map price).sum := by
  refine .named (.skip hcount fun declared => ?_) label
  exact (hitem.labelledItems itemLabel declared).afford (Nat.zero_le _)

/-- Where every step is paid for by the potential of the state before it, so is the fold. -/
theorem fold {item : Nat → σ → Decoder σ} {potential : σ → Nat}
    (hitem : ∀ index state, (item index state).Spends (potential state) potential)
    (count index : Nat) (state : σ) :
    (fold item count index state).Spends (potential state) potential := by
  induction count generalizing index state with
  | zero => exact .pure (Nat.le_refl _)
  | succ count ih => exact (hitem index state).bind fun next => ih (index + 1) next

theorem iterate {step : σ → Decoder (σ ⊕ β)} {potential : σ → Nat} {price : β → Nat}
    (hstep : ∀ state, (step state).Spends (potential state) (Sum.elim potential price))
    (start : σ) : (iterate step start).Spends (potential start) price := by
  have hrounds : ∀ rounds state,
      (iterateFor step rounds state).Spends (potential state) price := by
    intro rounds
    induction rounds with
    | zero => exact fun state _ _ _ _ _ _ _ hdone => absurd hdone (by simp [iterateFor, short])
    | succ rounds ih =>
        intro state
        refine (hstep state).bind fun next => ?_
        cases next with
        | inl next => exact ih next
        | inr result => exact .pure (Nat.le_refl _)
  exact fun room w pos hplace result last trace hdone => hrounds _ start hplace hdone

end Spends

/-- Items that pass a number of bytes each. -/
theorem Settles.spends_collect {item : Nat → Decoder α}
    (hitem : ∀ index, (item index).Settles least) (count index : Nat) :
    (collect item count index).Spends 0 fun values => values.length * least := by
  have hitems := Spends.collect (fun index => (hitem index).spends) count index
  rw [Nat.mul_zero] at hitems
  refine hitems.trade fun values => Nat.le_of_eq ?_
  rw [List.map_const', List.sum_replicate_nat]

theorem Settles.spends_items {item : Decoder α} (hitem : item.Settles least) (count : Int) :
    (items count item).Spends 0 fun values => values.length * least :=
  .checkCount_bind (Settles.spends_collect (fun _ => hitem) _ _)

theorem Settles.spends_counted {least' : Nat} {count : Decoder Int} {item : Decoder α}
    (hitem : item.Settles least) (label : String) (hcount : count.Settles least') :
    (counted label count item).Spends 0 fun values => values.length * least :=
  .named (.skip hcount fun declared =>
    (hitem.spends_items declared).afford (Nat.zero_le _)) label

end LuaDump.Decoder
