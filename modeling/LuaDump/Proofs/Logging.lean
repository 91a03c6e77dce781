import LuaDump.Decoder.Sequence
import LuaDump.Decoder.Varint
import LuaDump.Proofs.Inversion

/-! # What decoders report

A decoder reports events while it reads. What a decoder has reported when it succeeds can be
told from the value it delivers. Most decoders report nothing at all: they are silent, and a
decoder that is put together from silent parts is silent.
-/

namespace LuaDump.Decoder

variable {α β σ : Type} {d : Decoder α} {related : α → List Event → Prop}

/-- A decoder that succeeds has reported a trace that belongs to its value. -/
def Logs (d : Decoder α) (related : α → List Event → Prop) : Prop :=
  ∀ ⦃w pos value last trace⦄, d w pos = .done value last trace → related value trace

/-- A decoder that succeeds has reported nothing. -/
def Silent (d : Decoder α) : Prop :=
  d.Logs fun _ trace => trace = []

theorem emit_bind_eq_done_iff {event : Event} {next : Unit → Decoder α} {w : Window}
    {pos last : Int} {value : α} {trace : List Event} :
    (emit event >>= next) w pos = .done value last trace ↔
      ∃ later, next () w pos = .done value last later ∧ trace = event :: later := by
  constructor
  · intro hdone
    obtain ⟨_, mid, first, later, hemit, hlater, rfl⟩ := bind_eq_done_iff.mp hdone
    obtain ⟨-, rfl, rfl⟩ := Outcome.done.inj hemit
    exact ⟨later, hlater, rfl⟩
  · rintro ⟨later, hlater, rfl⟩
    exact bind_eq_done_iff.mpr ⟨(), pos, [event], later, rfl, hlater, rfl⟩

/-- What follows a silent decoder reports the whole trace. -/
theorem Silent.of_bind_eq_done (hd : d.Silent) {next : α → Decoder β} {w : Window}
    {pos last : Int} {result : β} {trace : List Event}
    (hdone : (d >>= next) w pos = .done result last trace) :
    ∃ value mid, d w pos = .done value mid [] ∧ next value w mid = .done result last trace := by
  obtain ⟨value, mid, first, second, hfirst, hsecond, rfl⟩ := bind_eq_done_iff.mp hdone
  obtain rfl : first = [] := hd hfirst
  exact ⟨value, mid, hfirst, hsecond⟩

namespace Logs

theorem mono {related' : α → List Event → Prop} (hd : d.Logs related)
    (himp : ∀ value trace, related value trace → related' value trace) : d.Logs related' :=
  fun _ _ _ _ _ hdone => himp _ _ (hd hdone)

theorem pure {value : α} (hvalue : related value []) :
    (Pure.pure value : Decoder α).Logs related := by
  intro w pos result last trace hdone
  obtain ⟨rfl, -, rfl⟩ := pure_eq_done_iff.mp hdone
  exact hvalue

theorem fail (cause : Cause) : (Decoder.fail cause : Decoder α).Logs related :=
  fun _ _ _ _ _ hdone => absurd hdone not_fail_eq_done

theorem failAt (offset : Int) (cause : Cause) :
    (Decoder.failAt offset cause : Decoder α).Logs related :=
  fun _ _ _ _ _ hdone => absurd hdone not_failAt_eq_done

theorem bind {next : α → Decoder β} {related' : β → List Event → Prop} (hd : d.Logs related)
    (hnext : ∀ value first, related value first →
      (next value).Logs fun result second => related' result (first ++ second)) :
    (d >>= next).Logs related' := by
  intro w pos result last trace hdone
  obtain ⟨value, mid, first, second, hfirst, hsecond, rfl⟩ := bind_eq_done_iff.mp hdone
  exact hnext value first (hd hfirst) hsecond

theorem within (hd : d.Logs related) (label : Label) : (Decoder.within label d).Logs related :=
  fun _ _ _ _ _ hdone => hd (within_eq_done_iff.mp hdone)

theorem named (hd : d.Logs related) (name : String) : (Decoder.named name d).Logs related :=
  hd.within _

theorem emit_bind {event : Event} {next : Unit → Decoder α}
    (hnext : (next ()).Logs fun value trace => related value (event :: trace)) :
    (emit event >>= next).Logs related := by
  intro w pos result last trace hdone
  obtain ⟨later, hlater, rfl⟩ := emit_bind_eq_done_iff.mp hdone
  exact hnext hlater

/-- Behind a silent decoder the trace begins, and what is known of its value may be used. -/
theorem after {first : Decoder β} {property : β → Prop} {next : β → Decoder α}
    (hfirst : first.Silent) (hvalue : first.Yields property)
    (hnext : ∀ value, property value → (next value).Logs related) :
    (first >>= next).Logs related := by
  intro w pos result last trace hdone
  obtain ⟨value, mid, hfront, hback⟩ := hfirst.of_bind_eq_done hdone
  exact hnext value (hvalue hfront) hback

theorem skip {first : Decoder β} {next : β → Decoder α} (hfirst : first.Silent)
    (hnext : ∀ value, (next value).Logs related) : (first >>= next).Logs related :=
  .after hfirst (.any first) fun value _ => hnext value

/-- What is read in a window of its own is reported as in any other window. -/
theorem inWindow {inner : Window} (hd : d.Logs related) :
    (Decoder.inWindow inner d).Logs fun found trace => related found.1 trace := by
  rintro w pos ⟨value, reached⟩ last trace hdone
  exact hd (inWindow_eq_done_iff.mp hdone).1

/-- Items that follow one another report one after the other. -/
theorem collect {item : Nat → Decoder α} {report : α → List Event}
    (hitem : ∀ index, (item index).Logs fun value trace => trace = report value)
    (count index : Nat) :
    (Decoder.collect item count index).Logs fun values trace =>
      trace = values.flatMap report := by
  induction count generalizing index with
  | zero => exact .pure rfl
  | succ count ih =>
      refine (hitem index).bind fun first earlier hfirst => ?_
      refine (ih (index + 1)).bind fun rest later hrest => .pure ?_
      rw [hfirst, hrest, List.flatMap_cons, List.append_nil]

/-- What belongs to the trace so far at every state of a loop, and is kept by every step, leads
to what belongs to the trace of the loop. -/
theorem iterate {step : σ → Decoder (σ ⊕ α)} (holds : σ → List Event → Prop)
    (hstep : ∀ state earlier, holds state earlier → (step state).Logs fun found trace =>
      found.elim (holds · (earlier ++ trace)) (related · (earlier ++ trace)))
    {start : σ} (hstart : holds start []) : (Decoder.iterate step start).Logs related := by
  have hrounds : ∀ rounds state earlier, holds state earlier →
      (iterateFor step rounds state).Logs fun result trace =>
        related result (earlier ++ trace) := by
    intro rounds
    induction rounds with
    | zero =>
        intro state earlier _ w pos result last trace hdone
        exact absurd hdone (by simp [iterateFor, short])
    | succ rounds ih =>
        intro state earlier hstate
        refine (hstep state earlier hstate).bind fun found trace hfound => ?_
        cases found with
        | inl next =>
            have hrest := ih next (earlier ++ trace) hfound
            simpa only [List.append_assoc] using hrest
        | inr result => exact .pure (by simpa using hfound)
  intro w pos result last trace hdone
  exact hrounds _ start [] hstart hdone

end Logs

namespace Silent

theorem of_trace (htrace : ∀ w pos, (d w pos).trace = []) : d.Silent := by
  intro w pos value last trace hdone
  have hempty := htrace w pos
  rwa [hdone] at hempty

theorem pure (value : α) : (Pure.pure value : Decoder α).Silent :=
  Logs.pure rfl

theorem fail (cause : Cause) : (Decoder.fail cause : Decoder α).Silent :=
  Logs.fail cause

theorem failAt (offset : Int) (cause : Cause) : (Decoder.failAt offset cause : Decoder α).Silent :=
  Logs.failAt offset cause

theorem bind {next : α → Decoder β} (hd : d.Silent) (hnext : ∀ value, (next value).Silent) :
    (d >>= next).Silent :=
  Logs.skip hd hnext

theorem map {next : α → β} (hd : d.Silent) :
    (d >>= fun value => Pure.pure (next value)).Silent :=
  hd.bind fun value => .pure (next value)

theorem within (hd : d.Silent) (label : Label) : (Decoder.within label d).Silent :=
  Logs.within hd label

theorem named (hd : d.Silent) (name : String) : (Decoder.named name d).Silent :=
  Logs.named hd name

theorem ite {condition : Prop} [Decidable condition] {e : Decoder α} (hd : d.Silent)
    (he : e.Silent) : (if condition then d else e).Silent := by
  split
  · exact hd
  · exact he

theorem inWindow (inner : Window) (hd : d.Silent) : (Decoder.inWindow inner d).Silent :=
  Logs.inWindow hd

theorem collect {item : Nat → Decoder α} (hitem : ∀ index, (item index).Silent)
    (count index : Nat) : (Decoder.collect item count index).Silent := by
  induction count generalizing index with
  | zero => exact .pure _
  | succ count ih => exact (hitem index).bind fun _ => (ih (index + 1)).map

theorem fold {item : Nat → σ → Decoder σ} (hitem : ∀ index state, (item index state).Silent)
    (count index : Nat) (state : σ) : (Decoder.fold item count index state).Silent := by
  induction count generalizing index state with
  | zero => exact .pure _
  | succ count ih => exact (hitem index state).bind fun next => ih (index + 1) next

theorem iterate {step : σ → Decoder (σ ⊕ α)} (hstep : ∀ state, (step state).Silent) (start : σ) :
    (Decoder.iterate step start).Silent := by
  refine Logs.iterate (fun _ earlier => earlier = []) (fun state earlier hearlier => ?_) rfl
  refine (hstep state).mono fun found trace htrace => ?_
  cases found <;> simp [hearlier, htrace]

end Silent

section Fields

theorem silent_position : position.Silent :=
  .of_trace fun _ _ => rfl

theorem silent_remaining : remaining.Silent :=
  .of_trace fun _ _ => rfl

theorem silent_advance (count : Int) : (advance count).Silent :=
  .of_trace fun _ _ => rfl

theorem silent_need (what : String) (size : Int) : (need what size).Silent := by
  refine .of_trace fun w pos => ?_
  unfold need
  split <;> rfl

theorem silent_limit (size : Int) : (limit size).Silent := by
  refine .of_trace fun w pos => ?_
  unfold limit
  split <;> rfl

theorem silent_peekByte : peekByte.Silent := by
  refine .of_trace fun w pos => ?_
  unfold peekByte
  split
  · split <;> rfl
  · rfl

theorem silent_nextByte : nextByte.Silent :=
  silent_peekByte.bind fun _ => (silent_advance 1).map

theorem silent_field (what : String) (size : Nat) : (field what size).Silent := by
  refine .of_trace fun w pos => ?_
  unfold field
  split
  · dsimp only
    split <;> rfl
  · rfl

theorem silent_take (count : Int) : (take count).Silent := by
  refine .of_trace fun w pos => ?_
  unfold take
  split
  · rfl
  · split <;> rfl

theorem silent_skip (count : Int) : (skip count).Silent :=
  .ite (.fail _) ((silent_need _ _).bind fun _ => silent_advance _)

theorem silent_takeUntil (terminator : UInt8) : (takeUntil terminator).Silent := by
  refine .of_trace fun w pos => ?_
  unfold takeUntil
  dsimp only
  split <;> rfl

theorem silent_checkWidth (allowed : List Nat) (width : Int) : (checkWidth allowed width).Silent :=
  .ite (.pure _) (.fail _)

theorem silent_unsigned (width : Int) (bigEndian : Bool) : (unsigned width bigEndian).Silent :=
  (silent_checkWidth _ _).bind fun _ => (silent_field _ _).map

theorem silent_signed (width : Int) (bigEndian : Bool) : (signed width bigEndian).Silent :=
  (silent_checkWidth _ _).bind fun _ => (silent_field _ _).map

theorem silent_float (width : Int) (bigEndian : Bool) : (float width bigEndian).Silent :=
  (silent_checkWidth _ _).bind fun _ => (silent_field _ _).map

theorem silent_single : single.Silent :=
  (silent_field _ _).map

theorem silent_checkCount (count : Int) : (checkCount count).Silent := by
  refine .of_trace fun w pos => ?_
  unfold checkCount
  split <;> rfl

theorem silent_items (count : Int) (hd : d.Silent) : (items count d).Silent :=
  (silent_checkCount count).bind fun _ => .collect (fun _ => hd) _ _

theorem silent_labelledItems (label : String) (count : Int) (hd : d.Silent) :
    (labelledItems label count d).Silent :=
  (silent_checkCount count).bind fun _ => .collect (fun _ => hd.within _) _ _

theorem silent_counted (label : String) {count : Decoder Int} (hcount : count.Silent)
    (hd : d.Silent) : (counted label count d).Silent :=
  .named (hcount.bind fun declared => silent_items declared hd) label

theorem silent_countedLabelled (label itemLabel : String) {count : Decoder Int}
    (hcount : count.Silent) (hd : d.Silent) : (countedLabelled label itemLabel count d).Silent :=
  .named (hcount.bind fun declared => silent_labelledItems itemLabel declared hd) label

theorem silent_lowGroups (bits : Nat) : (lowGroups bits).Silent := by
  refine silent_position.bind fun start => .iterate (fun state => ?_) _
  refine silent_nextByte.bind fun b => ?_
  exact .ite (.failAt _ _) (.ite (.pure _) (.ite (.failAt _ _) (.pure _)))

theorem silent_varint : varint.Silent :=
  silent_lowGroups 32

theorem silent_numericHead : numericHead.Silent := by
  refine silent_position.bind fun start => silent_nextByte.bind fun b => ?_
  refine .ite (.pure _) (.map (.iterate (fun state => silent_nextByte.bind fun group => ?_) _))
  exact .ite (.pure _) (.ite (.failAt _ _) (.pure _))

theorem silent_highGroups (limit : Int) : (highGroups limit).Silent := by
  refine silent_position.bind fun start => .iterate (fun value => ?_) _
  exact silent_nextByte.bind fun b => .ite (.failAt _ _) (.pure _)

end Fields

namespace Yields

theorem within {property : α → Prop} (hd : d.Yields property) (label : Label) :
    (Decoder.within label d).Yields property :=
  fun _ _ _ _ _ hdone => hd (within_eq_done_iff.mp hdone)

theorem collect_length (item : Nat → Decoder α) (count index : Nat) :
    (collect item count index).Yields fun values => values.length = count := by
  induction count generalizing index with
  | zero => exact .pure rfl
  | succ count ih =>
      exact (Yields.any _).bind fun first _ => (ih (index + 1)).bind fun rest hrest =>
        .pure (by rw [List.length_cons, hrest])

theorem items_length (count : Nat) (item : Decoder α) :
    (items count item).Yields fun values => values.length = count :=
  (Yields.any _).bind fun _ _ => collect_length _ count 0

theorem labelledItems_length (label : String) (count : Nat) (item : Decoder α) :
    (labelledItems label count item).Yields fun values => values.length = count :=
  (Yields.any _).bind fun _ _ => collect_length _ count 0

/-- What holds of the state at every index holds of it in the end. -/
theorem fold {item : Nat → σ → Decoder σ} (holds : Nat → σ → Prop)
    (hitem : ∀ index state, holds index state → (item index state).Yields (holds (index + 1)))
    (count : Nat) {index : Nat} {state : σ} (hstate : holds index state) :
    (Decoder.fold item count index state).Yields (holds (index + count)) := by
  induction count generalizing index state with
  | zero => exact .pure hstate
  | succ count ih =>
      refine (hitem index state hstate).bind fun next hnext => ?_
      rw [← Nat.add_assoc, Nat.add_right_comm]
      exact ih hnext

end Yields

end LuaDump.Decoder
