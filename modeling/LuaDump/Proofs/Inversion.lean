import LuaDump.Decoder

/-! # Taking decoders apart

What the outcome of a compound decoder says about the outcomes of its parts.
-/

namespace LuaDump

namespace Outcome

variable {α : Type}

theorem after_eq_done_iff {earlier : List Event} {outcome : Outcome α} {value : α} {pos : Int}
    {trace : List Event} :
    outcome.after earlier = .done value pos trace ↔
      ∃ later, outcome = .done value pos later ∧ trace = earlier ++ later := by
  cases outcome <;> simp [after, and_assoc, eq_comm]

theorem after_eq_failed_iff {earlier : List Event} {outcome : Outcome α} {failure : Failure}
    {pos : Int} {trace : List Event} :
    outcome.after earlier = .failed failure pos trace ↔
      ∃ later, outcome = .failed failure pos later ∧ trace = earlier ++ later := by
  cases outcome <;> simp [after, and_assoc, eq_comm]

end Outcome

namespace Decoder

variable {α β : Type} {d : Decoder α} {w : Window} {pos : Int}

theorem bind_of_done {next : α → Decoder β} {value : α} {reached : Int} {trace : List Event}
    (hdone : d w pos = .done value reached trace) :
    (d >>= next) w pos = (next value w reached).after trace := by
  rw [bind_apply, hdone]

theorem bind_of_failed {next : α → Decoder β} {failure : Failure} {reached : Int}
    {trace : List Event} (hfailed : d w pos = .failed failure reached trace) :
    (d >>= next) w pos = .failed failure reached trace := by
  rw [bind_apply, hfailed]

/-- A sequence succeeds exactly if both of its parts do. -/
theorem bind_eq_done_iff {next : α → Decoder β} {result : β} {last : Int} {trace : List Event} :
    (d >>= next) w pos = .done result last trace ↔
      ∃ value reached first second, d w pos = .done value reached first ∧
        next value w reached = .done result last second ∧ trace = first ++ second := by
  constructor
  · intro h
    cases hd : d w pos with
    | failed failure reached first =>
        rw [bind_of_failed hd] at h
        exact absurd h (by simp)
    | done value reached first =>
        rw [bind_of_done hd, Outcome.after_eq_done_iff] at h
        obtain ⟨second, hnext, htrace⟩ := h
        exact ⟨value, reached, first, second, rfl, hnext, htrace⟩
  · rintro ⟨value, reached, first, second, hd, hnext, rfl⟩
    rw [bind_of_done hd, hnext]
    rfl

/-- A sequence fails with its first part, or with its second part after the first. -/
theorem bind_eq_failed_iff {next : α → Decoder β} {failure : Failure} {last : Int}
    {trace : List Event} :
    (d >>= next) w pos = .failed failure last trace ↔
      d w pos = .failed failure last trace ∨
        ∃ value reached first second, d w pos = .done value reached first ∧
          next value w reached = .failed failure last second ∧ trace = first ++ second := by
  cases hd : d w pos with
  | failed found reached first => simp [bind_of_failed hd]
  | done value reached first =>
      rw [bind_of_done hd, Outcome.after_eq_failed_iff]
      constructor
      · rintro ⟨second, hnext, htrace⟩
        exact .inr ⟨value, reached, first, second, rfl, hnext, htrace⟩
      · rintro (h | ⟨value', reached', first', second, h, hnext, htrace⟩)
        · exact absurd h (by simp)
        · obtain ⟨rfl, rfl, rfl⟩ := Outcome.done.inj h
          exact ⟨second, hnext, htrace⟩

@[simp] theorem pure_eq_done_iff {value result : α} {last : Int} {trace : List Event} :
    (pure value : Decoder α) w pos = .done result last trace ↔
      value = result ∧ pos = last ∧ trace = [] := by
  rw [pure_apply, Outcome.done.injEq, eq_comm (a := trace)]

theorem within_eq_done_iff {label : Label} {result : α} {last : Int} {trace : List Event} :
    within label d w pos = .done result last trace ↔ d w pos = .done result last trace := by
  unfold within
  cases d w pos <;> simp

theorem within_eq_failed_iff {label : Label} {failure : Failure} {last : Int}
    {trace : List Event} :
    within label d w pos = .failed failure last trace ↔
      ∃ inner, d w pos = .failed inner last trace ∧ failure = inner.push label := by
  unfold within
  cases d w pos with
  | done value reached earlier => simp
  | failed found reached earlier =>
      constructor
      · rintro ⟨rfl, rfl, rfl⟩
        exact ⟨found, rfl, rfl⟩
      · rintro ⟨inner, ⟨rfl, rfl, rfl⟩, rfl⟩
        rfl

theorem inWindow_eq_done_iff {inner : Window} {result : α} {reached last : Int}
    {trace : List Event} :
    inWindow inner d w pos = .done (result, reached) last trace ↔
      d inner pos = .done result reached trace ∧ pos = last := by
  unfold inWindow
  cases d inner pos <;> simp [and_assoc, and_comm, and_left_comm]

@[simp] theorem not_failAt_eq_done {offset : Int} {cause : Cause} {result : α} {last : Int}
    {trace : List Event} : ¬ (failAt offset cause : Decoder α) w pos = .done result last trace := by
  simp [failAt]

@[simp] theorem not_fail_eq_done {cause : Cause} {result : α} {last : Int}
    {trace : List Event} : ¬ (fail cause : Decoder α) w pos = .done result last trace := by
  simp [fail]

@[simp] theorem fail_bind (cause : Cause) (next : α → Decoder β) :
    (fail cause >>= next) = fail cause :=
  rfl

@[simp] theorem failAt_bind (offset : Int) (cause : Cause) (next : α → Decoder β) :
    (failAt offset cause >>= next) = failAt offset cause :=
  rfl

/-- Every value that a decoder yields has a property. -/
def Yields (d : Decoder α) (property : α → Prop) : Prop :=
  ∀ ⦃w pos value last trace⦄, d w pos = .done value last trace → property value

namespace Yields

variable {property : α → Prop}

theorem any (d : Decoder α) : d.Yields fun _ => True :=
  fun _ _ _ _ _ _ => trivial

theorem pure {value : α} (hvalue : property value) :
    (Pure.pure value : Decoder α).Yields property := by
  intro w pos result last trace hdone
  obtain ⟨rfl, -, -⟩ := pure_eq_done_iff.mp hdone
  exact hvalue

theorem failAt (offset : Int) (cause : Cause) :
    (Decoder.failAt offset cause : Decoder α).Yields property :=
  fun _ _ _ _ _ hdone => absurd hdone not_failAt_eq_done

theorem bind {d : Decoder α} {next : α → Decoder β} {property' : β → Prop}
    (hd : d.Yields property) (hnext : ∀ value, property value → (next value).Yields property') :
    (d >>= next).Yields property' := by
  intro w pos result last trace hdone
  obtain ⟨value, mid, first, second, hfirst, hsecond, -⟩ := bind_eq_done_iff.mp hdone
  exact hnext value (hd hfirst) hsecond

theorem named {d : Decoder α} (hd : d.Yields property) (name : String) :
    (Decoder.named name d).Yields property :=
  fun _ _ _ _ _ hdone => hd (within_eq_done_iff.mp hdone)

end Yields

end Decoder

end LuaDump
