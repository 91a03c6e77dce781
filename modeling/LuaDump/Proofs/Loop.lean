import LuaDump.Proofs.Settling

/-! # Loops

The rounds of `iterate` are bounded by the bytes that remain. A step that passes a byte
never meets the bound, so the loop equals its first step followed by the loop, and its
outcome is reached through the states that the steps visit.
-/

namespace LuaDump.Decoder

variable {α β : Type} {step : α → Decoder (α ⊕ β)} {w : Window}

/-- What follows a step of a loop. -/
def continueWith (loop : α → Decoder β) : α ⊕ β → Decoder β
  | .inl next => loop next
  | .inr result => pure result

/-- Any two bounds above the number of remaining bytes give the same outcome. -/
theorem iterateFor_eq_iterateFor (hstep : ∀ state, (step state).Settles 1) (hw : w.Sound)
    {rounds rounds' : Nat} (state : α) {pos : Int} (hpos : 0 ≤ pos) (hstop : pos ≤ w.stop)
    (hrounds : w.remaining pos < rounds) (hrounds' : w.remaining pos < rounds') :
    iterateFor step rounds state w pos = iterateFor step rounds' state w pos := by
  simp only [Window.remaining] at hrounds hrounds'
  induction rounds generalizing rounds' state pos with
  | zero => omega
  | succ rounds ih =>
      obtain ⟨rounds', rfl⟩ : ∃ n, rounds' = n + 1 := ⟨rounds' - 1, by omega⟩
      rw [iterateFor, iterateFor, bind_apply, bind_apply]
      cases hfirst : step state w pos with
      | failed failure last trace => rfl
      | done next last trace =>
          have hsettles := hstep state w pos hw hpos hstop
          have hlast := (hsettles.done hfirst).1
          have hinside := hsettles.last_le_stop hfirst
          cases next with
          | inr result => rfl
          | inl next =>
              dsimp only
              rw [ih next (by omega) hinside (by omega) (by omega : w.stop - last < rounds')]

/-- A loop is its first step followed by the loop. -/
theorem iterate_eq_bind (hstep : ∀ state, (step state).Settles 1) (hw : w.Sound) (state : α)
    {pos : Int} (hpos : 0 ≤ pos) (hstop : pos ≤ w.stop) :
    iterate step state w pos = (step state >>= continueWith (iterate step)) w pos := by
  rw [iterate, iterateFor, bind_apply, bind_apply]
  cases hfirst : step state w pos with
  | failed failure last trace => rfl
  | done next last trace =>
      have hsettles := hstep state w pos hw hpos hstop
      have hlast := (hsettles.done hfirst).1
      have hinside := hsettles.last_le_stop hfirst
      cases next with
      | inr result => rfl
      | inl next =>
          have hrounds : w.remaining last < (w.remaining pos).toNat := by
            simp only [Window.remaining]
            omega
          have hrounds' : w.remaining last < ((w.remaining last).toNat + 1 : Nat) := by omega
          have hsame := iterateFor_eq_iterateFor hstep hw next (by omega) hinside hrounds hrounds'
          simp only [hsame, continueWith, iterate]

theorem SettlesAt.congr {d e : Decoder α} {pos : Int} {least : Nat} (hw : w.Sound)
    (hstop : pos ≤ w.stop)
    (heq : ∀ w' : Window, w'.Sound → pos ≤ w'.stop → d w' pos = e w' pos)
    (he : e.SettlesAt least w pos) : d.SettlesAt least w pos := by
  have hsettled : ∀ reach, pos ≤ reach → e.SettledBy w pos reach → d.SettledBy w pos reach := by
    intro reach hreach hsettled
    refine ⟨hsettled.le_stop, ?_, ?_⟩
    · intro w' hw' hstop' hagree
      rw [heq w hw hstop, heq w' hw' (by omega)]
      exact hsettled.alike w' hw' hstop' hagree
    · intro w' hw' hstop' hfew hagree
      rw [heq w' hw' hstop']
      exact hsettled.truncated w' hw' hstop' hfew hagree
  constructor
  · intro value last trace hdone
    obtain ⟨hlast, hby⟩ := he.done ((heq w hw hstop).symm.trans hdone)
    exact ⟨hlast, hsettled last (by omega) hby⟩
  · intro failure last trace hfailed hkind
    obtain ⟨reach, hreach, hby⟩ := he.failed ((heq w hw hstop).symm.trans hfailed) hkind
    exact ⟨reach, hreach, hsettled reach hreach hby⟩

theorem settles_iterate (hstep : ∀ state, (step state).Settles 1) (state : α) :
    (iterate step state).Settles 1 := by
  intro w pos hw hpos hstop
  -- Every step leaves fewer bytes for the rest of the loop.
  induction hleft : (w.stop - pos).toNat using Nat.strongRecOn generalizing state pos with
  | ind left ih =>
      apply SettlesAt.congr hw hstop
        (fun w' hw' hstop' => iterate_eq_bind hstep hw' state hpos hstop')
      have hfirst := hstep state w pos hw hpos hstop
      have hrest : ∀ next last trace, step state w pos = .done next last trace →
          (continueWith (iterate step) next).SettlesAt 0 w last := by
        intro next last trace hdone
        have hlast := (hfirst.done hdone).1
        have hinside := hfirst.last_le_stop hdone
        cases next with
        | inr result => exact settles_pure result w last hw (by omega) hinside
        | inl next => exact (ih _ (by omega) next last (by omega) hinside rfl).mono (by omega)
      exact hfirst.bind hrest

/-- The states and positions that a loop comes to from a start. -/
inductive Visits (step : α → Decoder (α ⊕ β)) (w : Window) (start : α) (pos : Int) :
    α → Int → Prop
  | start : Visits step w start pos start pos
  | step {state next : α} {mid last : Int} {trace : List Event}
      (hvisits : Visits step w start pos state mid)
      (hstep : step state w mid = .done (.inl next) last trace) :
      Visits step w start pos next last

theorem Visits.trans {start mid last : α} {pos pos' pos'' : Int}
    (hfirst : Visits step w start pos mid pos') (hsecond : Visits step w mid pos' last pos'') :
    Visits step w start pos last pos'' := by
  induction hsecond with
  | start => exact hfirst
  | step _ hstep ih => exact ih.step hstep

/-- A visited state lies in the window, and the loop goes on from there. -/
theorem Visits.iterate_eq {start state : α} {pos mid : Int}
    (hstep : ∀ state, (step state).Settles 1)
    (hw : w.Sound) (hpos : 0 ≤ pos) (hstop : pos ≤ w.stop)
    (hvisits : Visits step w start pos state mid) :
    pos ≤ mid ∧ mid ≤ w.stop ∧
      ∃ trace, iterate step start w pos = (iterate step state w mid).after trace := by
  induction hvisits with
  | start => exact ⟨Int.le_refl _, hstop, [], (Outcome.after_nil _).symm⟩
  | @step state next mid last trace _ hdone ih =>
      obtain ⟨hmid, hinside, earlier, heq⟩ := ih
      have hsettles := hstep state w mid hw (by omega) hinside
      have hlast := (hsettles.done hdone).1
      refine ⟨by omega, hsettles.last_le_stop hdone, earlier ++ trace, ?_⟩
      rw [heq, iterate_eq_bind hstep hw state (by omega) hinside, bind_of_done hdone,
        Outcome.after_after]
      rfl

/-- A loop succeeds only at a visited state whose step yields the result. -/
theorem exists_visits_of_iterate_eq_done {start : α} {pos last : Int} {result : β}
    {trace : List Event} (hstep : ∀ state, (step state).Settles 1) (hw : w.Sound) (hpos : 0 ≤ pos)
    (hstop : pos ≤ w.stop) (hdone : iterate step start w pos = .done result last trace) :
    ∃ state mid later, Visits step w start pos state mid ∧
      step state w mid = .done (.inr result) last later := by
  -- Induction on the bytes that are left, of which every step takes some.
  induction hleft : (w.stop - pos).toNat using Nat.strongRecOn generalizing start pos trace with
  | ind left ih =>
      rw [iterate_eq_bind hstep hw start hpos hstop] at hdone
      obtain ⟨next, mid, first, second, hfirst, hsecond, -⟩ := bind_eq_done_iff.mp hdone
      have hsettles := hstep start w pos hw hpos hstop
      have hmid := (hsettles.done hfirst).1
      have hinside := hsettles.last_le_stop hfirst
      cases next with
      | inr found =>
          obtain ⟨rfl, rfl, -⟩ := pure_eq_done_iff.mp hsecond
          exact ⟨start, pos, first, .start, hfirst⟩
      | inl next =>
          obtain ⟨state, mid', later, hvisits, hlast⟩ :=
            ih _ (by omega) (by omega) hinside hsecond rfl
          exact ⟨state, mid', later, (Visits.start.step hfirst).trans hvisits, hlast⟩

end LuaDump.Decoder
