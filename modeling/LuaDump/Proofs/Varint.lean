import LuaDump.Proofs.Reading.Number

/-! # Integers of variable length, byte by byte

An integer of variable length is read by a loop that takes one byte a round. The state of such
a loop is a function of the bytes it has passed, so what becomes of the loop can be read off the
bytes of the window: it passes all of them, or it comes to a byte that it does not pass.
-/

namespace LuaDump

namespace Decoder

variable {α β : Type} {w : Window} {pos : Int}

theorem nextByte_of_holds (hw : w.Sound) {b : UInt8} {rest : Bytes}
    (hholds : w.Holds pos (b :: rest)) : nextByte w pos = .done b (pos + 1) [] := by
  have hboth : w.Holds pos ([b] ++ rest) := hholds
  rw [nextByte_of_le hw hholds.nonneg hboth.left.inside, ← Int.natCast_one,
    ← List.length_singleton (a := b), hboth.left.slice_eq]
  rfl

theorem nextByte_at_stop (w : Window) :
    nextByte w w.stop = .failed ⟨.shortField "byte" 1 w.stop 0, w.stop, []⟩ w.stop [] := by
  have hpeek : peekByte w w.stop = short "byte" 1 w w.stop := if_neg (by omega)
  rw [nextByte, bind_of_failed (hpeek.trans rfl), Window.remaining, Int.sub_self]

/-- The bytes that a loop has passed one after the other, each in view of those before it. -/
inductive Passed (passes : Bytes → UInt8 → Prop) : Bytes → Prop
  | nil : Passed passes []
  | snoc {earlier : Bytes} {b : UInt8} (hearlier : Passed passes earlier)
      (hpasses : passes earlier b) : Passed passes (earlier ++ [b])

/-- What becomes of a loop that takes one byte a round: it has passed all bytes of the window
and finds no more, or it comes to a byte that it does not pass. -/
theorem iterate_over_bytes {step : α → Decoder (α ⊕ β)} {react : α → UInt8 → Decoder (α ⊕ β)}
    (hsettles : ∀ state, (step state).Settles 1)
    (hstep : ∀ state, step state = nextByte >>= react state)
    (state : Bytes → α) (passes : Bytes → UInt8 → Prop)
    (hpasses : ∀ earlier b, passes earlier b →
      react (state earlier) b = pure (.inl (state (earlier ++ [b]))))
    {bytes : Bytes} (hbytes : w.EndsWith pos bytes) (verdict : Outcome β → Prop)
    (hshort : Passed passes bytes →
      verdict (.failed ⟨.shortField "byte" 1 w.stop 0, w.stop, []⟩ w.stop []))
    (hlast : ∀ earlier b later, bytes = earlier ++ b :: later → Passed passes earlier →
      ¬ passes earlier b → verdict ((react (state earlier) b >>= continueWith (iterate step)) w
        (pos + (earlier.length + 1)))) :
    verdict (iterate step (state []) w pos) := by
  -- The induction is on the bytes that are left, over the bytes passed before them.
  suffices hrest : ∀ rest earlier, bytes = earlier ++ rest → Passed passes earlier →
      verdict (iterate step (state earlier) w (pos + earlier.length)) by
    simpa using hrest bytes [] rfl .nil
  have hw := hbytes.sound
  intro rest
  induction rest with
  | nil =>
      intro earlier hearlier hpassed
      rw [List.append_nil] at hearlier
      subst hearlier
      rw [← hbytes.stop_eq, iterate_eq_bind hsettles hw _ hw.nonneg (Int.le_refl _), hstep,
        bind_of_failed (bind_of_failed (nextByte_at_stop w))]
      exact hshort hpassed
  | cons b rest ih =>
      intro earlier hearlier hpassed
      have hholds := (hearlier ▸ hbytes.holds).right
      have hnonneg := hholds.nonneg
      have hinside := hholds.inside
      rw [List.length_cons] at hinside
      rw [iterate_eq_bind hsettles hw _ hnonneg (by omega), hstep, bind_assoc,
        bind_of_done (nextByte_of_holds hw hholds), Outcome.after_nil, Int.add_assoc]
      by_cases hb : passes earlier b
      · have hrest := ih (earlier ++ [b]) (by simpa using hearlier) (hpassed.snoc hb)
        rw [List.length_append] at hrest
        rw [hpasses earlier b hb, pure_bind]
        exact hrest
      · exact hlast earlier b rest hearlier hpassed hb

end Decoder

namespace Bytes

variable {bytes earlier : Bytes} {b : UInt8} {marker : UInt8 → Bool}

theorem findIdx?_append_cons (hearlier : ∀ b ∈ earlier, marker b = false) (hb : marker b)
    (later : Bytes) : (earlier ++ b :: later).findIdx? marker = some earlier.length := by
  have hnone := List.findIdx?_eq_none_iff.mpr hearlier
  rw [List.findIdx?_append, hnone, List.findIdx?_cons, if_pos hb]
  simp

/-- The first byte of a kind stands behind bytes that are not of that kind. -/
theorem exists_of_findIdx? {m : Nat} (hfirst : bytes.findIdx? marker = some m) :
    ∃ earlier b later, bytes = earlier ++ b :: later ∧ earlier.length = m ∧
      (∀ b ∈ earlier, marker b = false) ∧ marker b := by
  obtain ⟨hlt, hmarker, hbefore⟩ := List.findIdx?_eq_some_iff_getElem.mp hfirst
  have hlength : (bytes.take m).length = m := List.length_take_of_le (by omega)
  refine ⟨bytes.take m, bytes[m], bytes.drop (m + 1), ?_, hlength, ?_, hmarker⟩
  · rw [← List.drop_eq_getElem_cons hlt, List.take_append_drop]
  · intro b hb
    obtain ⟨index, hindex, rfl⟩ := List.mem_take_iff_getElem.mp hb
    simpa using hbefore index (by omega)

/-- The first byte of a kind does not stand before bytes of which none is of that kind. -/
theorem length_le_of_findIdx? {later : Bytes} {m : Nat}
    (hearlier : ∀ b ∈ earlier, marker b = false)
    (hfirst : (earlier ++ later).findIdx? marker = some m) : earlier.length ≤ m := by
  obtain ⟨hlt, hmarker, -⟩ := List.findIdx?_eq_some_iff_getElem.mp hfirst
  refine Nat.le_of_not_lt fun hbefore => ?_
  rw [List.getElem_append_left hbefore, hearlier _ (List.getElem_mem hbefore)] at hmarker
  exact absurd hmarker (by decide)

theorem take_append_cons (earlier : Bytes) (b : UInt8) (later : Bytes) :
    (earlier ++ b :: later).take (earlier.length + 1) = earlier ++ [b] := by
  rw [List.take_length_add_append]
  rfl

end Bytes

end LuaDump
