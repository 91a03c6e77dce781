import LuaDump.Proofs.Jit.Fields
import LuaDump.Proofs.Varint.LowGroups

/-! # Heads of numeric constants

The first byte of a numeric constant holds a selector, six bits of the number and a mark, and
the other bits of the number follow in groups. A head is read exactly if it ends within five
bytes. There is room for thirty-four bits, of which the two highest are dropped, and the selector
is not part of the value.
-/

namespace LuaDump

namespace Decoder

variable {bytes earlier rest : Bytes} {b first first' : UInt8} {start : Int} {room : Nat}
  {w w' : Window} {pos pos' : Int}

/-- The bits of a head: six of its first byte, and seven of each of the others. -/
def headSum : Bytes → Nat
  | [] => 0
  | first :: groups => first.toNat / 2 % 64 + groupSum 6 groups

/-- What becomes of the bytes from which groups are read, of which there may be a given number. -/
inductive HeadVerdict (room : Nat) (valueOf : Bytes → Nat) (start : Int) (bytes : Bytes) :
    Outcome Nat → Prop
  | value {m : Nat} (hends : lowEnd? bytes = some m) (hcount : m < room) :
      HeadVerdict room valueOf start bytes
        (.done (valueOf (bytes.take (m + 1))) (start + (m + 1)) [])
  | failed {failure : Failure} {last : Int} {trace : List Event}
      (hlong : ∀ m, lowEnd? bytes = some m → room ≤ m) :
      HeadVerdict room valueOf start bytes (.failed failure last trace)

theorem HeadVerdict.eq_done_iff {valueOf : Bytes → Nat} {outcome : Outcome Nat}
    (hverdict : HeadVerdict room valueOf start bytes outcome) {value : Nat} {last : Int}
    {trace : List Event} :
    outcome = .done value last trace ↔
      ∃ m, lowEnd? bytes = some m ∧ m < room ∧ value = valueOf (bytes.take (m + 1)) ∧
        last = start + (m + 1) ∧ trace = [] := by
  constructor
  · rintro rfl
    cases hverdict with
    | value hends hcount => exact ⟨_, hends, hcount, rfl, rfl, rfl⟩
  · rintro ⟨m, hends, hcount, rfl, rfl, rfl⟩
    cases hverdict with
    | value hends' =>
        obtain rfl := Option.some.inj (hends'.symm.trans hends)
        rfl
    | failed hlong =>
        have hroom := hlong m hends
        omega

/-- A group behind which the loop goes on. -/
structure HeadPasses (earlier : Bytes) (b : UInt8) : Prop where
  marked : isMarked b
  count : earlier.length < 3

/-- What holds of the groups that the loop has passed. -/
structure HeadOpen (earlier : Bytes) : Prop where
  marked : ∀ b ∈ earlier, isMarked b
  count : earlier.length ≤ 3

theorem Passed.headOpen (hpassed : Passed HeadPasses earlier) : HeadOpen earlier := by
  induction hpassed with
  | nil => exact ⟨by simp, by simp⟩
  | snoc _ hpasses ih =>
      refine ⟨List.forall_mem_append.mpr ⟨ih.marked, by simpa using hpasses.marked⟩, ?_⟩
      rw [List.length_append]
      exact hpasses.count

/-- What a round of the loop makes of its byte. -/
def headReact (start : Int) (state : Nat × Nat) (b : UInt8) : Decoder ((Nat × Nat) ⊕ Nat) :=
  if !isMarked b then pure (.inr (state.2 + groupOf b * 2 ^ state.1))
  else if 27 ≤ state.1 then failAt start .headGroupsTooMany
  else pure (.inl (state.1 + 7, state.2 + groupOf b * 2 ^ state.1))

theorem headGroup_eq (start : Int) (state : Nat × Nat) :
    headGroup start state = nextByte >>= headReact start state :=
  rfl

theorem headReact_groupState (start : Int) (low : Nat) (earlier : Bytes) (b : UInt8) :
    headReact start (groupState 6 low earlier) b =
      if !isMarked b then pure (.inr (low + groupSum 6 (earlier ++ [b])))
      else if 3 ≤ earlier.length then failAt start .headGroupsTooMany
      else pure (.inl (groupState 6 low (earlier ++ [b]))) := by
  have hshift : 27 ≤ 6 + 7 * earlier.length ↔ 3 ≤ earlier.length := by omega
  rw [groupState_concat, groupSum_concat, headReact, groupState, ← Nat.add_assoc low]
  simp only [hshift]

theorem HeadPasses.headReact_eq (hpasses : HeadPasses earlier b) (start : Int) (low : Nat) :
    headReact start (groupState 6 low earlier) b =
      pure (.inl (groupState 6 low (earlier ++ [b]))) := by
  have hcount := hpasses.count
  rw [headReact_groupState, hpasses.marked, if_neg (by decide), if_neg (by omega)]

/-- The loop comes to a byte that it does not pass. -/
theorem HeadOpen.verdict_last (hopen : HeadOpen earlier) (hstops : ¬ HeadPasses earlier b)
    (start pos : Int) (low : Nat) (later : Bytes) (loop : Nat × Nat → Decoder Nat) (w : Window) :
    HeadVerdict 4 (fun run => low + groupSum 6 run) pos (earlier ++ b :: later)
      ((headReact start (groupState 6 low earlier) b >>= continueWith loop) w
        (pos + (earlier.length + 1))) := by
  rw [headReact_groupState]
  cases hb : isMarked b with
  | false =>
      have hends := lowEnd?_append_cons hopen.marked hb later
      have hcount := hopen.count
      have hvalue : HeadVerdict 4 (fun run => low + groupSum 6 run) pos (earlier ++ b :: later) _ :=
        .value hends (by omega)
      rw [Bytes.take_append_cons] at hvalue
      exact hvalue
  | true =>
      have hmany : 3 ≤ earlier.length := Nat.le_of_not_lt fun hfew => hstops ⟨hb, hfew⟩
      rw [if_neg (by decide), if_pos hmany]
      refine .failed fun m hends => ?_
      have hmarked : ∀ b' ∈ earlier ++ [b], (!isMarked b') = false :=
        List.forall_mem_append.mpr ⟨fun b' hb' => by simp [hopen.marked b' hb'], by simp [hb]⟩
      rw [List.append_cons] at hends
      have hlength := Bytes.length_le_of_findIdx? hmarked hends
      rw [List.length_append, List.length_singleton] at hlength
      omega

theorem headGroup_loop_verdict (start : Int) (low : Nat) (hbytes : w.EndsWith pos bytes) :
    HeadVerdict 4 (fun run => low + groupSum 6 run) pos bytes
      (iterate (headGroup start) (6, low) w pos) := by
  have hstart : (6, low) = groupState 6 low [] := rfl
  rw [hstart]
  apply iterate_over_bytes (settles_headGroup start) (headGroup_eq start) (groupState 6 low)
    HeadPasses (fun _ _ hpasses => hpasses.headReact_eq start low) hbytes
  · intro hpassed
    exact .failed fun m hends => by simp [lowEnd?_eq_none hpassed.headOpen.marked] at hends
  · rintro earlier b later rfl hpassed hstops
    exact hpassed.headOpen.verdict_last hstops start pos low later _ w

theorem lowEnd?_cons (first : UInt8) (rest : Bytes) :
    lowEnd? (first :: rest) =
      if isMarked first then (lowEnd? rest).map (· + 1) else some 0 := by
  cases hfirst : isMarked first <;> simp [lowEnd?, List.findIdx?_cons, hfirst]

theorem isMarked_iff_half (b : UInt8) : isMarked b ↔ 64 ≤ b.toNat / 2 := by
  simp only [isMarked, decide_eq_true_iff]
  omega

/-- A head of one byte. -/
theorem headVerdict_unmarked (hfirst : isMarked first = false) (pos : Int) (rest : Bytes) :
    HeadVerdict 5 (fun run => headSum run % 2 ^ 32) pos (first :: rest)
      (.done (first.toNat / 2) (pos + 1) []) := by
  have hends : lowEnd? (first :: rest) = some 0 := by simp [lowEnd?_cons, hfirst]
  have hlow : ¬ 64 ≤ first.toNat / 2 := by simp [← isMarked_iff_half, hfirst]
  have hsum : headSum ((first :: rest).take (0 + 1)) % 2 ^ 32 = first.toNat / 2 := by
    change (first.toNat / 2 % 64 + 0) % 2 ^ 32 = first.toNat / 2
    omega
  have hvalue : HeadVerdict 5 (fun run => headSum run % 2 ^ 32) pos (first :: rest) _ :=
    .value hends (by decide)
  rw [hsum] at hvalue
  exact hvalue

/-- A head whose other bits are read by the loop. -/
theorem headVerdict_marked (hfirst : isMarked first) {loop : Decoder Nat}
    (hloop : HeadVerdict 4 (fun run => first.toNat / 2 % 64 + groupSum 6 run) (pos + 1) rest
      (loop w (pos + 1))) :
    HeadVerdict 5 (fun run => headSum run % 2 ^ 32) pos (first :: rest)
      ((loop >>= fun value => pure (value % 0x100000000)) w (pos + 1)) := by
  have hends : ∀ m, lowEnd? (first :: rest) = some (m + 1) ↔ lowEnd? rest = some m := by
    simp [lowEnd?_cons, hfirst]
  generalize hrun : loop w (pos + 1) = outcome at hloop
  cases hloop with
  | @value m hlast hcount =>
      have hvalue : HeadVerdict 5 (fun run => headSum run % 2 ^ 32) pos (first :: rest) _ :=
        .value ((hends m).mpr hlast) (by omega)
      have hmoved : pos + ((m + 1 : Nat) + 1) = pos + 1 + (m + 1) := by omega
      rw [hmoved] at hvalue
      rw [bind_of_done hrun]
      exact hvalue
  | failed hlong =>
      rw [bind_of_failed hrun]
      refine .failed fun m hlast => ?_
      cases m with
      | zero => simp [lowEnd?_cons, hfirst] at hlast
      | succ m => exact Nat.succ_le_succ (hlong m ((hends m).mp hlast))

theorem numericHead_verdict (hbytes : w.EndsWith pos bytes) :
    HeadVerdict 5 (fun run => headSum run % 2 ^ 32) pos bytes (numericHead w pos) := by
  rw [numericHead, bind_of_done (d := position) rfl, Outcome.after_nil]
  cases bytes with
  | nil =>
      have hpos : pos = w.stop := by simpa using hbytes.stop_eq.symm
      rw [hpos, bind_of_failed (nextByte_at_stop w)]
      exact .failed fun m hends => by simp [lowEnd?] at hends
  | cons first rest =>
      have hhalf := isMarked_iff_half first
      rw [bind_of_done (nextByte_of_holds hbytes.sound hbytes.holds), Outcome.after_nil]
      by_cases hfirst : isMarked first
      · have hrest : w.EndsWith (pos + 1) rest :=
          (show w.EndsWith pos ([first] ++ rest) from hbytes).right
        rw [if_neg (Nat.not_lt_of_le (hhalf.mp hfirst))]
        exact headVerdict_marked hfirst (headGroup_loop_verdict pos _ hrest)
      · rw [if_pos (Nat.lt_of_not_le fun hle => hfirst (hhalf.mpr hle))]
        exact headVerdict_unmarked (by simpa using hfirst) pos rest

/-- Two heads that differ in the selector only are read alike. -/
theorem numericHead_selector_iff (hbytes : w.EndsWith pos (first :: rest))
    (hbytes' : w'.EndsWith pos' (first' :: rest)) (hsame : first.toNat / 2 = first'.toNat / 2)
    {value : Nat} {used : Int} {trace : List Event} :
    numericHead w pos = .done value (pos + used) trace ↔
      numericHead w' pos' = .done value (pos' + used) trace := by
  have hmarked : isMarked first = isMarked first' := by
    rw [Bool.eq_iff_iff, isMarked_iff_half, isMarked_iff_half, hsame]
  have hends : lowEnd? (first :: rest) = lowEnd? (first' :: rest) := by
    rw [lowEnd?_cons, lowEnd?_cons, hmarked]
  have hsum : ∀ m, headSum ((first :: rest).take (m + 1)) =
      headSum ((first' :: rest).take (m + 1)) := by
    intro m
    simp only [List.take_succ_cons, headSum, hsame]
  rw [(numericHead_verdict hbytes).eq_done_iff, (numericHead_verdict hbytes').eq_done_iff]
  simp only [hends, hsum, Int.add_right_inj]

end Decoder

namespace Jit

open Decoder

/-- Numeric constants are read back. The head of a number of thirty-two bits is read back with
either selector. Any head is read exactly if it ends within five bytes, as its lowest thirty-two
bits, and the selector makes no difference. A whole constant is read back as the integer or the
float that was written. -/
theorem numbers_read_back :
    (∀ n < 2 ^ 32, ∀ selector, numericHead.Reads (Bytes.numericHead selector n) n) ∧
    (∀ (w : Window) (pos : Int) (bytes : Bytes), w.EndsWith pos bytes →
      ∀ value last trace, numericHead w pos = .done value last trace ↔
        ∃ m, lowEnd? bytes = some m ∧ m < 5 ∧ value = headSum (bytes.take (m + 1)) % 2 ^ 32 ∧
          last = pos + (m + 1) ∧ trace = []) ∧
    (∀ (w w' : Window) (pos pos' : Int) (first first' : UInt8) (rest : Bytes),
      w.EndsWith pos (first :: rest) → w'.EndsWith pos' (first' :: rest) →
        first.toNat / 2 = first'.toNat / 2 → ∀ value used trace,
          numericHead w pos = .done value (pos + used) trace ↔
            numericHead w' pos' = .done value (pos' + used) trace) ∧
    (∀ value : Int, -2 ^ 31 ≤ value → value < 2 ^ 31 →
      number.Reads (numberBytes (.integer value)) (.integer value)) ∧
    ∀ value : Binary64, number.Reads (numberBytes (.float value)) (.float value) := by
  refine ⟨fun n hn => reads_numericHead hn, ?_, ?_, ?_, ?_⟩
  · exact fun w pos bytes hbytes value last trace => (numericHead_verdict hbytes).eq_done_iff
  · exact fun w w' pos pos' first first' rest hbytes hbytes' hsame value used trace =>
      numericHead_selector_iff hbytes hbytes' hsame
  · exact fun value hlow hhigh => reads_number ⟨hlow, hhigh⟩
  · exact fun value => reads_number trivial

/-- A head of thirty-four bits loses the two highest, and minus one is read back. -/
theorem numbers_read_back_fullHead :
    numericHead (.whole #[0xFF, 0xFF, 0xFF, 0xFF, 0x7F]) 0 = .done 0xFFFFFFFF 5 [] ∧
      ∃ trace, number (.whole (numberBytes (.integer (-1)) ++ [0]).toArray) 0 =
        .done (.integer (-1)) (0 + (numberBytes (.integer (-1))).length) trace := by
  obtain ⟨-, hhead, -, hinteger, -⟩ := numbers_read_back
  constructor
  · exact (hhead _ 0 _ (Window.whole_endsWith _) _ _ _).mpr
      ⟨4, rfl, by decide, by decide, rfl, rfl⟩
  · exact hinteger (-1) (by decide) (by decide) _ 0 (Window.whole_sound _)
      (Window.whole_holds _ [0])

end Jit

end LuaDump
