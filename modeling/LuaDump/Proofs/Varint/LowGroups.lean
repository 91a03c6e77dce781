import LuaDump.Proofs.Varint

/-! # Low groups first

A low-groups-first integer ends with its first byte that is not marked. It is read exactly if
that byte exists, the groups are not too many and their value fits. The loop looks at no byte
behind its end: whether it overflows or runs out of bytes is decided by the bytes up to there.
-/

namespace LuaDump.Decoder

variable {bits : Nat} {bytes earlier : Bytes} {b : UInt8} {start stop : Int} {w : Window}
  {pos : Int}

/-- The value of groups of seven bits, the lowest at the given bit and each of the others behind
the one before it. -/
def groupSum (shift : Nat) (bytes : Bytes) : Nat :=
  (bytes.mapIdx fun index b => groupOf b * 2 ^ (shift + 7 * index)).sum

theorem groupSum_concat (shift : Nat) (bytes : Bytes) (b : UInt8) :
    groupSum shift (bytes ++ [b]) =
      groupSum shift bytes + groupOf b * 2 ^ (shift + 7 * bytes.length) := by
  simp [groupSum, List.mapIdx_concat]

theorem groupSum_le_append (shift : Nat) (bytes more : Bytes) :
    groupSum shift bytes ≤ groupSum shift (bytes ++ more) := by
  rw [groupSum, groupSum, List.mapIdx_append, List.sum_append]
  exact Nat.le_add_right _ _

/-- The state of a loop over low groups behind the given bytes: where the next group goes, and the
value so far. -/
def groupState (shift value : Nat) (earlier : Bytes) : Nat × Nat :=
  (shift + 7 * earlier.length, value + groupSum shift earlier)

theorem groupState_concat (shift value : Nat) (earlier : Bytes) (b : UInt8) :
    groupState shift value (earlier ++ [b]) =
      (shift + 7 * earlier.length + 7,
        value + groupSum shift earlier + groupOf b * 2 ^ (shift + 7 * earlier.length)) := by
  rw [groupState, groupSum_concat, List.length_append, ← Nat.add_assoc value]
  rfl

/-- Where the last byte of a low-groups-first integer stands, which is the first one that is not
marked. -/
def lowEnd? (bytes : Bytes) : Option Nat :=
  bytes.findIdx? fun b => !isMarked b

theorem lowEnd?_append_cons (hearlier : ∀ b ∈ earlier, isMarked b) (hb : isMarked b = false)
    (later : Bytes) : lowEnd? (earlier ++ b :: later) = some earlier.length :=
  Bytes.findIdx?_append_cons (fun b hmem => by simp [hearlier b hmem]) (by simp [hb]) later

theorem lowEnd?_eq_none (hbytes : ∀ b ∈ bytes, isMarked b) : lowEnd? bytes = none :=
  List.findIdx?_eq_none_iff.mpr fun b hmem => by simp [hbytes b hmem]

/-- The bytes up to the end of a low-groups-first integer, or all bytes if it has no end. -/
def lowRun (bytes : Bytes) : Bytes :=
  match lowEnd? bytes with
  | some m => bytes.take (m + 1)
  | none => bytes

theorem prefix_lowRun (hearlier : ∀ b ∈ earlier, isMarked b) (b : UInt8) (later : Bytes) :
    earlier ++ [b] <+: lowRun (earlier ++ b :: later) := by
  have hwhole : earlier ++ [b] <+: earlier ++ b :: later := ⟨later, by simp⟩
  unfold lowRun
  split
  next m hends =>
    have hlength := Bytes.length_le_of_findIdx? (fun b hmem => by simp [hearlier b hmem]) hends
    exact List.prefix_take_iff.mpr ⟨hwhole, by simpa using hlength⟩
  next => exact hwhole

/-- Groups that are too many or too large: a partial value reaches the bound, or there are more
marked bytes than groups are allowed. -/
def LowOverflows (bits : Nat) (run : Bytes) : Prop :=
  (∃ count, 2 ^ bits ≤ groupSum 0 (run.take count)) ∨ (bits + 6) / 7 < run.countP isMarked

theorem not_lowOverflows {run : Bytes} (hsum : groupSum 0 run < 2 ^ bits)
    (hcount : run.countP isMarked ≤ (bits + 6) / 7) : ¬ LowOverflows bits run := by
  rintro (⟨count, hlarge⟩ | hmany)
  · have hle := groupSum_le_append 0 (run.take count) (run.drop count)
    rw [List.take_append_drop] at hle
    omega
  · omega

/-- The integer ends at the given byte, with not too many groups and a value that fits. -/
structure LowFits (bits : Nat) (bytes : Bytes) (m : Nat) : Prop where
  ends : lowEnd? bytes = some m
  count : 7 * m < bits + 7
  sum : groupSum 0 (bytes.take (m + 1)) < 2 ^ bits

theorem LowFits.not_overflows {m : Nat} (hfits : LowFits bits bytes m) :
    ¬ LowOverflows bits (lowRun bytes) := by
  have hrun : lowRun bytes = bytes.take (m + 1) := by rw [lowRun, hfits.ends]
  obtain ⟨earlier, b, later, rfl, rfl, -, hb⟩ := Bytes.exists_of_findIdx? hfits.ends
  have hlength := earlier.countP_le_length (p := isMarked)
  have hcount := hfits.count
  refine not_lowOverflows (hrun ▸ hfits.sum) ?_
  rw [hrun, Bytes.take_append_cons, List.countP_append, List.countP_singleton,
    if_neg (by simpa using hb)]
  omega

/-- A group behind which the loop goes on. -/
structure LowPasses (bits : Nat) (earlier : Bytes) (b : UInt8) : Prop where
  marked : isMarked b
  sum : groupSum 0 (earlier ++ [b]) < 2 ^ bits
  count : 7 * earlier.length < bits

/-- What holds of the groups that the loop has passed. -/
structure LowOpen (bits : Nat) (earlier : Bytes) : Prop where
  marked : ∀ b ∈ earlier, isMarked b
  sum : groupSum 0 earlier < 2 ^ bits
  count : 7 * earlier.length < bits + 7

theorem Passed.lowOpen (hpassed : Passed (LowPasses bits) earlier) : LowOpen bits earlier := by
  induction hpassed with
  | nil => exact ⟨by simp, Nat.two_pow_pos bits, by simp⟩
  | snoc _ hpasses ih =>
      have hcount := hpasses.count
      refine ⟨List.forall_mem_append.mpr ⟨ih.marked, by simpa using hpasses.marked⟩,
        hpasses.sum, ?_⟩
      rw [List.length_append, List.length_singleton]
      omega

/-- What a round of the loop makes of its byte. -/
def lowReact (bits : Nat) (start : Int) (state : Nat × Nat) (b : UInt8) :
    Decoder ((Nat × Nat) ⊕ Nat) :=
  if 2 ^ bits ≤ state.2 + groupOf b * 2 ^ state.1 then failAt start (.groupsTooLarge bits)
  else if !isMarked b then pure (.inr (state.2 + groupOf b * 2 ^ state.1))
  else if bits + 7 ≤ state.1 + 7 then failAt start (.groupsTooMany bits)
  else pure (.inl (state.1 + 7, state.2 + groupOf b * 2 ^ state.1))

theorem lowGroup_eq (bits : Nat) (start : Int) (state : Nat × Nat) :
    lowGroup bits start state = nextByte >>= lowReact bits start state :=
  rfl

theorem lowReact_groupState (bits : Nat) (start : Int) (earlier : Bytes) (b : UInt8) :
    lowReact bits start (groupState 0 0 earlier) b =
      if 2 ^ bits ≤ groupSum 0 (earlier ++ [b]) then failAt start (.groupsTooLarge bits)
      else if !isMarked b then pure (.inr (groupSum 0 (earlier ++ [b])))
      else if bits ≤ 7 * earlier.length then failAt start (.groupsTooMany bits)
      else pure (.inl (groupState 0 0 (earlier ++ [b]))) := by
  rw [groupState_concat, groupSum_concat, lowReact, groupState]
  simp only [Nat.zero_add, Nat.add_le_add_iff_right]

theorem LowPasses.lowReact_eq (hpasses : LowPasses bits earlier b) (start : Int) :
    lowReact bits start (groupState 0 0 earlier) b =
      pure (.inl (groupState 0 0 (earlier ++ [b]))) := by
  have hsum := hpasses.sum
  have hcount := hpasses.count
  rw [lowReact_groupState, if_neg (by omega), hpasses.marked, if_neg (by decide),
    if_neg (by omega)]

/-- What becomes of the bytes from which a low-groups-first integer is read. -/
inductive LowVerdict (bits : Nat) (start stop : Int) (bytes : Bytes) : Outcome Nat → Prop
  | value {m : Nat} (hfits : LowFits bits bytes m) :
      LowVerdict bits start stop bytes
        (.done (groupSum 0 (bytes.take (m + 1))) (start + (m + 1)) [])
  | overflow {cause : Cause} {last : Int} (hkind : cause.kind = .integerOverflow)
      (hoverflows : LowOverflows bits (lowRun bytes)) :
      LowVerdict bits start stop bytes (.failed ⟨cause, start, []⟩ last [])
  | truncated {cause : Cause} (hkind : cause.kind = .truncated) (hends : lowEnd? bytes = none)
      (hfits : ¬ LowOverflows bits (lowRun bytes)) :
      LowVerdict bits start stop bytes (.failed ⟨cause, stop, []⟩ stop [])

/-- The window ends inside the integer. -/
theorem LowOpen.verdict_short (hopen : LowOpen bits bytes) (start stop : Int) :
    LowVerdict bits start stop bytes
      (.failed ⟨.shortField "byte" 1 stop 0, stop, []⟩ stop []) := by
  have hends := lowEnd?_eq_none hopen.marked
  have hrun : lowRun bytes = bytes := by rw [lowRun, hends]
  have hlength := bytes.countP_le_length (p := isMarked)
  have hcount := hopen.count
  exact .truncated rfl hends (hrun.symm ▸ not_lowOverflows hopen.sum (by omega))

/-- The loop comes to a byte that it does not pass. -/
theorem LowOpen.verdict_last (hopen : LowOpen bits earlier) (hstops : ¬ LowPasses bits earlier b)
    (start stop : Int) (later : Bytes) (loop : Nat × Nat → Decoder Nat) (w : Window) :
    LowVerdict bits start stop (earlier ++ b :: later)
      ((lowReact bits start (groupState 0 0 earlier) b >>= continueWith loop) w
        (start + (earlier.length + 1))) := by
  have hrun := prefix_lowRun hopen.marked b later
  rw [lowReact_groupState]
  by_cases hlarge : 2 ^ bits ≤ groupSum 0 (earlier ++ [b])
  · rw [if_pos hlarge]
    refine .overflow rfl (.inl ⟨(earlier ++ [b]).length, ?_⟩)
    rwa [← List.prefix_iff_eq_take.mp hrun]
  · rw [if_neg hlarge]
    cases hb : isMarked b with
    | false =>
        have htake := Bytes.take_append_cons earlier b later
        have hfits : LowFits bits (earlier ++ b :: later) earlier.length :=
          ⟨lowEnd?_append_cons hopen.marked hb later, hopen.count, htake ▸ Nat.lt_of_not_le hlarge⟩
        have hvalue : LowVerdict bits start stop (earlier ++ b :: later) _ := .value hfits
        rw [htake] at hvalue
        exact hvalue
    | true =>
        have hmany : bits ≤ 7 * earlier.length :=
          Nat.le_of_not_lt fun hfew => hstops ⟨hb, Nat.lt_of_not_le hlarge, hfew⟩
        have hmarked : (earlier ++ [b]).countP isMarked = earlier.length + 1 := by
          rw [List.countP_append, List.countP_eq_length.mpr hopen.marked, List.countP_singleton,
            if_pos hb]
        have hcount := hrun.sublist.countP_le (p := isMarked)
        rw [if_neg (by decide), if_pos hmany]
        exact .overflow rfl (.inr (by omega))

theorem lowGroups_verdict (bits : Nat) (hbytes : w.EndsWith pos bytes) :
    LowVerdict bits pos w.stop bytes (lowGroups bits w pos) := by
  have hstart : lowGroups bits w pos =
      iterate (lowGroup bits pos) (groupState 0 0 []) w pos := by
    rw [lowGroups, bind_of_done (d := position) rfl, Outcome.after_nil]
    rfl
  rw [hstart]
  apply iterate_over_bytes (settles_lowGroup bits pos) (lowGroup_eq bits pos) (groupState 0 0)
    (LowPasses bits) (fun _ _ hpasses => hpasses.lowReact_eq pos) hbytes
  · exact fun hpassed => hpassed.lowOpen.verdict_short pos w.stop
  · rintro earlier b later rfl hpassed hstops
    exact hpassed.lowOpen.verdict_last hstops pos w.stop later _ w

theorem LowVerdict.eq_of_fits {outcome : Outcome Nat} {m : Nat}
    (hverdict : LowVerdict bits start stop bytes outcome) (hfits : LowFits bits bytes m) :
    outcome = .done (groupSum 0 (bytes.take (m + 1))) (start + (m + 1)) [] := by
  cases hverdict with
  | value hfits' =>
      obtain rfl := Option.some.inj (hfits'.ends.symm.trans hfits.ends)
      rfl
  | overflow _ hoverflows => exact absurd hoverflows hfits.not_overflows
  | truncated _ hends => simp [hfits.ends] at hends

theorem lowGroups_eq_done_iff (hbytes : w.EndsWith pos bytes) {value : Nat} {last : Int}
    {trace : List Event} :
    lowGroups bits w pos = .done value last trace ↔
      ∃ m, LowFits bits bytes m ∧ value = groupSum 0 (bytes.take (m + 1)) ∧
        last = pos + (m + 1) ∧ trace = [] := by
  have hverdict := lowGroups_verdict bits hbytes
  constructor
  · intro hdone
    rw [hdone] at hverdict
    cases hverdict with
    | value hfits => exact ⟨_, hfits, rfl, rfl, rfl⟩
  · rintro ⟨m, hfits, rfl, rfl, rfl⟩
    exact hverdict.eq_of_fits hfits

/-- A low-groups-first integer is read exactly if it ends in the window, has not too many groups
and fits. If it is not read, its bytes up to the end tell whether that is an overflow, which is
reported at the start, or a lack of bytes, which is reported at the end of the window. An integer
that fits is read back from its groups. -/
theorem lowGroups_exact (bits : Nat) (hbytes : w.EndsWith pos bytes) :
    (∀ value last trace, lowGroups bits w pos = .done value last trace ↔
      ∃ m, lowEnd? bytes = some m ∧ 7 * m < bits + 7 ∧
        groupSum 0 (bytes.take (m + 1)) < 2 ^ bits ∧
        value = groupSum 0 (bytes.take (m + 1)) ∧ last = pos + (m + 1) ∧ trace = []) ∧
    (∀ failure last trace, lowGroups bits w pos = .failed failure last trace →
      (failure.kind = .integerOverflow ∧ failure.offset = pos ∧
          LowOverflows bits (lowRun bytes)) ∨
        (failure.kind = .truncated ∧ failure.offset = w.stop ∧
          ¬ LowOverflows bits (lowRun bytes))) ∧
    ∀ n < 2 ^ bits, Bytes.lowGroups n <+: bytes →
      lowGroups bits w pos = .done n (pos + (Bytes.lowGroups n).length) [] := by
  refine ⟨?_, ?_, ?_⟩
  · intro value last trace
    rw [lowGroups_eq_done_iff hbytes]
    constructor
    · rintro ⟨m, hfits, heq⟩
      exact ⟨m, hfits.ends, hfits.count, hfits.sum, heq⟩
    · rintro ⟨m, hends, hcount, hsum, heq⟩
      exact ⟨m, ⟨hends, hcount, hsum⟩, heq⟩
  · intro failure last trace hfailed
    have hverdict := lowGroups_verdict bits hbytes
    rw [hfailed] at hverdict
    cases hverdict with
    | overflow hkind hoverflows => exact .inl ⟨hkind, rfl, hoverflows⟩
    | truncated hkind _ hfits => exact .inr ⟨hkind, rfl, hfits⟩
  · rintro n hn ⟨later, rfl⟩
    obtain ⟨trace, hdone⟩ := reads_lowGroups hn w pos hbytes.sound hbytes.holds.left
    obtain ⟨-, -, -, -, rfl⟩ := (lowGroups_eq_done_iff hbytes).mp hdone
    exact hdone

/-- Thirty-two bits may be written with one redundant group, but not with two. -/
theorem lowGroups_exact_redundantGroup :
    lowGroups 32 (.whole #[0x85, 0x80, 0x80, 0x80, 0x80, 0]) 0 = .done 5 6 [] ∧
      ∃ failure last trace,
        lowGroups 32 (.whole #[0x85, 0x80, 0x80, 0x80, 0x80, 0x80, 0]) 0 =
          .failed failure last trace ∧
        failure.kind = .integerOverflow ∧ failure.offset = 0 := by
  constructor
  · exact ((lowGroups_exact 32 (Window.whole_endsWith _)).1 5 6 []).mpr
      ⟨5, rfl, by decide, by decide, rfl, rfl, rfl⟩
  · obtain ⟨failure, last, trace, hfailed, hkind⟩ : ∃ failure last trace,
        lowGroups 32 (.whole #[0x85, 0x80, 0x80, 0x80, 0x80, 0x80, 0]) 0 =
          .failed failure last trace ∧ failure.kind ≠ .truncated := ⟨_, _, _, rfl, by decide⟩
    rcases (lowGroups_exact 32 (Window.whole_endsWith _)).2.1 _ _ _ hfailed
      with ⟨hoverflow, hoffset, -⟩ | ⟨htruncated, -⟩
    · exact ⟨failure, last, trace, hfailed, hoverflow, hoffset⟩
    · exact absurd htruncated hkind

end LuaDump.Decoder
