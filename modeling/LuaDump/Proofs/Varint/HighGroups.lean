import LuaDump.Proofs.Varint

/-! # High groups first

A high-groups-first integer ends with its first byte that is marked. The value of the groups
before a byte is compared with the ceiling, which is a limit without its lowest seven bits,
before the byte is added. So an integer is refused not by its own value but by the value of
what stands above its lowest group.
-/

namespace LuaDump

namespace Decoder

variable {ceiling : Int} {bytes earlier : Bytes} {b : UInt8} {w : Window} {pos : Int}

/-- The value of groups of seven bits, the highest first. -/
def highValue (bytes : Bytes) : Nat :=
  bytes.foldl (fun value b => value * 128 + groupOf b) 0

@[simp] theorem highValue_concat (bytes : Bytes) (b : UInt8) :
    highValue (bytes ++ [b]) = highValue bytes * 128 + groupOf b := by
  simp [highValue]

theorem highValue_le_append (bytes more : Bytes) : highValue bytes ≤ highValue (bytes ++ more) := by
  rw [highValue, highValue, List.foldl_append]
  generalize bytes.foldl (fun value b => value * 128 + groupOf b) 0 = value
  induction more generalizing value with
  | nil => exact Nat.le_refl _
  | cons b rest ih =>
      have hrest := ih (value * 128 + groupOf b)
      rw [List.foldl_cons]
      omega

theorem highValue_take_le (bytes : Bytes) {count count' : Nat} (hcount : count ≤ count') :
    highValue (bytes.take count) ≤ highValue (bytes.take count') := by
  obtain ⟨more, hmore⟩ := List.take_prefix_take_left (l := bytes) hcount
  rw [← hmore]
  exact highValue_le_append _ _

@[simp] theorem highValue_zeros_append (count : Nat) (bytes : Bytes) :
    highValue (List.replicate count 0 ++ bytes) = highValue bytes := by
  induction count with
  | zero => rfl
  | succ count ih => exact ih

/-- Where the last byte of a high-groups-first integer stands, which is the first one that is
marked. -/
def highEnd? (bytes : Bytes) : Option Nat :=
  bytes.findIdx? isMarked

theorem highEnd?_zeros_append (count : Nat) (bytes : Bytes) :
    highEnd? (List.replicate count 0 ++ bytes) = (highEnd? bytes).map (· + count) := by
  have hnone : (List.replicate count (0 : UInt8)).findIdx? isMarked = none :=
    List.findIdx?_eq_none_iff.mpr fun b hb => by
      rw [List.eq_of_mem_replicate hb]
      decide
  simp [highEnd?, List.findIdx?_append, hnone]

/-- The integer ends at the given byte, and every value before a byte of it is below the
ceiling. -/
structure HighFits (ceiling : Int) (bytes : Bytes) (m : Nat) : Prop where
  ends : highEnd? bytes = some m
  below : ∀ count ≤ m, (highValue (bytes.take count) : Int) < ceiling

/-- The value before the last byte is the greatest of those that are compared. -/
theorem highFits_iff {m : Nat} : HighFits ceiling bytes m ↔
    highEnd? bytes = some m ∧ (highValue (bytes.take m) : Int) < ceiling := by
  constructor
  · exact fun hfits => ⟨hfits.ends, hfits.below m (Nat.le_refl m)⟩
  · rintro ⟨hends, hbelow⟩
    refine ⟨hends, fun count hcount => ?_⟩
    have hle := highValue_take_le bytes hcount
    omega

theorem HighFits.value_lt {m : Nat} (hfits : HighFits ceiling bytes m) :
    (highValue (bytes.take (m + 1)) : Int) < 128 * ceiling := by
  have hbelow := hfits.below m (Nat.le_refl m)
  obtain ⟨earlier, b, later, rfl, rfl, -⟩ := Bytes.exists_of_findIdx? hfits.ends
  have hgroup : groupOf b < 128 := Nat.mod_lt _ (by decide)
  rw [List.take_left] at hbelow
  rw [Bytes.take_append_cons, highValue_concat]
  omega

/-- A group behind which the loop goes on. -/
structure HighPasses (ceiling : Int) (earlier : Bytes) (b : UInt8) : Prop where
  unmarked : isMarked b = false
  below : (highValue earlier : Int) < ceiling

/-- None of the bytes that the loop has passed is marked. -/
theorem Passed.unmarked (hpassed : Passed (HighPasses ceiling) earlier) :
    ∀ b ∈ earlier, isMarked b = false := by
  induction hpassed with
  | nil => simp
  | snoc _ hpasses ih =>
      exact List.forall_mem_append.mpr ⟨ih, by simpa using hpasses.unmarked⟩

/-- What a round of the loop makes of its byte. -/
def highReact (ceiling start : Int) (value : Nat) (b : UInt8) : Decoder (Nat ⊕ Nat) :=
  if ceiling ≤ value then failAt start .aboveCeiling
  else pure (if isMarked b then .inr (value * 128 + groupOf b) else .inl (value * 128 + groupOf b))

theorem highGroup_eq (ceiling start : Int) (value : Nat) :
    highGroup ceiling start value = nextByte >>= highReact ceiling start value :=
  rfl

theorem HighPasses.highReact_eq (hpasses : HighPasses ceiling earlier b) (start : Int) :
    highReact ceiling start (highValue earlier) b = pure (.inl (highValue (earlier ++ [b]))) := by
  have hbelow := hpasses.below
  rw [highReact, if_neg (by omega), hpasses.unmarked, highValue_concat]
  rfl

/-- What becomes of the bytes from which a high-groups-first integer is read. An overflow is
found at a byte that does not stand behind the end of the integer. -/
inductive HighVerdict (ceiling start stop : Int) (bytes : Bytes) : Outcome Nat → Prop
  | value {m : Nat} (hfits : HighFits ceiling bytes m) :
      HighVerdict ceiling start stop bytes
        (.done (highValue (bytes.take (m + 1))) (start + (m + 1)) [])
  | overflow {count : Nat} {last : Int} (habove : ceiling ≤ highValue (bytes.take count))
      (hcount : ∀ m, highEnd? bytes = some m → count ≤ m) :
      HighVerdict ceiling start stop bytes (.failed ⟨.aboveCeiling, start, []⟩ last [])
  | truncated {cause : Cause} (hends : highEnd? bytes = none) :
      HighVerdict ceiling start stop bytes (.failed ⟨cause, stop, []⟩ stop [])

/-- The loop comes to a byte that it does not pass. -/
theorem highVerdict_last (hearlier : ∀ b ∈ earlier, isMarked b = false)
    (hstops : ¬ HighPasses ceiling earlier b) (start stop : Int) (later : Bytes)
    (loop : Nat → Decoder Nat) (w : Window) :
    HighVerdict ceiling start stop (earlier ++ b :: later)
      ((highReact ceiling start (highValue earlier) b >>= continueWith loop) w
        (start + (earlier.length + 1))) := by
  have htake : (earlier ++ b :: later).take earlier.length = earlier := List.take_left
  by_cases habove : ceiling ≤ highValue earlier
  · rw [highReact, if_pos habove]
    exact .overflow (by rwa [htake]) fun m hends => Bytes.length_le_of_findIdx? hearlier hends
  · rw [highReact, if_neg habove]
    cases hb : isMarked b with
    | false => exact absurd ⟨hb, by omega⟩ hstops
    | true =>
        have hfits : HighFits ceiling (earlier ++ b :: later) earlier.length :=
          highFits_iff.mpr ⟨Bytes.findIdx?_append_cons hearlier hb later, by rw [htake]; omega⟩
        have hvalue : HighVerdict ceiling start stop (earlier ++ b :: later) _ := .value hfits
        rw [Bytes.take_append_cons, highValue_concat] at hvalue
        exact hvalue

theorem highGroups_verdict (limit : Int) (hbytes : w.EndsWith pos bytes) :
    HighVerdict (limit / 128) pos w.stop bytes (highGroups limit w pos) := by
  have hstart : highGroups limit w pos =
      iterate (highGroup (limit / 128) pos) (highValue []) w pos := by
    rw [highGroups, bind_of_done (d := position) rfl, Outcome.after_nil]
    rfl
  rw [hstart]
  apply iterate_over_bytes (settles_highGroup _ pos) (highGroup_eq _ pos) highValue
    (HighPasses (limit / 128)) (fun _ _ hpasses => hpasses.highReact_eq pos) hbytes
  · exact fun hpassed => .truncated (List.findIdx?_eq_none_iff.mpr hpassed.unmarked)
  · rintro earlier b later rfl hpassed hstops
    exact highVerdict_last hpassed.unmarked hstops pos w.stop later _ w

theorem highGroups_eq_done_iff {limit : Int} (hbytes : w.EndsWith pos bytes) {value : Nat}
    {last : Int} {trace : List Event} :
    highGroups limit w pos = .done value last trace ↔
      ∃ m, HighFits (limit / 128) bytes m ∧ value = highValue (bytes.take (m + 1)) ∧
        last = pos + (m + 1) ∧ trace = [] := by
  have hverdict := highGroups_verdict limit hbytes
  constructor
  · intro hdone
    rw [hdone] at hverdict
    cases hverdict with
    | value hfits => exact ⟨_, hfits, rfl, rfl, rfl⟩
  · rintro ⟨m, hfits, rfl, rfl, rfl⟩
    generalize highGroups limit w pos = outcome at hverdict
    cases hverdict with
    | value hfits' =>
        obtain rfl := Option.some.inj (hfits'.ends.symm.trans hfits.ends)
        rfl
    | overflow habove hcount =>
        have hbelow := hfits.below _ (hcount m hfits.ends)
        omega
    | truncated hends => simp [hfits.ends] at hends

theorem leadingGroups_unmarked (n : Nat) : ∀ b ∈ Bytes.leadingGroups n, isMarked b = false := by
  induction n using Nat.strongRecOn with
  | ind n ih =>
      by_cases hzero : n = 0
      · simp [hzero, Bytes.leadingGroups_zero]
      · rw [Bytes.leadingGroups_of_pos (by omega)]
        have hlast := (group_of_lt (Nat.mod_lt n (by decide : 0 < 128))).2
        exact List.forall_mem_append.mpr ⟨ih (n / 128) (by omega), by simpa using hlast⟩

theorem highValue_leadingGroups (n : Nat) : highValue (Bytes.leadingGroups n) = n := by
  induction n using Nat.strongRecOn with
  | ind n ih =>
      by_cases hzero : n = 0
      · rw [hzero, Bytes.leadingGroups_zero]
        rfl
      · rw [Bytes.leadingGroups_of_pos (by omega), highValue_concat, ih (n / 128) (by omega),
          (group_of_lt (Nat.mod_lt n (by decide : 0 < 128))).1, Nat.div_add_mod']

theorem highValue_highGroups (n : Nat) : highValue (Bytes.highGroups n) = n := by
  rw [Bytes.highGroups, highValue_concat, highValue_leadingGroups,
    (group_of_marked (Nat.mod_lt n (by decide : 0 < 128))).1, Nat.div_add_mod']

/-- An integer in its shortest form fits if what stands above its lowest group is below the
ceiling. -/
theorem highFits_highGroups_iff {n m : Nat} (later : Bytes) :
    HighFits ceiling (Bytes.highGroups n ++ later) m ↔
      m = (Bytes.leadingGroups (n / 128)).length ∧ ((n / 128 : Nat) : Int) < ceiling := by
  have hmarked := (group_of_marked (Nat.mod_lt n (by decide : 0 < 128))).2
  have hends := Bytes.findIdx?_append_cons (leadingGroups_unmarked (n / 128)) hmarked later
  have hgroups : Bytes.highGroups n ++ later =
      Bytes.leadingGroups (n / 128) ++ UInt8.ofNat (n % 128 + 128) :: later := by
    rw [Bytes.highGroups, List.append_assoc]
    rfl
  rw [highFits_iff, hgroups, highEnd?, hends]
  constructor
  · rintro ⟨hm, hbelow⟩
    obtain rfl := Option.some.inj hm
    rw [List.take_left, highValue_leadingGroups] at hbelow
    exact ⟨rfl, hbelow⟩
  · rintro ⟨rfl, hbelow⟩
    rw [List.take_left, highValue_leadingGroups]
    exact ⟨rfl, hbelow⟩

theorem highGroups_done_iff_of_starts {limit : Int} {n : Nat} (hbytes : w.EndsWith pos bytes)
    (hstarts : Bytes.highGroups n <+: bytes) {value : Nat} {last : Int} {trace : List Event} :
    highGroups limit w pos = .done value last trace ↔
      ((n / 128 : Nat) : Int) < limit / 128 ∧ value = n ∧
        last = pos + (Bytes.highGroups n).length ∧ trace = [] := by
  obtain ⟨later, rfl⟩ := hstarts
  have hlength : (Bytes.highGroups n).length = (Bytes.leadingGroups (n / 128)).length + 1 := by
    simp [Bytes.highGroups]
  have hvalue : highValue ((Bytes.highGroups n ++ later).take
      ((Bytes.leadingGroups (n / 128)).length + 1)) = n := by
    rw [← hlength, List.take_left, highValue_highGroups]
  rw [highGroups_eq_done_iff hbytes]
  simp only [highFits_highGroups_iff, hlength]
  constructor
  · rintro ⟨m, ⟨rfl, hbelow⟩, rfl, rfl, rfl⟩
    exact ⟨hbelow, hvalue, rfl, rfl⟩
  · rintro ⟨hbelow, rfl, rfl, rfl⟩
    exact ⟨_, ⟨rfl, hbelow⟩, hvalue.symm, rfl, rfl⟩

theorem take_zeros_append (count m : Nat) (bytes : Bytes) :
    (List.replicate count 0 ++ bytes).take (m + count) =
      List.replicate count 0 ++ bytes.take m := by
  simp [List.take_append]

theorem highFits_zeros_append_iff {count m : Nat} :
    HighFits ceiling (List.replicate count 0 ++ bytes) m ↔
      ∃ m', HighFits ceiling bytes m' ∧ m = m' + count := by
  simp only [highFits_iff, highEnd?_zeros_append, Option.map_eq_some_iff]
  constructor
  · rintro ⟨⟨m', hends, rfl⟩, hbelow⟩
    rw [take_zeros_append, highValue_zeros_append] at hbelow
    exact ⟨m', ⟨hends, hbelow⟩, rfl⟩
  · rintro ⟨m', ⟨hends, hbelow⟩, rfl⟩
    rw [take_zeros_append, highValue_zeros_append]
    exact ⟨⟨m', hends, rfl⟩, hbelow⟩

/-- Zero groups in front of an integer are passed and change nothing else. -/
theorem highGroups_zeros_iff {limit : Int} {w' : Window} {pos' : Int} {count : Nat}
    (hbytes : w.EndsWith pos bytes) (hzeros : w'.EndsWith pos' (List.replicate count 0 ++ bytes))
    {value : Nat} {used : Int} {trace : List Event} :
    highGroups limit w pos = .done value (pos + used) trace ↔
      highGroups limit w' pos' = .done value (pos' + count + used) trace := by
  rw [highGroups_eq_done_iff hbytes, highGroups_eq_done_iff hzeros]
  simp only [highFits_zeros_append_iff]
  constructor
  · rintro ⟨m, hfits, rfl, hused, rfl⟩
    refine ⟨m + count, ⟨m, hfits, rfl⟩, ?_, by omega, rfl⟩
    rw [Nat.add_right_comm, take_zeros_append, highValue_zeros_append]
  · rintro ⟨-, ⟨m, hfits, rfl⟩, rfl, hused, rfl⟩
    refine ⟨m, hfits, ?_, by omega, rfl⟩
    rw [Nat.add_right_comm, take_zeros_append, highValue_zeros_append]

/-- A high-groups-first integer that ends in the window is read exactly if every value before one
of its bytes is below the ceiling, and is an overflow at its start otherwise. What is read stays
below the limit, and nothing is read without an end. An integer in its shortest form is read back
exactly if what stands above its lowest group is below the ceiling, and zeros in front of an
integer do not change it. -/
theorem highGroups_exact (limit : Int) (hbytes : w.EndsWith pos bytes) :
    (∀ m, highEnd? bytes = some m →
      (∀ value last trace, highGroups limit w pos = .done value last trace ↔
        (∀ count ≤ m, (highValue (bytes.take count) : Int) < limit / 128) ∧
          value = highValue (bytes.take (m + 1)) ∧ last = pos + (m + 1) ∧ trace = []) ∧
      ∀ failure last trace, highGroups limit w pos = .failed failure last trace →
        failure.kind = .integerOverflow ∧ failure.offset = pos) ∧
    (∀ value last trace, highGroups limit w pos = .done value last trace →
      (value : Int) < 128 * (limit / 128) ∧ value ≤ limit) ∧
    (highEnd? bytes = none →
      ∀ value last trace, highGroups limit w pos ≠ .done value last trace) ∧
    (∀ n, Bytes.highGroups n <+: bytes →
      ∀ value last trace, highGroups limit w pos = .done value last trace ↔
        ((n / 128 : Nat) : Int) < limit / 128 ∧ value = n ∧
          last = pos + (Bytes.highGroups n).length ∧ trace = []) ∧
    ∀ (w' : Window) (pos' : Int) (count : Nat),
      w'.EndsWith pos' (List.replicate count 0 ++ bytes) →
        ∀ value used trace, highGroups limit w pos = .done value (pos + used) trace ↔
          highGroups limit w' pos' = .done value (pos' + count + used) trace := by
  refine ⟨fun m hends => ⟨?_, ?_⟩, ?_, ?_, ?_, ?_⟩
  · intro value last trace
    rw [highGroups_eq_done_iff hbytes]
    constructor
    · rintro ⟨m', hfits, heq⟩
      obtain rfl := Option.some.inj (hfits.ends.symm.trans hends)
      exact ⟨hfits.below, heq⟩
    · rintro ⟨hbelow, heq⟩
      exact ⟨m, ⟨hends, hbelow⟩, heq⟩
  · intro failure last trace hfailed
    have hverdict := highGroups_verdict limit hbytes
    rw [hfailed] at hverdict
    cases hverdict with
    | overflow => exact ⟨rfl, rfl⟩
    | truncated hnone => simp [hends] at hnone
  · intro value last trace hdone
    obtain ⟨m, hfits, rfl, -⟩ := (highGroups_eq_done_iff hbytes).mp hdone
    have hlt := hfits.value_lt
    exact ⟨hlt, by omega⟩
  · intro hnone value last trace hdone
    obtain ⟨m, hfits, -⟩ := (highGroups_eq_done_iff hbytes).mp hdone
    simp [hfits.ends] at hnone
  · exact fun n hstarts value last trace => highGroups_done_iff_of_starts hbytes hstarts
  · exact fun w' pos' count hzeros value used trace => highGroups_zeros_iff hbytes hzeros

/-- Below a limit of 300 there is room for two groups, of which the higher one is at most one. -/
theorem highGroups_exact_belowThreeHundred :
    highGroups 300 (.whole #[0, 1, 0xFF]) 0 = .done 255 3 [] ∧
      ∃ failure last trace, highGroups 300 (.whole #[2, 0x80]) 0 = .failed failure last trace ∧
        failure.kind = .integerOverflow ∧ failure.offset = 0 := by
  constructor
  · exact (((highGroups_exact 300 (Window.whole_endsWith #[0, 1, 0xFF])).1 2 rfl).1
      255 3 []).mpr ⟨by decide, rfl, rfl, rfl⟩
  · refine ⟨_, _, _, rfl, ?_⟩
    exact ((highGroups_exact 300 (Window.whole_endsWith #[2, 0x80])).1 1 rfl).2 _ _ _ rfl

end Decoder

end LuaDump
