import Mathlib.Algebra.Order.Ring.Int
import LuaDump.Decoder.Varint
import LuaDump.Proofs.Reading
import LuaDump.Proofs.Settling.Function

/-! # Written numbers

How numbers are written, in a fixed number of bytes or in groups of seven bits, and that
they are read back.
-/

namespace LuaDump

namespace Bytes

/-- The lowest `count` base-256 digits of a number in the given order. -/
def ofNat (bigEndian : Bool) (count n : Nat) : Bytes :=
  if bigEndian then ofNatBE count n else ofNatLE count n

@[simp] theorem length_ofNat (bigEndian : Bool) (count n : Nat) :
    (ofNat bigEndian count n).length = count := by
  unfold ofNat
  split <;> simp

theorem toNatLE_ofNatLE {count n : Nat} (hn : n < 256 ^ count) : toNatLE (ofNatLE count n) = n := by
  induction count generalizing n with
  | zero => simp at hn; simp [ofNatLE, toNatLE, hn]
  | succ count ih =>
      rw [Nat.pow_succ] at hn
      have hdigit : (UInt8.ofNat (n % 256)).toNat = n % 256 := by simp
      rw [ofNatLE, toNatLE, hdigit, ih (by omega), Nat.mod_add_div]

theorem toNat_ofNat {bigEndian : Bool} {count n : Nat} (hn : n < 256 ^ count) :
    toNat bigEndian (ofNat bigEndian count n) = n := by
  cases bigEndian
  · exact toNatLE_ofNatLE hn
  · simpa [toNat, ofNat, toNatBE, ofNatBE] using toNatLE_ofNatLE hn

/-- The groups of seven bits of a number, the lowest first; all but the last are marked. -/
def lowGroups (n : Nat) : Bytes :=
  if n < 128 then [UInt8.ofNat n] else UInt8.ofNat (n % 128 + 128) :: lowGroups (n / 128)

theorem lowGroups_of_lt {n : Nat} (hn : n < 128) : lowGroups n = [UInt8.ofNat n] := by
  rw [lowGroups, if_pos hn]

theorem lowGroups_of_le {n : Nat} (hn : 128 ≤ n) :
    lowGroups n = [UInt8.ofNat (n % 128 + 128)] ++ lowGroups (n / 128) := by
  rw [lowGroups, if_neg (by omega)]
  rfl

theorem length_lowGroups_pos (n : Nat) : 1 ≤ (lowGroups n).length := by
  rw [lowGroups]
  split <;> simp

/-- The groups of seven bits above the lowest one, the highest first; none for zero. -/
def leadingGroups (n : Nat) : Bytes :=
  if n = 0 then [] else leadingGroups (n / 128) ++ [UInt8.ofNat (n % 128)]

/-- The groups of seven bits of a number, the highest first; only the last is marked. -/
def highGroups (n : Nat) : Bytes :=
  leadingGroups (n / 128) ++ [UInt8.ofNat (n % 128 + 128)]

theorem leadingGroups_zero : leadingGroups 0 = [] := by
  rw [leadingGroups, if_pos rfl]

theorem leadingGroups_of_pos {n : Nat} (hn : 0 < n) :
    leadingGroups n = leadingGroups (n / 128) ++ [UInt8.ofNat (n % 128)] := by
  rw [leadingGroups, if_neg (by omega)]

/-- The head of a numeric constant: six bits of the number over a selector, then its other
bits in groups. -/
def numericHead (selector : Bool) (n : Nat) : Bytes :=
  if n < 64 then [UInt8.ofNat (n * 2 + selector.toNat)]
  else UInt8.ofNat (n % 64 * 2 + selector.toNat + 128) :: lowGroups (n / 64)

theorem length_numericHead_pos (selector : Bool) (n : Nat) :
    1 ≤ (numericHead selector n).length := by
  rw [numericHead]
  split <;> simp

/-- The lowest bit of the first byte is the selector. -/
theorem exists_numericHead_eq_cons (selector : Bool) (n : Nat) :
    ∃ b rest, numericHead selector n = b :: rest ∧ b.toNat.testBit 0 = selector := by
  have hbit : ∀ m, (UInt8.ofNat (m * 2 + selector.toNat)).toNat.testBit 0 = selector := by
    intro m
    rw [UInt8.toNat_ofNat', Nat.testBit_zero]
    cases selector <;> simp only [Bool.toNat_true, Bool.toNat_false] <;> grind
  unfold numericHead
  split
  next => exact ⟨_, [], rfl, hbit n⟩
  next =>
    refine ⟨_, _, rfl, ?_⟩
    have hmarked : n % 64 * 2 + selector.toNat + 128 = (n % 64 + 64) * 2 + selector.toNat := by
      omega
    rw [hmarked]
    exact hbit _

end Bytes

/-- A number of the given bit width that is read as the given integer. -/
def twosComplement (bits : Nat) (value : Int) : Nat :=
  (value % 2 ^ bits).toNat

theorem twosComplement_lt (bits : Nat) (value : Int) : twosComplement bits value < 2 ^ bits := by
  have hpos : (0 : Int) < 2 ^ bits := Int.pow_pos (by decide)
  have hlt := Int.emod_lt_of_pos value hpos
  have hnonneg := Int.emod_nonneg value (Int.ne_of_gt hpos)
  have hcast : ((2 ^ bits : Nat) : Int) = 2 ^ bits := by simp
  rw [twosComplement]
  omega

theorem signExtend_twosComplement {bits : Nat} {value : Int}
    (hlow : -2 ^ bits ≤ value) (hhigh : value < 2 ^ bits) :
    signExtend (bits + 1) (twosComplement (bits + 1) value) = value := by
  have hcast : ((2 ^ bits : Nat) : Int) = 2 ^ bits := by simp
  have htwice : (2 : Int) ^ (bits + 1) = 2 * 2 ^ bits := by rw [Int.pow_succ, Int.mul_comm]
  have htwice' : 2 ^ (bits + 1) = 2 * 2 ^ bits := by rw [Nat.pow_succ, Nat.mul_comm]
  simp only [signExtend, twosComplement, Nat.pow_eq, Nat.add_sub_cancel, htwice, htwice']
  by_cases hnonneg : 0 ≤ value
  · rw [Int.emod_eq_of_lt hnonneg (by omega), if_pos (by omega)]
    omega
  · rw [← Int.add_emod_right, Int.emod_eq_of_lt (by omega) (by omega), if_neg (by omega)]
    omega

namespace Decoder

theorem reads_unsigned {width : Int} {size : Nat} (bigEndian : Bool) {n : Nat}
    (hwidth : width = size) (hsize : size ∈ integerWidths) (hn : n < 256 ^ size) :
    (unsigned width bigEndian).Reads (Bytes.ofNat bigEndian size n) n := by
  subst hwidth
  have hcheck : checkWidth integerWidths size = pure size := if_pos ⟨by omega, hsize⟩
  rw [unsigned, hcheck, pure_bind]
  refine (reads_field _ (Bytes.length_ofNat bigEndian size n)).bind_nil ?_
  rw [Bytes.toNat_ofNat hn]
  exact .pure n

theorem reads_signed {width : Int} {size bits : Nat} (bigEndian : Bool) {value : Int}
    (hwidth : width = size) (hsize : size ∈ integerWidths) (hbits : size * 8 = bits + 1)
    (hlow : -2 ^ bits ≤ value) (hhigh : value < 2 ^ bits) :
    (signed width bigEndian).Reads
      (Bytes.ofNat bigEndian size (twosComplement (bits + 1) value)) value := by
  subst hwidth
  have hcheck : checkWidth integerWidths size = pure size := if_pos ⟨by omega, hsize⟩
  have hpow : 256 ^ size = 2 ^ (bits + 1) := by
    rw [← hbits, Nat.mul_comm, Nat.pow_mul]
  rw [signed, hcheck, pure_bind]
  refine (reads_field _ (Bytes.length_ofNat bigEndian size _)).bind_nil ?_
  rw [Bytes.toNat_ofNat (hpow ▸ twosComplement_lt (bits + 1) value), hbits,
    signExtend_twosComplement hlow hhigh]
  exact .pure value

/-- A byte below 128 ends a number, and its value is its payload. -/
theorem group_of_lt {n : Nat} (hn : n < 128) :
    groupOf (UInt8.ofNat n) = n ∧ isMarked (UInt8.ofNat n) = false := by
  have hbyte : (UInt8.ofNat n).toNat = n := by
    rw [UInt8.toNat_ofNat']
    omega
  simp only [groupOf, isMarked, hbyte]
  exact ⟨Nat.mod_eq_of_lt hn, decide_eq_false (by omega)⟩

theorem group_of_marked {n : Nat} (hn : n < 128) :
    groupOf (UInt8.ofNat (n + 128)) = n ∧ isMarked (UInt8.ofNat (n + 128)) = true := by
  have hbyte : (UInt8.ofNat (n + 128)).toNat = n + 128 := by
    rw [UInt8.toNat_ofNat']
    omega
  simp only [groupOf, isMarked, hbyte]
  exact ⟨by omega, decide_eq_true (by omega)⟩

theorem reads_lowGroup_last {bits : Nat} (start : Int) {shift value n : Nat} (hn : n < 128)
    (hbound : value + n * 2 ^ shift < 2 ^ bits) :
    (lowGroup bits start (shift, value)).Reads [UInt8.ofNat n] (.inr (value + n * 2 ^ shift)) := by
  obtain ⟨hgroup, hmarked⟩ := group_of_lt hn
  refine (reads_nextByte _).bind_nil ?_
  simp only [Nat.pow_eq, hgroup, hmarked]
  rw [if_neg (by omega)]
  exact .pure _

theorem reads_lowGroup_next {bits : Nat} (start : Int) {shift value n : Nat} (hn : n < 128)
    (hbound : value + n * 2 ^ shift < 2 ^ bits) (hshift : shift < bits) :
    (lowGroup bits start (shift, value)).Reads [UInt8.ofNat (n + 128)]
      (.inl (shift + 7, value + n * 2 ^ shift)) := by
  obtain ⟨hgroup, hmarked⟩ := group_of_marked hn
  refine (reads_nextByte _).bind_nil ?_
  simp only [Nat.pow_eq, hgroup, hmarked, Bool.not_true, Bool.false_eq_true, if_false]
  rw [if_neg (by omega), if_neg (by omega)]
  exact .pure _

theorem groups_split (value n shift : Nat) :
    value + n % 128 * 2 ^ shift + n / 128 * 2 ^ (shift + 7) = value + n * 2 ^ shift := by
  have hpow : 2 ^ (shift + 7) = 128 * 2 ^ shift := by rw [Nat.pow_add, Nat.mul_comm]
  rw [hpow, Nat.add_assoc, ← Nat.mul_assoc, ← Nat.add_mul, Nat.mul_comm (n / 128), Nat.mod_add_div]

/-- The groups of a number are read above the groups before it. -/
theorem reads_lowGroup_loop {bits : Nat} (start : Int) (n : Nat) {shift value : Nat}
    (hbound : value + n * 2 ^ shift < 2 ^ bits) :
    (iterate (lowGroup bits start) (shift, value)).Reads (Bytes.lowGroups n)
      (value + n * 2 ^ shift) := by
  induction n using Nat.strongRecOn generalizing shift value with
  | ind n ih =>
      by_cases hn : n < 128
      · rw [Bytes.lowGroups_of_lt hn]
        exact .iterate_last (settles_lowGroup bits start) (reads_lowGroup_last start hn hbound)
      · have hsplit := groups_split value n shift
        have hrest := ih (n / 128) (by omega) (hsplit ▸ hbound)
        rw [hsplit] at hrest
        -- A group that is not the last leaves a bit for the next one.
        have hshift : shift < bits := by
          have hpositive : 2 ^ shift ≤ n * 2 ^ shift := Nat.le_mul_of_pos_left _ (by omega)
          exact (Nat.pow_lt_pow_iff_right (by decide)).mp (by omega : 2 ^ shift < 2 ^ bits)
        rw [Bytes.lowGroups_of_le (by omega)]
        exact .iterate_next (settles_lowGroup bits start)
          (reads_lowGroup_next start (Nat.mod_lt n (by decide)) (by omega) hshift) hrest

theorem reads_lowGroups {bits n : Nat} (hn : n < 2 ^ bits) :
    (lowGroups bits).Reads (Bytes.lowGroups n) n := by
  refine .position_bind fun start => ?_
  have hloop : (iterate (lowGroup bits start) (0, 0)).Reads (Bytes.lowGroups n) (0 + n * 2 ^ 0) :=
    reads_lowGroup_loop start n (by simpa using hn)
  simpa using hloop

theorem reads_varint {n : Nat} (hn : n < 2 ^ 32) : varint.Reads (Bytes.lowGroups n) n :=
  reads_lowGroups hn

theorem reads_headGroup_last (start : Int) {shift value n : Nat} (hn : n < 128) :
    (headGroup start (shift, value)).Reads [UInt8.ofNat n] (.inr (value + n * 2 ^ shift)) := by
  obtain ⟨hgroup, hmarked⟩ := group_of_lt hn
  refine (reads_nextByte _).bind_nil ?_
  simp only [Nat.pow_eq, hgroup, hmarked]
  exact .pure _

theorem reads_headGroup_next (start : Int) {shift value n : Nat} (hn : n < 128)
    (hshift : shift < 27) :
    (headGroup start (shift, value)).Reads [UInt8.ofNat (n + 128)]
      (.inl (shift + 7, value + n * 2 ^ shift)) := by
  obtain ⟨hgroup, hmarked⟩ := group_of_marked hn
  refine (reads_nextByte _).bind_nil ?_
  simp only [Nat.pow_eq, hgroup, hmarked, Bool.not_true, Bool.false_eq_true, if_false]
  rw [if_neg (by omega)]
  exact .pure _

theorem reads_headGroup_loop (start : Int) (n : Nat) {shift value : Nat}
    (hbound : n * 2 ^ shift < 2 ^ 32) :
    (iterate (headGroup start) (shift, value)).Reads (Bytes.lowGroups n)
      (value + n * 2 ^ shift) := by
  induction n using Nat.strongRecOn generalizing shift value with
  | ind n ih =>
      by_cases hn : n < 128
      · rw [Bytes.lowGroups_of_lt hn]
        exact .iterate_last (settles_headGroup start) (reads_headGroup_last start hn)
      · have hsplit := groups_split value n shift
        have hsplit' := groups_split 0 n shift
        have hrest : (iterate (headGroup start) (shift + 7, value + n % 128 * 2 ^ shift)).Reads
            (Bytes.lowGroups (n / 128)) (value + n % 128 * 2 ^ shift + n / 128 * 2 ^ (shift + 7)) :=
          ih (n / 128) (by omega) (by omega)
        rw [hsplit] at hrest
        have hshift : shift < 27 := by
          refine Nat.lt_of_not_le fun hle => ?_
          have hlarge := Nat.mul_le_mul (Nat.le_of_not_lt hn)
            (Nat.pow_le_pow_right (by decide : 0 < 2) hle)
          omega
        rw [Bytes.lowGroups_of_le (by omega)]
        exact .iterate_next (settles_headGroup start)
          (reads_headGroup_next start (Nat.mod_lt n (by decide)) hshift) hrest

theorem reads_numericHead {n : Nat} (hn : n < 2 ^ 32) (selector : Bool) :
    numericHead.Reads (Bytes.numericHead selector n) n := by
  have hselector : selector.toNat < 2 := Bool.toNat_lt selector
  refine .position_bind fun start => ?_
  unfold Bytes.numericHead
  split
  next hsmall =>
    have hbyte : (UInt8.ofNat (n * 2 + selector.toNat)).toNat / 2 = n := by
      rw [UInt8.toNat_ofNat']
      omega
    refine (reads_nextByte _).bind_nil ?_
    simp only [hbyte]
    rw [if_pos hsmall]
    exact .pure n
  next hlarge =>
    have hbyte : (UInt8.ofNat (n % 64 * 2 + selector.toNat + 128)).toNat / 2 = n % 64 + 64 := by
      rw [UInt8.toNat_ofNat']
      omega
    have hvalue : n % 64 + n / 64 * 2 ^ 6 = n := by omega
    have hmod : n % 0x100000000 = n := by omega
    have hloop : (iterate (headGroup start) (6, n % 64)).Reads (Bytes.lowGroups (n / 64))
        (n % 64 + n / 64 * 2 ^ 6) := reads_headGroup_loop start (n / 64) (by omega)
    refine (reads_nextByte _).bind ?_
    simp only [hbyte]
    rw [if_neg (by omega), Nat.add_mod_right, Nat.mod_mod]
    refine hloop.bind_nil ?_
    rw [hvalue, hmod]
    exact .pure n

end Decoder

end LuaDump
