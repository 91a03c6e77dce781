import LuaDump.Proofs.Reading.Number

/-! # Written floats

A float is written by its bit pattern. A number of single precision is narrowed to a
single-precision pattern, and widening the pattern gives the number back.
-/

namespace LuaDump

namespace Binary64

theorem pattern_lt (x : Binary64) : x.pattern < 2 ^ 64 :=
  x.bits.toNat_lt

theorem ofPattern_pattern (x : Binary64) : ofPattern x.pattern = x := by
  rw [ofPattern, pattern, UInt64.ofNat_toNat]

/-- A number is put together from its fields. -/
theorem assemble_fields (x : Binary64) :
    assemble x.isNegative.toNat x.exponent x.fraction = x := by
  have hlt := x.pattern_lt
  have hfields : x.isNegative.toNat * signWeight + x.exponent * unitWeight + x.fraction =
      x.pattern := by
    simp only [isNegative, exponent, fraction, signWeight, unitWeight]
    by_cases hsign : 0x8000000000000000 ≤ x.pattern
    · rw [decide_eq_true hsign, Bool.toNat_true]
      omega
    · rw [decide_eq_false hsign, Bool.toNat_false]
      omega
  rw [assemble, hfields, ofPattern_pattern]

/-- The single-precision pattern of a number that has one. The numbers with exponents up to
896 are subnormal in single precision. -/
def toBinary32 (x : Binary64) : Nat :=
  x.isNegative.toNat * 0x80000000 +
    if x.exponent = 2047 then 255 * 0x800000 + x.fraction / 0x20000000
    else if 896 < x.exponent then (x.exponent - 896) * 0x800000 + x.fraction / 0x20000000
    else x.significand / 2 ^ (926 - x.exponent)

/-- The numbers of single precision. A NaN is quiet, as widening makes it. -/
def IsSingle (x : Binary64) : Prop :=
  if x.exponent = 2047 then
    x.fraction % 0x20000000 = 0 ∧ (x.fraction = 0 ∨ 0x8000000000000 ≤ x.fraction)
  else if 896 < x.exponent then x.exponent < 1151 ∧ x.fraction % 0x20000000 = 0
  else if 873 < x.exponent then x.fraction % 2 ^ (926 - x.exponent) = 0
  else x.exponent = 0 ∧ x.fraction = 0

theorem fraction_lt (x : Binary64) : x.fraction < 0x10000000000000 :=
  Nat.mod_lt _ (by decide)

/-- Widening takes a pattern apart into its fields. -/
theorem ofBinary32_fields (sign : Nat) {exponent fraction : Nat} (hexponent : exponent < 256)
    (hfraction : fraction < 0x800000) :
    ofBinary32 (sign * 0x80000000 + (exponent * 0x800000 + fraction)) =
      if exponent = 255 then
        if fraction = 0 then assemble sign 2047 0
        else assemble sign 2047 (fraction * 0x20000000 ||| 0x8000000000000)
      else if exponent = 0 then
        if fraction = 0 then assemble sign 0 0
        else
          assemble sign (fraction.log2 + 874)
            ((fraction - 2 ^ fraction.log2) * 2 ^ (52 - fraction.log2))
      else assemble sign (exponent + 896) (fraction * 0x20000000) := by
  have hsign : (sign * 0x80000000 + (exponent * 0x800000 + fraction)) / 0x80000000 = sign := by
    omega
  have hexponent : (sign * 0x80000000 + (exponent * 0x800000 + fraction)) / 0x800000 % 256 =
      exponent := by omega
  have hfraction : (sign * 0x80000000 + (exponent * 0x800000 + fraction)) % 0x800000 =
      fraction := by omega
  simp only [ofBinary32, hsign, hexponent, hfraction, Nat.pow_eq]

theorem ofBinary32_subnormal (sign : Nat) {fraction : Nat} (hpos : 0 < fraction)
    (hfraction : fraction < 0x800000) :
    ofBinary32 (sign * 0x80000000 + fraction) =
      assemble sign (fraction.log2 + 874)
        ((fraction - 2 ^ fraction.log2) * 2 ^ (52 - fraction.log2)) := by
  have hwidened := ofBinary32_fields sign (by decide : 0 < 256) hfraction
  rwa [if_neg (by decide), if_pos rfl, if_neg (by omega), Nat.zero_mul, Nat.zero_add] at hwidened

theorem or_quiet {fraction : Nat} (hlow : 0x8000000000000 ≤ fraction)
    (hhigh : fraction < 0x10000000000000) : fraction ||| 0x8000000000000 = fraction := by
  have hsplit := Nat.two_pow_add_eq_or_of_lt (i := 51) (b := fraction - 2 ^ 51) (by omega) 1
  have hfraction : fraction = 2 ^ 51 ||| (fraction - 2 ^ 51) := by
    rw [Nat.mul_one] at hsplit
    omega
  rw [hfraction, Nat.or_comm, ← Nat.or_assoc]
  simp

/-- The significand of a number that is subnormal in single precision. -/
theorem subnormal_significand {fraction shift : Nat} (hfraction : fraction < 2 ^ 52)
    (hlow : 30 ≤ shift) (hhigh : shift ≤ 52) (hdvd : fraction % 2 ^ shift = 0) :
    let significand := (2 ^ 52 + fraction) / 2 ^ shift
    0 < significand ∧ significand < 0x800000 ∧ significand.log2 = 52 - shift ∧
      (significand - 2 ^ (52 - shift)) * 2 ^ shift = fraction := by
  intro significand
  have hpos : 0 < 2 ^ shift := Nat.two_pow_pos shift
  have hleading : 2 ^ (52 - shift) * 2 ^ shift = 2 ^ 52 := by
    rw [← Nat.pow_add, Nat.sub_add_cancel hhigh]
  have hexact : significand * 2 ^ shift = 2 ^ 52 + fraction := by
    refine Nat.div_mul_cancel (Nat.dvd_add ⟨2 ^ (52 - shift), ?_⟩ (Nat.dvd_of_mod_eq_zero hdvd))
    rw [Nat.mul_comm, hleading]
  have hfrom : 2 ^ (52 - shift) ≤ significand := by
    rw [Nat.le_div_iff_mul_le hpos, hleading]
    omega
  have hbelow : significand < 2 ^ (52 - shift + 1) := by
    have hdouble : 2 ^ (52 - shift + 1) = 2 ^ (52 - shift) * 2 := by rw [Nat.pow_succ]
    rw [Nat.div_lt_iff_lt_mul hpos, hdouble, Nat.mul_right_comm, hleading]
    omega
  have hwidth : 2 ^ (52 - shift + 1) ≤ 2 ^ 23 := Nat.pow_le_pow_right (by decide) (by omega)
  have hnonzero : 0 < significand := Nat.lt_of_lt_of_le (Nat.two_pow_pos _) hfrom
  refine ⟨hnonzero, by omega, (Nat.log2_eq_iff (by omega)).mpr ⟨hfrom, hbelow⟩, ?_⟩
  rw [Nat.sub_mul, hexact, hleading, Nat.add_sub_cancel_left]

/-- A number of single precision is its narrowed pattern, widened. -/
theorem ofBinary32_toBinary32 {x : Binary64} (hx : x.IsSingle) : ofBinary32 x.toBinary32 = x := by
  have hfraction := x.fraction_lt
  unfold IsSingle at hx
  unfold toBinary32
  split at hx
  next hexponent =>
    -- An infinity or a NaN.
    obtain ⟨hdvd, hquiet⟩ := hx
    rw [if_pos hexponent, ofBinary32_fields _ (by decide) (by omega), if_pos rfl]
    conv => rhs; rw [← assemble_fields x, hexponent]
    rcases hquiet with hzero | hquiet
    · simp [hzero]
    · have hexact : x.fraction / 0x20000000 * 0x20000000 = x.fraction := by omega
      rw [if_neg (by omega), hexact, or_quiet hquiet hfraction]
  next hfinite =>
    rw [if_neg hfinite]
    conv => rhs; rw [← assemble_fields x]
    split at hx
    next hnormal =>
      obtain ⟨hhigh, hdvd⟩ := hx
      have hexact : x.fraction / 0x20000000 * 0x20000000 = x.fraction := by omega
      rw [if_pos hnormal, ofBinary32_fields _ (by omega) (by omega), if_neg (by omega),
        if_neg (by omega), hexact, Nat.sub_add_cancel (by omega)]
    next hsmall =>
      rw [if_neg hsmall]
      split at hx
      next hsubnormal =>
        -- Subnormal in single precision: the leading bit becomes a bit of the fraction.
        have hsignificand : x.significand = 2 ^ 52 + x.fraction :=
          if_neg (by omega : ¬ x.exponent = 0)
        obtain ⟨hpos, hlt, hlog, hexact⟩ :=
          subnormal_significand hfraction (by omega) (by omega) hx
        have hexponent : 52 - (926 - x.exponent) + 874 = x.exponent := by omega
        have hshift : 52 - (52 - (926 - x.exponent)) = 926 - x.exponent := by omega
        rw [hsignificand, ofBinary32_subnormal _ hpos hlt, hlog, hexponent, hshift, hexact]
      next hzero =>
        obtain ⟨hexponent, hzero⟩ := hx
        have hsignificand : x.significand = 0 := by rw [significand, if_pos hexponent, hzero]
        have hwidened := ofBinary32_fields x.isNegative.toNat (by decide : 0 < 256)
          (by decide : 0 < 0x800000)
        rw [hsignificand, Nat.zero_div, hexponent, hzero]
        simpa using hwidened

theorem toBinary32_lt {x : Binary64} (hx : x.IsSingle) : x.toBinary32 < 256 ^ 4 := by
  have hfraction := x.fraction_lt
  have hsign : x.isNegative.toNat < 2 := Bool.toNat_lt _
  unfold IsSingle at hx
  unfold toBinary32
  split
  next => omega
  next hfinite =>
    rw [if_neg hfinite] at hx
    split
    next hnormal =>
      rw [if_pos hnormal] at hx
      omega
    next hsmall =>
      have hsignificand : x.significand < 2 ^ 53 := by
        simp only [significand, unitWeight]
        split <;> omega
      have hnarrow : x.significand / 2 ^ (926 - x.exponent) ≤ x.significand / 2 ^ 30 :=
        Nat.div_le_div_left (Nat.pow_le_pow_right (by decide) (by omega)) (by decide)
      omega

end Binary64

namespace Decoder

theorem reads_floatOfPattern {width : Int} {size : Nat} (bigEndian : Bool) {pattern : Nat}
    (hwidth : width = size) (hsize : size ∈ floatWidths) (hpattern : pattern < 256 ^ size) :
    (float width bigEndian).Reads (Bytes.ofNat bigEndian size pattern)
      (floatOfPattern size pattern) := by
  subst hwidth
  have hcheck : checkWidth floatWidths size = pure size := if_pos ⟨by omega, hsize⟩
  rw [float, hcheck, pure_bind]
  refine (reads_field _ (Bytes.length_ofNat bigEndian size pattern)).bind_nil ?_
  rw [Bytes.toNat_ofNat hpattern]
  exact .pure _

theorem reads_float (bigEndian : Bool) (value : Binary64) :
    (float 8 bigEndian).Reads (Bytes.ofNat bigEndian 8 value.pattern) value := by
  have hfloat := reads_floatOfPattern bigEndian rfl (by decide : 8 ∈ floatWidths) value.pattern_lt
  rwa [floatOfPattern, if_neg (by decide), Binary64.ofPattern_pattern] at hfloat

theorem reads_single {value : Binary64} (hvalue : value.IsSingle) :
    single.Reads (Bytes.ofNatLE 4 value.toBinary32) value := by
  refine (reads_field _ (Bytes.length_ofNatLE 4 value.toBinary32)).bind_nil ?_
  rw [Bytes.toNatLE_ofNatLE (Binary64.toBinary32_lt hvalue), floatOfPattern, if_pos rfl,
    Binary64.ofBinary32_toBinary32 hvalue]
  exact .pure value

end Decoder

end LuaDump
