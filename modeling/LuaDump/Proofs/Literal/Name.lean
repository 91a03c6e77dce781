import LuaDump.Proofs.Literal.QuotedString

/-! # Bare names

The text of a name determines the bytes of the string that it stands for. The characters of
names are ASCII, and in UTF-8 no longer sequence of bytes stands for one of these.
-/

namespace LuaDump

open Literal

section Characters

theorem isPrintable_of_isNameChar {c : Char} (hc : isNameChar c) : IsPrintable c := by
  delta isNameChar Char.isAlphanum Char.isAlpha Char.isUpper Char.isLower Char.isDigit at hc
  simp only [Bool.or_eq_true, Bool.and_eq_true, decide_eq_true_iff, beq_iff_eq, ge_iff_le,
    UInt32.le_iff_toNat_le] at hc
  have hupper : 'A'.val.toNat = 65 ∧ 'Z'.val.toNat = 90 := ⟨rfl, rfl⟩
  have hlower : 'a'.val.toNat = 97 ∧ 'z'.val.toNat = 122 := ⟨rfl, rfl⟩
  have hdigit : '0'.val.toNat = 48 ∧ '9'.val.toNat = 57 := ⟨rfl, rfl⟩
  have hcode : c.val.toNat = c.toNat := rfl
  rw [IsPrintable]
  rcases hc with hc | rfl
  · omega
  · decide

/-- A number that is no code stands for the character with code zero. -/
theorem toNat_ofNat_or (n : Nat) : (Char.ofNat n).toNat = n ∨ Char.ofNat n = '\x00' := by
  by_cases hvalid : n.isValidChar
  · rw [Char.ofNat, dif_pos hvalid]
    exact .inl rfl
  · rw [Char.ofNat, dif_neg hvalid]
    exact .inr rfl

/-- No character with a code from 128 on stands in a name, nor what stands for a number that is
no code. -/
theorem isNameChar_ofNat_of_le {n : Nat} (hn : 128 ≤ n) : isNameChar (Char.ofNat n) = false := by
  rw [← Bool.not_eq_true]
  intro hname
  rcases toNat_ofNat_or n with hcode | hzero
  · have hlt := (isPrintable_of_isNameChar hname).2
    omega
  · rw [hzero] at hname
    exact absurd hname (by decide)

theorem isNameChar_of_isNameStart {c : Char} (hc : isNameStart c) : isNameChar c := by
  simp only [isNameStart, isNameChar, Char.isAlphanum, Bool.or_eq_true] at hc ⊢
  exact hc.imp_left .inl

end Characters

namespace Utf8

variable {b second : UInt8}

theorem units_cons_of_lt (hb : b.toNat < 128) (rest : Bytes) :
    units (b :: rest) = some (Char.ofNat b.toNat) :: units rest := by
  have hlead : followers? b = some 0 := if_pos (UInt8.lt_iff_toNat_lt.mpr hb)
  rw [units, hlead]
  rfl

/-- The leading bytes of longer sequences. -/
theorem followers?_of_le {more : Nat} (hb : 128 ≤ b.toNat) (hmore : followers? b = some more) :
    (more = 1 ∧ 0xC2 ≤ b.toNat ∧ b.toNat ≤ 0xDF) ∨
      (more = 2 ∧ 0xE0 ≤ b.toNat ∧ b.toNat ≤ 0xEF) ∨
        (more = 3 ∧ 0xF0 ≤ b.toNat ∧ b.toNat ≤ 0xF4) := by
  simp only [followers?, UInt8.lt_iff_toNat_lt, UInt8.le_iff_toNat_le, Bool.and_eq_true,
    decide_eq_true_iff, UInt8.reduceToNat] at hmore
  grind

/-- A second byte makes up for a leading byte that has no payload. -/
theorem le_payload_of_isSecond (hsecond : isSecond b second) :
    (b.toNat = 0xE0 → 32 ≤ payload second) ∧ (b.toNat = 0xF0 → 16 ≤ payload second) := by
  refine ⟨fun hb => ?_, fun hb => ?_⟩
  · obtain rfl : b = 0xE0 := UInt8.toNat_inj.mp hb
    simp [isSecond, UInt8.le_iff_toNat_le] at hsecond
    rw [payload]
    omega
  · obtain rfl : b = 0xF0 := UInt8.toNat_inj.mp hb
    simp [isSecond, UInt8.le_iff_toNat_le] at hsecond
    rw [payload]
    omega

theorem le_of_isContinuation (hb : isContinuation b) : 128 ≤ b.toNat := by
  simp only [isContinuation, Bool.and_eq_true, decide_eq_true_iff, UInt8.le_iff_toNat_le,
    UInt8.reduceToNat] at hb
  exact hb.1

theorem le_of_isSecond (hsecond : isSecond b second) : 128 ≤ second.toNat := by
  simp only [isSecond, isContinuation, UInt8.le_iff_toNat_le, UInt8.reduceToNat] at hsecond
  grind

/-- The units found at a byte from 128 on that stands before `rest`: the first is ill-formed or a
character from 128 on, and it takes only bytes from 128 on. -/
def WideFirst (rest : Bytes) (found : List (Option Char)) : Prop :=
  ∃ unit skipped later, found = unit :: units later ∧ rest = skipped ++ later ∧
    (∀ s ∈ skipped, 128 ≤ s.toNat) ∧ ∀ c ∈ unit, ∃ n, 128 ≤ n ∧ Char.ofNat n = c

theorem wideFirst_none (skipped : Bytes) (hskipped : ∀ s ∈ skipped, 128 ≤ s.toNat)
    (later : Bytes) : WideFirst (skipped ++ later) (none :: units later) :=
  ⟨none, skipped, later, rfl, rfl, hskipped, by simp⟩

theorem wideFirst_some (skipped : Bytes) (hskipped : ∀ s ∈ skipped, 128 ≤ s.toNat)
    (later : Bytes) {n : Nat} (hn : 128 ≤ n) :
    WideFirst (skipped ++ later) (some (Char.ofNat n) :: units later) :=
  ⟨some (Char.ofNat n), skipped, later, rfl, rfl, hskipped, by simpa using ⟨n, hn, rfl⟩⟩

theorem wideFirst_units (hb : 128 ≤ b.toNat) (rest : Bytes) :
    WideFirst rest (units (b :: rest)) := by
  -- The cases are those of `units`, one byte of the sequence after the other.
  rw [units.eq_def]
  dsimp only
  split
  next => exact wideFirst_none [] (by simp) _
  next hlead =>
    have hrange := followers?_of_le hb hlead
    omega
  next more _ hlead =>
    have hrange := followers?_of_le hb hlead
    split
    next => exact wideFirst_none [] (by simp) []
    next second _ =>
      split
      next => exact wideFirst_none [] (by simp) _
      next hsecond =>
        have hsecond : isSecond b second := by simpa using hsecond
        have hpayload := le_payload_of_isSecond hsecond
        have hone : ∀ s ∈ [second], 128 ≤ s.toNat := by simpa using le_of_isSecond hsecond
        split
        next => exact wideFirst_some [second] hone _ (by omega)
        next =>
          split
          next => exact wideFirst_none [second] hone []
          next third _ =>
            split
            next => exact wideFirst_none [second] hone _
            next hthird =>
              have hthird : isContinuation third := by simpa using hthird
              have htwo : ∀ s ∈ [second, third], 128 ≤ s.toNat := by
                simpa using ⟨le_of_isSecond hsecond, le_of_isContinuation hthird⟩
              split
              next => exact wideFirst_some [second, third] htwo _ (by omega)
              next =>
                split
                next => exact wideFirst_none [second, third] htwo []
                next fourth _ =>
                  split
                  next => exact wideFirst_none [second, third] htwo _
                  next hfourth =>
                    have hfourth : isContinuation fourth := by simpa using hfourth
                    have hthree : ∀ s ∈ [second, third, fourth], 128 ≤ s.toNat := by
                      simpa using ⟨le_of_isSecond hsecond, le_of_isContinuation hthird,
                        le_of_isContinuation hfourth⟩
                    exact wideFirst_some [second, third, fourth] hthree _ (by omega)

end Utf8

namespace Literal

/-- The bytes of a name. -/
def nameBytes (name : List Char) : Bytes :=
  name.map fun c => UInt8.ofNat c.toNat

theorem eq_nameBytes_of_units {bytes : Bytes} {name : List Char}
    (hunits : (Utf8.units bytes).mapM id = some name) (hname : ∀ c ∈ name, isNameChar c) :
    bytes = nameBytes name := by
  induction bytes generalizing name with
  | nil =>
      obtain rfl : [] = name := by simpa [Utf8.units] using hunits
      rfl
  | cons b rest ih =>
      by_cases hb : b.toNat < 128
      · rw [Utf8.units_cons_of_lt hb, List.mapM_cons] at hunits
        obtain ⟨more, hmore, rfl⟩ :
            ∃ more, (Utf8.units rest).mapM id = some more ∧ Char.ofNat b.toNat :: more = name := by
          simpa [Option.bind_eq_some_iff] using hunits
        have hrest := ih hmore fun c hc => hname c (List.mem_cons_of_mem _ hc)
        rw [nameBytes, List.map_cons, toNat_ofNat_toNat, UInt8.ofNat_toNat, ← nameBytes, ← hrest]
      · obtain ⟨unit, _, later, heq, -, -, hunit⟩ :=
          Utf8.wideFirst_units (Nat.le_of_not_lt hb) rest
        rw [heq, List.mapM_cons] at hunits
        obtain ⟨c, rfl, more, -, rfl⟩ :
            ∃ c, unit = some c ∧ ∃ more, (Utf8.units later).mapM id = some more ∧
              c :: more = name := by
          simpa [Option.bind_eq_some_iff] using hunits
        -- A wide character is no character of a name.
        obtain ⟨n, hn, rfl⟩ := hunit c rfl
        simp [isNameChar_ofNat_of_le hn] at hname

/-- A string that is written as a bare name. -/
theorem of_name? {key : Constant} {name : String} (hname : key.name? = some name) :
    key = .string (nameBytes name.toList) ∧
      ∃ first rest, name.toList = first :: rest ∧ isNameStart first ∧ ∀ c ∈ rest, isNameChar c := by
  obtain ⟨htext, hisName⟩ := Option.filter_eq_some_iff.mp hname
  have hshape : ∃ first rest, name.toList = first :: rest ∧ isNameStart first ∧
      ∀ c ∈ rest, isNameChar c := by
    unfold isName at hisName
    split at hisName
    next => simp at hisName
    next first rest heq =>
      simp only [Bool.and_eq_true, List.all_eq_true] at hisName
      exact ⟨first, rest, heq, hisName.1.1, hisName.1.2⟩
  refine ⟨?_, hshape⟩
  obtain ⟨first, rest, heq, hfirst, hrest⟩ := hshape
  cases key with
  | string bytes =>
      obtain ⟨chars, hchars, rfl⟩ := Option.map_eq_some_iff.mp htext
      rw [String.toList_ofList] at heq ⊢
      refine congrArg _ (eq_nameBytes_of_units hchars ?_)
      rw [heq]
      exact List.forall_mem_cons.mpr ⟨isNameChar_of_isNameStart hfirst, hrest⟩
  | _ => simp [Constant.text?] at htext

end Literal

end LuaDump
