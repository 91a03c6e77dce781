import LuaDump.Constant.Literal
import LuaDump.Numeral

/-! # Quoted strings

How a quoted string of Lua source is read: a backslash starts a named escape or a decimal one,
and a decimal escape takes in as many digits as follow, up to three. Every string of bytes is
read back from its literal, whatever comes after the closing quote.
-/

namespace LuaDump.Literal

/-- The byte that a named escape stands for. -/
def namedByte? (c : Char) : Option UInt8 :=
  match c with
  | 'a' => some 7
  | 'b' => some 8
  | 'f' => some 12
  | 'n' => some 10
  | 'r' => some 13
  | 't' => some 9
  | 'v' => some 11
  | '\\' => some 92
  | '"' => some 34
  | _ => none

/-- A decimal escape: all digits that follow, but no more than three. Its value must be that of
a byte. -/
def decimalByte? (text : List Char) : Numeral.Cut UInt8 :=
  let digits := (text.take 3).takeWhile Char.isDigit
  let value := Nat.ofDigitChars 10 digits 0
  if digits = [] ∨ 255 < value then none
  else some (UInt8.ofNat value, text.drop digits.length)

/-- What follows a backslash. -/
def escapedByte? (text : List Char) : Numeral.Cut UInt8 :=
  match text with
  | [] => none
  | c :: rest =>
    match namedByte? c with
    | some b => some (b, rest)
    | none => decimalByte? (c :: rest)

theorem length_lt_of_escapedByte? {text rest : List Char} {b : UInt8}
    (hsome : escapedByte? text = some (b, rest)) : rest.length < text.length := by
  cases text with
  | nil => simp [escapedByte?] at hsome
  | cons c more =>
      rw [escapedByte?] at hsome
      split at hsome
      next =>
        obtain ⟨-, rfl⟩ := Prod.mk.inj (Option.some.inj hsome)
        exact Nat.lt_succ_self _
      next =>
        simp only [decimalByte?] at hsome
        split at hsome
        next => simp at hsome
        next hvalid =>
          obtain ⟨-, rfl⟩ := Prod.mk.inj (Option.some.inj hsome)
          have hdigits := List.length_pos_iff.mpr (not_or.mp hvalid).1
          rw [List.length_drop]
          simp only [List.length_cons]
          omega

/-- What follows an opening quote, up to and including the closing one. A line does not end
inside a string. -/
def stringBody (text : List Char) : Numeral.Cut Bytes :=
  match text with
  | [] => none
  | c :: rest =>
    if c = '"' then some ([], rest)
    else if c = '\\' then
      match _ : escapedByte? rest with
      | none => none
      | some (b, more) => (stringBody more).map fun found => (b :: found.1, found.2)
    else if c = '\n' ∨ c = '\r' then none
    else (stringBody rest).map fun found => (String.utf8EncodeChar c ++ found.1, found.2)
termination_by text.length
decreasing_by
  · have hshorter := length_lt_of_escapedByte? ‹escapedByte? rest = _›
    simp only [List.length_cons]
    omega
  · simp

/-- A string in double quotes. -/
def quotedString : List Char → Numeral.Cut Bytes
  | '"' :: rest => stringBody rest
  | _ => none

/-- Whether a character is printable ASCII. -/
def IsPrintable (c : Char) : Prop :=
  0x20 ≤ c.toNat ∧ c.toNat < 0x7F

instance : DecidablePred IsPrintable :=
  fun _ => inferInstanceAs (Decidable (_ ∧ _))

section Body

variable {text rest : List Char} {b : UInt8} {c : Char}

theorem stringBody_quote (rest : List Char) : stringBody ('"' :: rest) = some ([], rest) := by
  rw [stringBody, if_pos rfl]

theorem stringBody_escaped (hescaped : escapedByte? text = some (b, rest)) :
    stringBody ('\\' :: text) = (stringBody rest).map fun found => (b :: found.1, found.2) := by
  rw [stringBody, if_neg (by decide), if_pos rfl]
  split
  next hnone => simp [hescaped] at hnone
  next found more hsome =>
    obtain ⟨rfl, rfl⟩ := Prod.mk.inj (Option.some.inj (hescaped.symm.trans hsome))
    rfl

theorem toNat_ofNat_toNat (b : UInt8) : (Char.ofNat b.toNat).toNat = b.toNat := by
  have hb := b.toNat_lt
  rw [Char.ofNat, dif_pos (.inl (by omega))]
  rfl

/-- A printable character that starts no escape and does not end the string stands for its
code. -/
theorem stringBody_plain (hb : 0x20 ≤ b.toNat ∧ b.toNat < 0x7F) (hquote : b ≠ 34)
    (hbackslash : b ≠ 92) (rest : List Char) :
    stringBody (Char.ofNat b.toNat :: rest) =
      (stringBody rest).map fun found => (b :: found.1, found.2) := by
  have hcode := toNat_ofNat_toNat b
  have hne : ∀ c : Char, b.toNat ≠ c.toNat → Char.ofNat b.toNat ≠ c := by
    rintro c hc rfl
    exact hc hcode.symm
  have hencoded : String.utf8EncodeChar (Char.ofNat b.toNat) = [b] := by
    have hval : (Char.ofNat b.toNat).val.toNat = b.toNat := hcode
    rw [String.utf8EncodeChar, hval, if_pos (by omega), UInt8.ofNat_toNat]
  have hline : ¬ (Char.ofNat b.toNat = '\n' ∨ Char.ofNat b.toNat = '\r') := by
    have hnewline : '\n'.toNat = 10 := rfl
    have hreturn : '\r'.toNat = 13 := rfl
    exact not_or.mpr ⟨hne _ (by omega), hne _ (by omega)⟩
  rw [stringBody, if_neg (hne '"' fun h => hquote (UInt8.toNat_inj.mp h)),
    if_neg (hne '\\' fun h => hbackslash (UInt8.toNat_inj.mp h)), if_neg hline, hencoded]
  rfl

end Body

section Escapes

variable {b : UInt8} {following : List Char}

/-- The letters of the named escapes. -/
theorem namedByte?_of_escapeLetter? {letter : Char} (hletter : escapeLetter? b = some letter) :
    namedByte? letter = some b ∧ IsPrintable letter := by
  unfold escapeLetter? at hletter
  split at hletter
  case h_10 => simp at hletter
  all_goals
    obtain rfl := Option.some.inj hletter
    rw [← UInt8.ofNat_toNat (x := b), ‹b.toNat = _›]
    exact ⟨rfl, by decide⟩

theorem namedByte?_of_isDigit {c : Char} (hc : c.isDigit) : namedByte? c = none := by
  unfold namedByte?
  split
  case h_10 => rfl
  all_goals exact absurd hc (by decide)

/-- Digits that spell a byte in a decimal escape. -/
structure Spells (digits : List Char) (b : UInt8) : Prop where
  isDigit : ∀ c ∈ digits, c.isDigit
  ne_nil : digits ≠ []
  length_le : digits.length ≤ 3
  value : Nat.ofDigitChars 10 digits 0 = b.toNat

/-- A numbered escape spells its byte, in three digits if a digit follows. -/
theorem numberedEscape_eq (beforeDigit : Bool) (b : UInt8) :
    ∃ digits, numberedEscape beforeDigit b = '\\' :: digits ∧ Spells digits b ∧
      (beforeDigit → digits.length = 3) := by
  have hlength : (Nat.toDigits 10 b.toNat).length ≤ 3 :=
    (Nat.length_toDigits_le_iff (by decide) (by decide)).mpr (by have := b.toNat_lt; omega)
  have hdigit : ∀ c ∈ Nat.toDigits 10 b.toNat, c.isDigit := fun c hc =>
    Nat.isDigit_of_mem_toDigits (by decide) (by decide) hc
  cases beforeDigit with
  | false =>
      exact ⟨_, rfl, ⟨hdigit, Nat.toDigits_ne_nil, hlength, Nat.ofDigitChars_ten_toDigits⟩, by simp⟩
  | true =>
      have hthree : (List.replicate (3 - (Nat.toDigits 10 b.toNat).length) '0' ++
          Nat.toDigits 10 b.toNat).length = 3 := by
        rw [List.length_append, List.length_replicate]
        omega
      refine ⟨_, rfl, ⟨?_, by simp, Nat.le_of_eq hthree, ?_⟩, fun _ => hthree⟩
      · refine List.forall_mem_append.mpr ⟨fun c hc => ?_, hdigit⟩
        rw [List.eq_of_mem_replicate hc]
        decide
      · rw [if_pos rfl, Nat.ofDigitChars_append, Nat.ofDigitChars_replicate_zero, Nat.mul_zero,
          Nat.ofDigitChars_ten_toDigits]

/-- The digits of a decimal escape are all taken in, and no more than these: there are three of
them, or no digit follows. -/
theorem Spells.escapedByte? {digits : List Char} (hspells : Spells digits b)
    (hend : digits.length = 3 ∨ ∀ c ∈ following.head?, c.isDigit = false) :
    escapedByte? (digits ++ following) = some (b, following) := by
  have hrest : (following.take (3 - digits.length)).takeWhile Char.isDigit = [] := by
    rcases hend with hthree | hstop
    · simp [hthree]
    · cases following with
      | nil => simp
      | cons c more =>
          have hc := hstop c rfl
          cases 3 - digits.length <;> simp [hc]
  have htaken : ((digits ++ following).take 3).takeWhile Char.isDigit = digits := by
    rw [List.take_append, List.take_of_length_le hspells.length_le,
      List.takeWhile_append_of_pos hspells.isDigit, hrest, List.append_nil]
  have hdecimal : decimalByte? (digits ++ following) = some (b, following) := by
    have hbyte := b.toNat_lt
    simp only [decimalByte?, htaken, hspells.value]
    rw [if_neg (not_or.mpr ⟨hspells.ne_nil, by omega⟩), List.drop_left, UInt8.ofNat_toNat]
  obtain ⟨first, others, rfl⟩ := List.exists_cons_of_ne_nil hspells.ne_nil
  have hfirst := namedByte?_of_isDigit (hspells.isDigit first List.mem_cons_self)
  rw [List.cons_append] at hdecimal ⊢
  rw [Literal.escapedByte?, hfirst, hdecimal]

/-- What is written for a byte: a named escape, the byte itself or a numbered escape. -/
inductive Written (beforeDigit : Bool) (b : UInt8) : List Char → Prop
  | named {letter : Char} (hletter : namedByte? letter = some b) (hprintable : IsPrintable letter) :
      Written beforeDigit b ['\\', letter]
  | plain (hprintable : 0x20 ≤ b.toNat ∧ b.toNat < 0x7F) (hquote : b ≠ 34) (hbackslash : b ≠ 92) :
      Written beforeDigit b [Char.ofNat b.toNat]
  | numbered {digits : List Char} (hspells : Spells digits b)
      (hthree : beforeDigit → digits.length = 3) : Written beforeDigit b ('\\' :: digits)

theorem written_escapeByte (beforeDigit : Bool) (b : UInt8) :
    Written beforeDigit b (escapeByte beforeDigit b) := by
  unfold escapeByte
  split
  next letter hletter =>
    obtain ⟨hbyte, hprintable⟩ := namedByte?_of_escapeLetter? hletter
    exact .named hbyte hprintable
  next hnone =>
    split
    next hplain =>
      rw [Bool.and_eq_true, decide_eq_true_iff, decide_eq_true_iff] at hplain
      refine .plain hplain ?_ ?_
      · rintro rfl
        simp [escapeLetter?] at hnone
      · rintro rfl
        simp [escapeLetter?] at hnone
    next =>
      obtain ⟨digits, heq, hspells, hthree⟩ := numberedEscape_eq beforeDigit b
      rw [heq]
      exact .numbered hspells hthree

namespace Written

variable {beforeDigit : Bool} {text : List Char}

/-- A written byte is read back, unless a digit follows that its escape would take in. -/
theorem stringBody_append (hwritten : Written beforeDigit b text)
    (hend : beforeDigit = false → ∀ c ∈ following.head?, c.isDigit = false) :
    stringBody (text ++ following) =
      (stringBody following).map fun found => (b :: found.1, found.2) := by
  cases hwritten with
  | named hletter => exact stringBody_escaped (by simp [escapedByte?, hletter])
  | plain hprintable hquote hbackslash => exact stringBody_plain hprintable hquote hbackslash _
  | numbered hspells hthree =>
      refine stringBody_escaped (hspells.escapedByte? ?_)
      cases beforeDigit with
      | false => exact .inr (hend rfl)
      | true => exact .inl (hthree rfl)

/-- A digit stands in front only if the byte is one. -/
theorem isDigit_head (hwritten : Written beforeDigit b text) (hb : isDigitByte b = false) :
    ∀ c ∈ (text ++ following).head?, c.isDigit = false := by
  cases hwritten with
  | named => simp
  | numbered => simp
  | plain hprintable =>
      intro c hc
      obtain rfl : Char.ofNat b.toNat = c := Option.some.inj hc
      rw [← Bool.not_eq_true, Char.isDigit_iff_toNat, toNat_ofNat_toNat]
      simpa [isDigitByte] using hb

theorem isPrintable (hwritten : Written beforeDigit b text) : ∀ c ∈ text, IsPrintable c := by
  have hbackslash : IsPrintable '\\' := by decide
  cases hwritten with
  | named _ hprintable => simp [hbackslash, hprintable]
  | plain hprintable =>
      simpa [IsPrintable, toNat_ofNat_toNat] using hprintable
  | numbered hspells =>
      refine List.forall_mem_cons.mpr ⟨hbackslash, fun c hc => ?_⟩
      have hdigit : 48 ≤ c.toNat ∧ c.toNat ≤ 57 :=
        Char.isDigit_iff_toNat.mp (hspells.isDigit c hc)
      exact ⟨by omega, by omega⟩

end Written

end Escapes

/-- Only the first character after an escape matters to it, and that tells whether a digit
follows. -/
theorem stringBody_escape (bytes : Bytes) (rest : List Char) :
    stringBody (escape bytes ++ '"' :: rest) = some (bytes, rest) := by
  induction bytes with
  | nil => exact stringBody_quote rest
  | cons b bytes ih =>
      have hend : startsWithDigit bytes = false →
          ∀ c ∈ (escape bytes ++ '"' :: rest).head?, c.isDigit = false := by
        intro hdigit
        cases bytes with
        | nil => simp [escape]
        | cons next more =>
            rw [escape, List.append_assoc]
            exact (written_escapeByte _ next).isDigit_head hdigit
      rw [escape, List.append_assoc, (written_escapeByte _ b).stringBody_append hend, ih]
      rfl

theorem isPrintable_of_mem_escape {bytes : Bytes} {c : Char} (hc : c ∈ escape bytes) :
    IsPrintable c := by
  induction bytes with
  | nil => simp [escape] at hc
  | cons b bytes ih =>
      rcases List.mem_append.mp hc with hfirst | hrest
      · exact (written_escapeByte _ b).isPrintable c hfirst
      · exact ih hrest

/-- A string of bytes is read back from its literal, which is printable ASCII, and the reading
ends at the closing quote, whatever comes after it. -/
theorem quotedString_escape (bytes : Bytes) :
    (∀ rest, quotedString ('"' :: escape bytes ++ '"' :: rest) = some (bytes, rest)) ∧
      ∀ c ∈ escape bytes, IsPrintable c :=
  ⟨fun rest => stringBody_escape bytes rest, fun _ hc => isPrintable_of_mem_escape hc⟩

end LuaDump.Literal
