import Mathlib.Tactic.SplitIfs
import LuaDump.Proofs.Literal.QuotedString
import LuaDump.Text.Quoted

/-! # Quoted bytes

How the byte strings of messages are read: between quotes of either kind, with a backslash before
a quote, a backslash, the letter of a control character, or an `x` and two digits in base sixteen.
Every string of bytes is read back from its quoted form, whatever follows the closing quote.
-/

namespace LuaDump

/-- A number below 256 has two digits in base sixteen. -/
theorem hexDigits_two {n : Nat} (hn : n < 256) :
    hexDigits 2 n = [Nat.digitChar (n / 16), Nat.digitChar (n % 16)] := by
  rw [hexDigits]
  rcases Nat.lt_or_ge n 16 with hsmall | hlarge
  · rw [Nat.toDigits_of_lt_base hsmall, Nat.div_eq_of_lt hsmall, Nat.mod_eq_of_lt hsmall]
    rfl
  · rw [Nat.toDigits_of_base_le (by decide) hlarge,
      Nat.toDigits_of_lt_base (Nat.div_lt_of_lt_mul hn)]
    rfl

namespace Quoted

open Literal (toNat_ofNat_toNat)

/-- A quote of either kind. -/
def IsQuote (c : Char) : Prop :=
  c = '\'' ∨ c = '"'

/-- The value of a digit in base sixteen. -/
def digitValue? (c : Char) : Option Nat :=
  ['0', '1', '2', '3', '4', '5', '6', '7', '8', '9', 'a', 'b', 'c', 'd', 'e', 'f'].idxOf? c

/-- The byte that two digits in base sixteen spell. -/
def pair? (high low : Char) : Option UInt8 :=
  (digitValue? high).bind fun high => (digitValue? low).map fun low =>
    UInt8.ofNat (16 * high + low)

/-- The first byte of a text, and what follows it: a printable character stands for its code, and
a backslash starts an escape. -/
def unit? : List Char → Option (UInt8 × List Char)
  | [] => none
  | '\\' :: 't' :: rest => some (9, rest)
  | '\\' :: 'n' :: rest => some (10, rest)
  | '\\' :: 'r' :: rest => some (13, rest)
  | '\\' :: 'x' :: high :: low :: rest => (pair? high low).map fun b => (b, rest)
  | '\\' :: c :: rest => if c ∈ ['\\', '\'', '"'] then some (UInt8.ofNat c.toNat, rest) else none
  | c :: rest =>
    if c ≠ '\\' ∧ 0x20 ≤ c.toNat ∧ c.toNat < 0x7F then some (UInt8.ofNat c.toNat, rest) else none

theorem length_lt_of_unit? {text rest : List Char} {b : UInt8}
    (hsome : unit? text = some (b, rest)) : rest.length < text.length := by
  unfold unit? at hsome
  split at hsome <;> grind [Option.map_eq_some_iff]

/-- The bytes up to the closing quote, and what follows it. -/
def units? (quote : Char) (text : List Char) : Option (Bytes × List Char) :=
  if text.head? = some quote then some ([], text.tail)
  else
    match _ : unit? text with
    | none => none
    | some (b, rest) => (units? quote rest).map fun found => (b :: found.1, found.2)
termination_by text.length
decreasing_by exact length_lt_of_unit? ‹_›

/-- A byte string in quotes, behind its mark. -/
def read? : List Char → Option (Bytes × List Char)
  | 'b' :: '\'' :: rest => units? '\'' rest
  | 'b' :: '"' :: rest => units? '"' rest
  | _ => none

section Units

variable {quote : Char} {b : UInt8}

theorem digitValue?_digitChar : ∀ n < 16, digitValue? (Nat.digitChar n) = some n := by
  decide

theorem pair?_digitChars (b : UInt8) :
    pair? (Nat.digitChar (b.toNat / 16)) (Nat.digitChar (b.toNat % 16)) = some b := by
  have hb := b.toNat_lt
  rw [pair?, digitValue?_digitChar _ (by omega), digitValue?_digitChar _ (by omega),
    Option.bind_some, Option.map_some, Nat.div_add_mod, UInt8.ofNat_toNat]

theorem eq_of_ofNat_eq {c : Char} (hc : Char.ofNat b.toNat = c) : b = UInt8.ofNat c.toNat := by
  rw [← hc, toNat_ofNat_toNat, UInt8.ofNat_toNat]

theorem unit?_codeEscape (b : UInt8) (rest : List Char) :
    unit? (codeEscape b.toNat ++ rest) = some (b, rest) := by
  have hb := b.toNat_lt
  rw [codeEscape, if_pos (by omega), hexDigits_two hb]
  simp [unit?, pair?_digitChars]

theorem unit?_namedEscape? (hquote : IsQuote quote) {escape : List Char}
    (hescape : namedEscape? quote (Char.ofNat b.toNat) = some escape) (rest : List Char) :
    unit? (escape ++ rest) = some (b, rest) ∧ escape.head? = some '\\' := by
  have hescaped : ∀ {c letter : Char}, Char.ofNat b.toNat = c →
      unit? ('\\' :: letter :: rest) = some (UInt8.ofNat c.toNat, rest) →
        some ['\\', letter] = some escape →
          unit? (escape ++ rest) = some (b, rest) ∧ escape.head? = some '\\' := by
    rintro c letter hc hunit heq
    obtain rfl := Option.some.inj heq
    exact ⟨eq_of_ofNat_eq hc ▸ hunit, rfl⟩
  unfold namedEscape? at hescape
  split_ifs at hescape with hsame hbackslash htab hfeed hreturn
  · rcases hquote with rfl | rfl
    · exact hescaped hsame rfl (hsame ▸ hescape)
    · exact hescaped hsame rfl (hsame ▸ hescape)
  · exact hescaped hbackslash rfl hescape
  · exact hescaped htab rfl hescape
  · exact hescaped hfeed rfl hescape
  · exact hescaped hreturn rfl hescape

theorem ne_of_namedEscape?_eq_none {c : Char} (hnone : namedEscape? quote c = none) :
    c ≠ quote ∧ c ≠ '\\' := by
  constructor
  · rintro rfl
    simp [namedEscape?] at hnone
  · rintro rfl
    simp [namedEscape?] at hnone

theorem unit?_plain {c : Char} (hbackslash : c ≠ '\\') (hlow : 0x20 ≤ c.toNat)
    (hhigh : c.toNat < 0x7F) (rest : List Char) :
    unit? (c :: rest) = some (UInt8.ofNat c.toNat, rest) := by
  simp [unit?, hbackslash, hlow, hhigh]

/-- Every byte is read back from its escape, which does not begin with the closing quote. -/
theorem unit?_escapeByte (hquote : IsQuote quote) (b : UInt8) (rest : List Char) :
    unit? (escapeByte quote b ++ rest) = some (b, rest) ∧
      (escapeByte quote b ++ rest).head? ≠ some quote := by
  have hbackslash : some '\\' ≠ some quote := by
    rcases hquote with rfl | rfl <;> decide
  unfold escapeByte
  split
  next escape hescape =>
    obtain ⟨hunit, hhead⟩ := unit?_namedEscape? hquote hescape rest
    exact ⟨hunit, by rwa [List.head?_append, hhead, Option.some_or]⟩
  next hnone =>
    obtain ⟨hne, hplain⟩ := ne_of_namedEscape?_eq_none hnone
    split
    next =>
      have hcode : b.toNat ≤ 0xFF := Nat.le_of_lt_succ b.toNat_lt
      exact ⟨unit?_codeEscape b rest, by simpa [codeEscape, hcode] using hbackslash⟩
    next hprintable =>
      have hrange : 0x20 ≤ b.toNat ∧ b.toNat < 0x7F := by
        simpa [UInt8.lt_iff_toNat_lt, UInt8.le_iff_toNat_le] using hprintable
      rw [List.singleton_append]
      refine ⟨?_, by simpa using hne⟩
      rw [← toNat_ofNat_toNat] at hrange
      rw [unit?_plain hplain hrange.1 hrange.2, toNat_ofNat_toNat, UInt8.ofNat_toNat]

theorem units?_escapeByte (hquote : IsQuote quote) (b : UInt8) (rest : List Char) :
    units? quote (escapeByte quote b ++ rest) =
      (units? quote rest).map fun found => (b :: found.1, found.2) := by
  obtain ⟨hunit, hhead⟩ := unit?_escapeByte hquote b rest
  rw [units?, if_neg hhead]
  split
  next hnone => simp [hunit] at hnone
  next found more hsome =>
    obtain ⟨rfl, rfl⟩ := Prod.mk.inj (Option.some.inj (hunit.symm.trans hsome))
    rfl

theorem units?_flatMap_escapeByte (hquote : IsQuote quote) (content : Bytes)
    (rest : List Char) :
    units? quote (content.flatMap (escapeByte quote) ++ quote :: rest) = some (content, rest) := by
  induction content with
  | nil =>
      rw [List.flatMap_nil, List.nil_append, units?, List.head?_cons, if_pos rfl, List.tail_cons]
  | cons b content ih =>
      rw [List.flatMap_cons, List.append_assoc, units?_escapeByte hquote, ih, Option.map_some]

end Units

theorem isQuote_quoteFor (content : List Char) : IsQuote (quoteFor content) := by
  unfold quoteFor
  split
  next => exact .inr rfl
  next => exact .inl rfl

/-- Every string of bytes is read back from its quoted form. -/
theorem read?_bytes (content : Bytes) (rest : List Char) :
    read? ((bytes content).toList ++ rest) = some (content, rest) := by
  have hquote := isQuote_quoteFor (content.map fun b => Char.ofNat b.toNat)
  have hunits := units?_flatMap_escapeByte hquote content rest
  rw [bytes]
  generalize quoteFor (content.map fun b => Char.ofNat b.toNat) = quote at hquote hunits ⊢
  rw [String.toList_ofList, List.cons_append, List.cons_append, List.append_assoc,
    List.singleton_append]
  rcases hquote with rfl | rfl
  · exact hunits
  · exact hunits

end Quoted

end LuaDump
