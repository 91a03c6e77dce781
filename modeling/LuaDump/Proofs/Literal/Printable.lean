import LuaDump.Constant.Inspect
import LuaDump.Proofs.Literal.Unambiguity

/-! # Printable texts

Numbers and constants are written in printable ASCII, whatever the bytes that they come from.
-/

namespace LuaDump

open Literal

/-- Whether all characters of a text are printable ASCII. -/
def Printable (text : String) : Prop :=
  ∀ c ∈ text.toList, IsPrintable c

instance : DecidablePred Printable :=
  fun text => decidable_of_iff (text.toList.all fun c => decide (IsPrintable c))
    (by simp [Printable])

section Texts

variable {text more : String}

@[simp]
theorem printable_append : Printable (text ++ more) ↔ Printable text ∧ Printable more := by
  simp only [Printable, String.toList_append, List.forall_mem_append]

@[simp]
theorem printable_ofList {chars : List Char} :
    Printable (String.ofList chars) ↔ ∀ c ∈ chars, IsPrintable c := by
  rw [Printable, String.toList_ofList]

@[simp]
theorem printable_toString : Printable (toString text) ↔ Printable text :=
  Iff.rfl

theorem printable_ite {p : Prop} [Decidable p] (htext : Printable text) (hmore : Printable more) :
    Printable (if p then text else more) := by
  split
  next => exact htext
  next => exact hmore

theorem printable_intercalate {sep : String} {texts : List String} (hsep : Printable sep)
    (htexts : ∀ text ∈ texts, Printable text) : Printable (String.intercalate sep texts) := by
  induction texts with
  | nil => simp +decide
  | cons text rest ih =>
      obtain ⟨htext, hrest⟩ := List.forall_mem_cons.mp htexts
      cases rest with
      | nil => simpa using htext
      | cons next rest => simpa [String.intercalate_cons_cons, htext, hsep] using ih hrest

end Texts

section Numbers

theorem isPrintable_of_mem_toDigits {n : Nat} : ∀ c ∈ Nat.toDigits 10 n, IsPrintable c :=
  fun _ hc => isPrintable_of_isNameChar (isNameChar_of_mem_toDigits hc)

@[simp]
theorem printable_repr (n : Int) : Printable n.repr := by
  have hrepr : n.repr = toString n := rfl
  rw [hrepr, Printable, toList_toString]
  split
  next => exact List.forall_mem_cons.mpr ⟨by decide, isPrintable_of_mem_toDigits⟩
  next => exact isPrintable_of_mem_toDigits

@[simp]
theorem printable_repr_nat (n : Nat) : Printable n.repr :=
  printable_repr (n : Int)

theorem printable_hexText (width : Nat) (n : Int) : Printable (hexText width n) := by
  have hdigits : ∀ width, ∀ c ∈ hexDigits width n.natAbs, IsPrintable c :=
    fun width c hc => isPrintable_of_isNameChar (isNameChar_of_mem_hexDigits width _ c hc)
  rw [hexText]
  apply printable_ite
  · exact printable_ofList.mpr (List.forall_mem_cons.mpr ⟨by decide, hdigits _⟩)
  · exact printable_ofList.mpr (hdigits _)

end Numbers

namespace Decimal

variable {digits : List Char}

theorem isPrintable_of_mem_zeros {count : Nat} : ∀ c ∈ zeros count, IsPrintable c := by
  intro c hc
  rw [List.eq_of_mem_replicate hc]
  decide

theorem isPrintable_of_mem_significantDigits (d : Decimal) :
    ∀ c ∈ d.significantDigits, IsPrintable c := by
  have hsubset : dropTrailingZeros (Nat.toDigits 10 d.coefficient) ⊆
      Nat.toDigits 10 d.coefficient := by
    intro c hc
    exact List.mem_reverse.mp ((List.dropWhile_suffix _).subset (List.mem_reverse.mp hc))
  unfold significantDigits
  split
  next => exact List.forall_mem_singleton.mpr (by decide)
  next => exact fun c hc => isPrintable_of_mem_toDigits c (hsubset hc)

theorem printable_markText (mark : WholeMark) : Printable mark.text := by
  cases mark with
  | pointZero => decide
  | bare => decide

theorem printable_positional (mark : WholeMark) (hdigits : ∀ c ∈ digits, IsPrintable c)
    (point : Int) : Printable (positional mark digits point) := by
  have hpoint : IsPrintable '.' := by decide
  have htake : ∀ c ∈ digits.take point.toNat, IsPrintable c :=
    fun c hc => hdigits c (List.mem_of_mem_take hc)
  have hdrop : ∀ c ∈ digits.drop point.toNat, IsPrintable c :=
    fun c hc => hdigits c (List.mem_of_mem_drop hc)
  rw [positional]
  refine printable_ite ?_ (printable_ite ?_ ?_)
  · simp only [printable_ofList, List.forall_mem_append, List.forall_mem_cons]
    exact ⟨⟨by decide, hpoint, isPrintable_of_mem_zeros⟩, hdigits⟩
  · simp only [printable_append, printable_ofList, List.forall_mem_append]
    exact ⟨⟨hdigits, isPrintable_of_mem_zeros⟩, printable_markText mark⟩
  · simp only [printable_ofList, List.forall_mem_append, List.forall_mem_cons]
    exact ⟨htake, hpoint, hdrop⟩

theorem printable_exponentText (exponent : Int) : Printable (exponentText exponent) := by
  rw [exponentText, printable_append, printable_ofList, List.forall_mem_append]
  exact ⟨printable_ite (by decide) (by decide), isPrintable_of_mem_zeros,
    isPrintable_of_mem_toDigits⟩

theorem printable_scientific (hdigits : ∀ c ∈ digits, IsPrintable c) (exponent : Int) :
    Printable (scientific digits exponent) := by
  have htake : ∀ c ∈ digits.take 1, IsPrintable c := fun c hc => hdigits c (List.mem_of_mem_take hc)
  have hdrop : ∀ c ∈ digits.drop 1, IsPrintable c := fun c hc => hdigits c (List.mem_of_mem_drop hc)
  simp only [scientific, printable_append, printable_ofList, List.forall_mem_append]
  refine ⟨⟨⟨htake, ?_⟩, by decide⟩, printable_exponentText exponent⟩
  split
  next => simp
  next => exact List.forall_mem_cons.mpr ⟨by decide, hdrop⟩

theorem printable_text (mark : WholeMark) (d : Decimal) : Printable (d.text mark) := by
  have hdigits := isPrintable_of_mem_significantDigits d
  exact printable_ite (printable_positional mark hdigits _) (printable_scientific hdigits _)

end Decimal

namespace Binary64

theorem printable_sign (x : Binary64) : Printable (if x.isNegative then "-" else "") :=
  printable_ite (by decide) (by decide)

theorem printable_textWith (mark : Decimal.WholeMark) (x : Binary64) :
    Printable (x.textWith mark) := by
  apply printable_ite
  · decide
  · exact printable_append.mpr ⟨printable_sign x,
      printable_ite (by decide) (Decimal.printable_text mark _)⟩

theorem printable_signedTextWith (mark : Decimal.WholeMark) (x : Binary64) :
    Printable (x.signedTextWith mark) := by
  have htext := printable_textWith mark x
  exact printable_ite htext (printable_append.mpr ⟨by decide, htext⟩)

end Binary64

theorem Number.printable_text (number : Number) : Printable number.text := by
  cases number with
  | integer value => exact printable_repr value
  | float value => exact Binary64.printable_textWith _ value

namespace Literal

theorem printable_string (bytes : Bytes) : Printable (Literal.string bytes) := by
  rw [Literal.string, printable_ofList, List.forall_mem_append, List.forall_mem_cons]
  exact ⟨⟨by decide, fun c hc => isPrintable_of_mem_escape hc⟩,
    List.forall_mem_singleton.mpr (by decide)⟩

theorem printable_float (x : Binary64) : Printable (Literal.float x) := by
  rw [Literal.float]
  refine printable_ite (by decide) (printable_ite ?_ (printable_ite ?_ ?_))
  · exact printable_ite (by decide) (by decide)
  · rw [Binary64.wholeText, printable_append, printable_append]
    exact ⟨⟨x.printable_sign, printable_repr_nat _⟩, by decide⟩
  · exact Binary64.printable_textWith _ x

theorem printable_name {key : Constant} {name : String} (hname : key.name? = some name) :
    Printable name := by
  obtain ⟨-, first, rest, heq, hfirst, hrest⟩ := of_name? hname
  rw [Printable, heq, List.forall_mem_cons]
  exact ⟨isPrintable_of_isNameChar (isNameChar_of_isNameStart hfirst),
    fun c hc => isPrintable_of_isNameChar (hrest c hc)⟩

end Literal

namespace Constant

mutual

theorem printable_literal : ∀ constant : Constant, Printable constant.literal
  | .nil => by decide
  | .boolean value => by
      rw [literal]
      exact printable_ite (by decide) (by decide)
  | .number (.integer value) => by
      rw [literal]
      exact printable_repr value
  | .number (.float value) => by
      rw [literal]
      exact printable_float value
  | .string bytes => by
      rw [literal]
      exact printable_string bytes
  | .proto index => by simp +decide [literal]
  | .importPath id => by simp +decide [literal, printable_hexText]
  | .vector components => by
      have hcomponents : ∀ text ∈ components.map Literal.float, Printable text :=
        List.forall_mem_map.mpr fun x _ => printable_float x
      simp +decide [literal, printable_intercalate _ hcomponents]
  | .complex re im => by
      simp +decide [literal, printable_float re, im.printable_signedTextWith]
  | .table array hash => by
      have hparts : ∀ text ∈ literals array ++ literalEntries hash, Printable text :=
        List.forall_mem_append.mpr ⟨printable_literals array, printable_literalEntries hash⟩
      simp +decide [literal, printable_intercalate _ hparts]

theorem printable_literals : ∀ constants : List Constant, ∀ text ∈ literals constants,
    Printable text
  | [] => by simp [literals]
  | constant :: rest => by
      rw [literals]
      exact List.forall_mem_cons.mpr ⟨printable_literal constant, printable_literals rest⟩

theorem printable_literalEntries : ∀ entries : List (Constant × Constant),
    ∀ text ∈ literalEntries entries, Printable text
  | [] => by simp [literalEntries]
  | (key, value) :: rest => by
      rw [literalEntries]
      refine List.forall_mem_cons.mpr ⟨?_, printable_literalEntries rest⟩
      split
      next name hname =>
        simp +decide [printable_name hname, printable_literal value]
      next => simp +decide [printable_literal key, printable_literal value]

end

end Constant

end LuaDump
