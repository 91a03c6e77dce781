import LuaDump.Proofs.Literal.Name

/-! # Literals are unambiguous

A reader for literals: it tells a number, a word, a string and a table by their first characters,
and the items of a table from its entries by the equals sign. Every constant without floats is
read back from its literal, so no two of them have the same one.
-/

namespace LuaDump

namespace Literal

/-- The value of a digit in base sixteen. -/
def hexDigit (c : Char) : Nat :=
  if c.isDigit then c.toNat - 48 else c.toNat - 87

/-- The number that digits in base sixteen stand for. -/
def hexValue (digits : List Char) : Nat :=
  digits.foldl (fun n c => n * 16 + hexDigit c) 0

/-- An integer, whose digits have the given value, and what follows it. -/
def readSigned (value : List Char → Nat) (text : List Char) : Int × List Char :=
  match text with
  | '-' :: rest => (-(value (rest.takeWhile isNameChar)), rest.dropWhile isNameChar)
  | _ => (value (text.takeWhile isNameChar), text.dropWhile isNameChar)

def readDecimal (text : List Char) : Int × List Char :=
  readSigned (Nat.ofDigitChars 10 · 0) text

/-- The constant that starts with a word. -/
def afterWord (word text : List Char) : Numeral.Cut Constant :=
  if word = "nil".toList then some (.nil, text)
  else if word = "true".toList then some (.boolean true, text)
  else if word = "false".toList then some (.boolean false, text)
  else if word = "function".toList then
    let (index, rest) := readDecimal (text.drop 1)
    some (.proto index, rest.drop 1)
  else if word = "import".toList then
    let (id, rest) := readSigned hexValue (text.drop 3)
    some (.importPath id, rest.drop 1)
  else none

/-- A constant other than a table. -/
def readScalar (text : List Char) : Numeral.Cut Constant :=
  match text with
  | [] => none
  | '"' :: rest => (stringBody rest).map fun found => (.string found.1, found.2)
  | c :: _ =>
    if c = '-' ∨ c.isDigit then
      let (value, rest) := readDecimal text
      some (.integer value, rest)
    else afterWord (text.takeWhile isNameChar) (text.dropWhile isNameChar)

/-- A bare name and an equals sign. -/
def bareKey? (text : List Char) : Numeral.Cut Bytes :=
  match text.dropWhile isNameChar with
  | ' ' :: '=' :: ' ' :: rest => some (nameBytes (text.takeWhile isNameChar), rest)
  | _ => none

/-- A way to read constants. -/
abbrev Reader := List Char → Numeral.Cut Constant

/-- The array part and the hash part of a table. -/
abbrev Parts := List Constant × List (Constant × Constant)

/-- An item or an entry of a table. -/
inductive Piece where
  | item (value : Constant)
  | entry (key value : Constant)

/-- A piece as source text; a key that is a name stands bare. -/
def Piece.text : Piece → String
  | .item value => value.literal
  | .entry key value =>
    match key.name? with
    | some name => name ++ " = " ++ value.literal
    | none => "[" ++ key.literal ++ "] = " ++ value.literal

/-- The parts of a table with a piece in front of the others. -/
def Piece.before (parts : Parts) : Piece → Parts
  | .item value => (value :: parts.1, parts.2)
  | .entry key value => (parts.1, (key, value) :: parts.2)

/-- A piece of a table, in which `read` reads the constants. -/
def readPiece (read : Reader) (text : List Char) : Option (Piece × List Char) :=
  match text with
  | '[' :: rest => do
    let (key, rest) ← read rest
    let (value, rest) ← read (rest.drop 4)
    some (.entry key value, rest)
  | _ =>
    match bareKey? text with
    | some (name, rest) => do
      let (value, rest) ← read rest
      some (.entry (.string name) value, rest)
    | none => do
      let (value, rest) ← read text
      some (.item value, rest)

/-- The text behind a comma, if it starts with one. -/
def skipComma : List Char → List Char
  | ',' :: ' ' :: rest => rest
  | text => text

/-- The pieces up to the closing brace, fewer than `rounds` of them. -/
def readParts (read : Reader) : (rounds : Nat) → List Char → Option (Parts × List Char)
  | 0, _ => none
  | rounds + 1, text =>
    match skipComma text with
    | '\x7d' :: rest => some (([], []), rest)
    | text => do
      let (piece, rest) ← readPiece read text
      let (others, rest) ← readParts read rounds rest
      some (piece.before others, rest)

/-- A constant. Its tables nest less deep than `bound` and have fewer pieces. -/
def readConstant : (bound : Nat) → List Char → Option (Constant × List Char)
  | 0, _ => none
  | bound + 1, text =>
    match text with
    | '\x7b' :: rest => do
      let (parts, rest) ← readParts (readConstant bound) bound rest
      some (.table parts.1 parts.2, rest)
    | _ => readScalar text

/-- What may come after a constant: nothing, the next piece of a table or a closing bracket. -/
def Closes (rest : List Char) : Prop :=
  ∀ c ∈ rest.head?, c = ',' ∨ c = '\x7d' ∨ c = ']'

/-- The text does not start with a character of a name. -/
def Stops (rest : List Char) : Prop :=
  ∀ c ∈ rest.head?, isNameChar c = false

theorem stops_cons {c : Char} (hc : isNameChar c = false) (rest : List Char) :
    Stops (c :: rest) := by
  simpa [Stops] using hc

theorem Closes.stops {rest : List Char} (hrest : Closes rest) : Stops rest := by
  intro c hc
  rcases hrest c hc with rfl | rfl | rfl <;> decide

section Words

variable {word rest : List Char}

theorem takeWhile_word (hword : ∀ c ∈ word, isNameChar c) (hrest : Stops rest) :
    (word ++ rest).takeWhile isNameChar = word := by
  rw [List.takeWhile_append_of_pos hword]
  cases rest with
  | nil => simp
  | cons c rest => simp [hrest c rfl]

theorem dropWhile_word (hword : ∀ c ∈ word, isNameChar c) (hrest : Stops rest) :
    (word ++ rest).dropWhile isNameChar = rest := by
  rw [List.dropWhile_append_of_pos hword]
  cases rest with
  | nil => simp
  | cons c rest => simp [hrest c rfl]

variable {value : List Char → Nat}

theorem readSigned_minus (hword : ∀ c ∈ word, isNameChar c) (hrest : Stops rest) :
    readSigned value ('-' :: word ++ rest) = (-(value word : Int), rest) := by
  rw [List.cons_append, readSigned, takeWhile_word hword hrest, dropWhile_word hword hrest]

theorem readSigned_digits (hword : ∀ c ∈ word, isNameChar c) (hne : word ≠ [])
    (hrest : Stops rest) : readSigned value (word ++ rest) = ((value word : Int), rest) := by
  unfold readSigned
  split
  next more heq =>
    obtain ⟨first, others, rfl⟩ := List.exists_cons_of_ne_nil hne
    obtain ⟨rfl, -⟩ := List.cons.inj heq
    exact absurd (hword '-' List.mem_cons_self) (by decide)
  next => rw [takeWhile_word hword hrest, dropWhile_word hword hrest]

theorem isNameChar_of_isDigit {c : Char} (hc : c.isDigit) : isNameChar c := by
  simp [isNameChar, Char.isAlphanum, hc]

theorem isNameChar_of_mem_toDigits {c : Char} {n : Nat} (hc : c ∈ Nat.toDigits 10 n) :
    isNameChar c :=
  isNameChar_of_isDigit (Nat.isDigit_of_mem_toDigits (by decide) (by decide) hc)

/-- The text of an integer. -/
theorem toList_toString (n : Int) : (toString n).toList =
    if n < 0 then '-' :: Nat.toDigits 10 n.natAbs else Nat.toDigits 10 n.natAbs := by
  have hrepr : toString n = n.repr := rfl
  rw [hrepr, Int.repr_eq_if]
  by_cases hn : n < 0
  · have habs : (-n).toNat = n.natAbs := by omega
    rw [if_neg (by omega), if_pos hn, String.toList_append, Nat.repr_eq_ofList_toDigits, habs]
    simp
  · have habs : n.toNat = n.natAbs := by omega
    rw [if_pos (by omega), if_neg hn, Nat.repr_eq_ofList_toDigits, String.toList_ofList, habs]

theorem readDecimal_toString (n : Int) (hrest : Stops rest) :
    readDecimal ((toString n).toList ++ rest) = (n, rest) := by
  rw [toList_toString, readDecimal]
  split
  next hneg =>
    rw [readSigned_minus (fun c => isNameChar_of_mem_toDigits) hrest, Nat.ofDigitChars_ten_toDigits]
    simp only [Prod.mk.injEq, and_true]
    omega
  next hpos =>
    rw [readSigned_digits (fun c => isNameChar_of_mem_toDigits) Nat.toDigits_ne_nil hrest,
      Nat.ofDigitChars_ten_toDigits]
    simp only [Prod.mk.injEq, and_true]
    omega

theorem hexDigit_digitChar : ∀ n < 16, hexDigit (Nat.digitChar n) = n := by
  decide

theorem isNameChar_digitChar : ∀ n < 16, isNameChar (Nat.digitChar n) := by
  decide

theorem hexValue_toDigits (n : Nat) : hexValue (Nat.toDigits 16 n) = n := by
  induction n using Nat.strongRecOn with
  | ind n ih =>
      by_cases hn : n < 16
      · rw [Nat.toDigits_of_lt_base hn]
        simpa [hexValue] using hexDigit_digitChar n hn
      · have hlead := ih (n / 16) (by omega)
        rw [hexValue] at hlead
        rw [Nat.toDigits_of_base_le (by decide) (by omega), hexValue, List.foldl_append, hlead,
          List.foldl_cons, List.foldl_nil, hexDigit_digitChar _ (Nat.mod_lt n (by decide))]
        omega

theorem isNameChar_of_mem_toDigits_sixteen (n : Nat) : ∀ c ∈ Nat.toDigits 16 n, isNameChar c := by
  induction n using Nat.strongRecOn with
  | ind n ih =>
      by_cases hn : n < 16
      · rw [Nat.toDigits_of_lt_base hn]
        simpa using isNameChar_digitChar n hn
      · rw [Nat.toDigits_of_base_le (by decide) (by omega)]
        refine List.forall_mem_append.mpr ⟨ih (n / 16) (by omega), ?_⟩
        simpa using isNameChar_digitChar (n % 16) (Nat.mod_lt n (by decide))

/-- The zeros in front do not change the value. -/
theorem hexValue_hexDigits (width n : Nat) : hexValue (hexDigits width n) = n := by
  have hzeros : ∀ count,
      (List.replicate count '0').foldl (fun n c => n * 16 + hexDigit c) 0 = 0 := by
    intro count
    induction count with
    | zero => rfl
    | succ count ih => simpa [List.replicate_succ, hexDigit] using ih
  rw [hexDigits, hexValue, List.foldl_append, hzeros, ← hexValue, hexValue_toDigits]

theorem isNameChar_of_mem_hexDigits (width n : Nat) : ∀ c ∈ hexDigits width n, isNameChar c := by
  refine List.forall_mem_append.mpr ⟨fun c hc => ?_, isNameChar_of_mem_toDigits_sixteen n⟩
  rw [List.eq_of_mem_replicate hc]
  decide

theorem readSigned_hexText (width : Nat) (n : Int) (hrest : Stops rest) :
    readSigned hexValue ((hexText width n).toList ++ rest) = (n, rest) := by
  unfold hexText
  split
  next hneg =>
    rw [String.toList_ofList, readSigned_minus (isNameChar_of_mem_hexDigits _ _) hrest,
      hexValue_hexDigits]
    simp only [Prod.mk.injEq, and_true]
    omega
  next hpos =>
    have hne : hexDigits width n.natAbs ≠ [] := by simp [hexDigits, Nat.toDigits_ne_nil]
    rw [String.toList_ofList, readSigned_digits (isNameChar_of_mem_hexDigits _ _) hne hrest,
      hexValue_hexDigits]
    simp only [Prod.mk.injEq, and_true]
    omega

theorem readScalar_number {c : Char} (hc : c = '-' ∨ c.isDigit) (rest : List Char) :
    readScalar (c :: rest) =
      some (.integer (readDecimal (c :: rest)).1, (readDecimal (c :: rest)).2) := by
  unfold readScalar
  split
  next heq => exact absurd heq (by simp)
  next heq =>
    obtain ⟨rfl, -⟩ := List.cons.inj heq
    exact absurd hc (by decide)
  next heq =>
    obtain ⟨rfl, -⟩ := List.cons.inj heq
    rw [if_pos hc]

theorem readScalar_word {first : Char} (hfirst : ¬ (first = '-' ∨ first.isDigit))
    (hquote : first ≠ '"') (hword : (first :: word).all isNameChar) (hrest : Stops rest) :
    readScalar (first :: word ++ rest) = afterWord (first :: word) rest := by
  have hchars := List.all_eq_true.mp hword
  unfold readScalar
  split
  next heq => exact absurd heq (by simp)
  next heq => exact absurd (List.cons.inj heq).1 hquote
  next heq =>
    obtain ⟨rfl, -⟩ := List.cons.inj heq
    rw [if_neg hfirst, takeWhile_word hchars hrest, dropWhile_word hchars hrest]

end Words

end Literal

namespace Constant

/-- No float occurs in the constant. -/
inductive Floatless : Constant → Prop
  | nil : Floatless .nil
  | boolean (value : Bool) : Floatless (.boolean value)
  | integer (value : Int) : Floatless (.integer value)
  | string (bytes : Bytes) : Floatless (.string bytes)
  | proto (index : Int) : Floatless (.proto index)
  | importPath (id : Int) : Floatless (.importPath id)
  | table {array : List Constant} {hash : List (Constant × Constant)}
      (harray : ∀ item ∈ array, Floatless item) (hkeys : ∀ entry ∈ hash, Floatless entry.1)
      (hvalues : ∀ entry ∈ hash, Floatless entry.2) : Floatless (.table array hash)

end Constant

namespace Literal

section Scalars

variable {rest : List Char}

theorem readScalar_nil (hrest : Stops rest) :
    readScalar (Constant.nil.literal.toList ++ rest) = some (.nil, rest) := by
  simp only [Constant.literal]
  exact readScalar_word (by decide) (by decide) (by decide) hrest

theorem readScalar_boolean (value : Bool) (hrest : Stops rest) :
    readScalar ((Constant.boolean value).literal.toList ++ rest) = some (.boolean value, rest) := by
  simp only [Constant.literal]
  cases value
  · exact readScalar_word (by decide) (by decide) (by decide) hrest
  · exact readScalar_word (by decide) (by decide) (by decide) hrest

theorem readScalar_string (bytes : Bytes) (rest : List Char) :
    readScalar ((Constant.string bytes).literal.toList ++ rest) = some (.string bytes, rest) := by
  simp only [Constant.literal, Literal.string, String.toList_ofList, List.append_assoc,
    List.cons_append, List.nil_append, readScalar, stringBody_escape, Option.map_some]

theorem readScalar_integer (value : Int) (hrest : Stops rest) :
    readScalar ((Constant.integer value).literal.toList ++ rest) = some (.integer value, rest) := by
  have hread := readDecimal_toString value hrest
  have hfirst : ∃ c more, (toString value).toList = c :: more ∧ (c = '-' ∨ c.isDigit) := by
    rw [toList_toString]
    split
    · exact ⟨'-', _, rfl, .inl rfl⟩
    · obtain ⟨c, more, hdigits⟩ :=
        List.exists_cons_of_ne_nil (Nat.toDigits_ne_nil (n := value.natAbs) (b := 10))
      have hc : c ∈ Nat.toDigits 10 value.natAbs := hdigits ▸ List.mem_cons_self
      exact ⟨c, more, hdigits, .inr (Nat.isDigit_of_mem_toDigits (by decide) (by decide) hc)⟩
  obtain ⟨c, more, heq, hc⟩ := hfirst
  simp only [Constant.integer, Constant.literal, number]
  rw [heq, List.cons_append] at hread ⊢
  rw [readScalar_number hc, hread]
  rfl

theorem toList_proto (index : Int) : (Constant.proto index).literal.toList =
    "function".toList ++ '<' :: ((toString index).toList ++ ['>']) := by
  simp [Constant.literal, toString]

theorem readScalar_proto (index : Int) (rest : List Char) :
    readScalar ((Constant.proto index).literal.toList ++ rest) = some (.proto index, rest) := by
  have hread := readDecimal_toString index (stops_cons (by decide : isNameChar '>' = false) rest)
  calc readScalar ((Constant.proto index).literal.toList ++ rest)
    _ = readScalar ("function".toList ++ '<' :: ((toString index).toList ++ '>' :: rest)) := by
      simp only [toList_proto, List.append_assoc, List.cons_append, List.nil_append]
    _ = afterWord "function".toList ('<' :: ((toString index).toList ++ '>' :: rest)) :=
      readScalar_word (by decide) (by decide) (by decide) (stops_cons (by decide) _)
    _ = some (.proto (readDecimal ((toString index).toList ++ '>' :: rest)).1,
          (readDecimal ((toString index).toList ++ '>' :: rest)).2.drop 1) := rfl
    _ = some (.proto index, rest) := by rw [hread, List.drop_one, List.tail_cons]

theorem toList_importPath (id : Int) : (Constant.importPath id).literal.toList =
    "import".toList ++ '<' :: '0' :: 'x' :: ((hexText 8 id).toList ++ ['>']) := by
  simp [Constant.literal]

theorem readScalar_importPath (id : Int) (rest : List Char) :
    readScalar ((Constant.importPath id).literal.toList ++ rest) = some (.importPath id, rest) := by
  have hread := readSigned_hexText 8 id (stops_cons (by decide : isNameChar '>' = false) rest)
  calc readScalar ((Constant.importPath id).literal.toList ++ rest)
    _ = readScalar ("import".toList ++
          '<' :: '0' :: 'x' :: ((hexText 8 id).toList ++ '>' :: rest)) := by
      simp only [toList_importPath, List.append_assoc, List.cons_append, List.nil_append]
    _ = afterWord "import".toList
          ('<' :: '0' :: 'x' :: ((hexText 8 id).toList ++ '>' :: rest)) :=
      readScalar_word (by decide) (by decide) (by decide) (stops_cons (by decide) _)
    _ = some (.importPath (readSigned hexValue ((hexText 8 id).toList ++ '>' :: rest)).1,
          (readSigned hexValue ((hexText 8 id).toList ++ '>' :: rest)).2.drop 1) := rfl
    _ = some (.importPath id, rest) := by rw [hread, List.drop_one, List.tail_cons]

end Scalars

section Pieces

/-- What a literal looks like: characters of a name, and then the end or one of a few marks. -/
inductive Shaped : List Char → Prop
  | word {word : List Char} (hne : word ≠ []) (hword : ∀ c ∈ word, isNameChar c) : Shaped word
  | marked {word : List Char} {mark : Char} (hword : ∀ c ∈ word, isNameChar c)
      (hmark : mark ∈ ['<', '"', '-', '\x7b']) (more : List Char) : Shaped (word ++ mark :: more)

theorem toList_table (array : List Constant) (hash : List (Constant × Constant)) :
    (Constant.table array hash).literal.toList =
      '\x7b' :: ((String.intercalate ", "
        (Constant.literals array ++ Constant.literalEntries hash)).toList ++ ['\x7d']) := by
  simp [Constant.literal]

theorem shaped_literal {constant : Constant} (hconstant : constant.Floatless) :
    Shaped constant.literal.toList := by
  have hnone : ∀ c ∈ ([] : List Char), isNameChar c := by simp
  cases hconstant with
  | nil =>
      simp only [Constant.literal]
      exact .word (by decide) (List.all_eq_true.mp (by decide))
  | boolean value =>
      cases value
      all_goals
        simp only [Constant.literal]
        exact .word (by decide) (List.all_eq_true.mp (by decide))
  | integer value =>
      simp only [Constant.integer, Constant.literal, number, toList_toString]
      split
      · exact .marked hnone (by decide) _
      · exact .word Nat.toDigits_ne_nil fun c => isNameChar_of_mem_toDigits
  | string bytes =>
      simp only [Constant.literal, Literal.string, String.toList_ofList]
      exact .marked hnone (by decide) _
  | proto index =>
      rw [toList_proto]
      exact .marked (List.all_eq_true.mp (by decide)) (by decide) _
  | importPath id =>
      rw [toList_importPath]
      exact .marked (List.all_eq_true.mp (by decide)) (by decide) _
  | table =>
      rw [toList_table]
      exact .marked hnone (by decide) _

variable {text rest : List Char}

theorem Shaped.head (htext : Shaped text) :
    ∃ c more, text = c :: more ∧ c ≠ ',' ∧ c ≠ '\x7d' ∧ c ≠ '[' := by
  have hname : ∀ c, isNameChar c → c ≠ ',' ∧ c ≠ '\x7d' ∧ c ≠ '[' := by
    intro c hc
    refine ⟨?_, ?_, ?_⟩ <;> rintro rfl <;> exact absurd hc (by decide)
  have hmarked : ∀ c ∈ ['<', '"', '-', '\x7b'], c ≠ ',' ∧ c ≠ '\x7d' ∧ c ≠ '[' := by simp
  cases htext with
  | word hne hword =>
      obtain ⟨c, more, rfl⟩ := List.exists_cons_of_ne_nil hne
      exact ⟨c, more, rfl, hname c (hword c List.mem_cons_self)⟩
  | @marked word mark hword hmark more =>
      cases word with
      | nil => exact ⟨mark, more, rfl, hmarked mark hmark⟩
      | cons c others =>
          exact ⟨c, others ++ mark :: more, rfl, hname c (hword c List.mem_cons_self)⟩

theorem bareKey?_eq_none (htext : ∀ c ∈ (text.dropWhile isNameChar).head?, c ≠ ' ') :
    bareKey? text = none := by
  unfold bareKey?
  split
  next heq => exact absurd rfl (htext ' ' (by rw [heq]; rfl))
  next => rfl

/-- A literal is not taken for a bare name before an equals sign. -/
theorem Shaped.bareKey?_append (htext : Shaped text) (hrest : Closes rest) :
    bareKey? (text ++ rest) = none := by
  apply bareKey?_eq_none
  cases htext with
  | word _ hword =>
      rw [dropWhile_word hword hrest.stops]
      intro c hc
      rcases hrest c hc with rfl | rfl | rfl <;> decide
  | @marked word mark hword hmark more =>
      have hmarked : ∀ c ∈ ['<', '"', '-', '\x7b'], isNameChar c = false ∧ c ≠ ' ' := by
        simp [isNameChar]
      rw [List.append_assoc, List.cons_append,
        dropWhile_word hword (stops_cons (hmarked mark hmark).1 _)]
      simpa using (hmarked mark hmark).2

/-- The constant is read back from its literal. -/
def ReadBack (read : Reader) (constant : Constant) : Prop :=
  ∀ rest, Closes rest → read (constant.literal.toList ++ rest) = some (constant, rest)

/-- The piece is read back from its text, which starts neither with a comma nor with a closing
brace. -/
structure Conveyed (read : Reader) (piece : Piece) : Prop where
  head : ∃ c more, piece.text.toList = c :: more ∧ c ≠ ',' ∧ c ≠ '\x7d'
  reads : ∀ rest, Closes rest → readPiece read (piece.text.toList ++ rest) = some (piece, rest)

variable {read : Reader} {key value : Constant}

theorem conveyed_item (hvalue : value.Floatless) (hread : ReadBack read value) :
    Conveyed read (.item value) := by
  have hshaped := shaped_literal hvalue
  obtain ⟨c, more, heq, hcomma, hbrace, hbracket⟩ := hshaped.head
  refine ⟨⟨c, more, heq, hcomma, hbrace⟩, fun rest hrest => ?_⟩
  have hbare := hshaped.bareKey?_append hrest
  have hback := hread rest hrest
  rw [Piece.text]
  rw [heq, List.cons_append] at hbare hback ⊢
  unfold readPiece
  split
  next hsplit => exact absurd (List.cons.inj hsplit).1 hbracket
  next => simp [hbare, hback]

theorem bareKey?_name {name : List Char} (hname : ∀ c ∈ name, isNameChar c) (rest : List Char) :
    bareKey? (name ++ ' ' :: '=' :: ' ' :: rest) = some (nameBytes name, rest) := by
  have hstop : Stops (' ' :: '=' :: ' ' :: rest) := stops_cons (by decide) _
  simp only [bareKey?, dropWhile_word hname hstop, takeWhile_word hname hstop]

theorem conveyed_bare {name : String} (hname : key.name? = some name)
    (hvalue : ReadBack read value) : Conveyed read (.entry key value) := by
  obtain ⟨hkey, first, others, hchars, hfirst, hothers⟩ := of_name? hname
  have hnameChars : ∀ c ∈ name.toList, isNameChar c := by
    rw [hchars]
    exact List.forall_mem_cons.mpr ⟨isNameChar_of_isNameStart hfirst, hothers⟩
  have htext : (Piece.entry key value).text.toList =
      name.toList ++ ' ' :: '=' :: ' ' :: value.literal.toList := by
    simp [Piece.text, hname]
  have hne : ∀ c, isNameChar c = false → first ≠ c := by
    rintro _ hc rfl
    exact absurd (isNameChar_of_isNameStart hfirst) (by simp [hc])
  refine ⟨⟨first, _, by rw [htext, hchars, List.cons_append], hne _ (by decide),
    hne _ (by decide)⟩, fun rest hrest => ?_⟩
  have hbare := bareKey?_name hnameChars (value.literal.toList ++ rest)
  rw [htext, List.append_assoc]
  simp only [List.cons_append]
  unfold readPiece
  split
  next hsplit =>
    rw [hchars, List.cons_append] at hsplit
    exact absurd (List.cons.inj hsplit).1 (hne _ (by decide))
  next => simp [hbare, hvalue rest hrest, hkey]

theorem conveyed_bracketed (hname : key.name? = none) (hkey : ReadBack read key)
    (hvalue : ReadBack read value) : Conveyed read (.entry key value) := by
  have htext : (Piece.entry key value).text.toList =
      '[' :: (key.literal.toList ++ ']' :: ' ' :: '=' :: ' ' :: value.literal.toList) := by
    simp [Piece.text, hname]
  refine ⟨⟨'[', _, htext, by decide, by decide⟩, fun rest hrest => ?_⟩
  have hback := hkey (']' :: ' ' :: '=' :: ' ' :: (value.literal.toList ++ rest)) (by simp [Closes])
  rw [htext, List.cons_append, List.append_assoc]
  simp [readPiece, hback, hvalue rest hrest]

theorem conveyed_entry (hkey : ReadBack read key) (hvalue : ReadBack read value) :
    Conveyed read (.entry key value) := by
  cases hname : key.name? with
  | none => exact conveyed_bracketed hname hkey hvalue
  | some name => exact conveyed_bare hname hvalue

end Pieces

section Tables

variable {read : Reader} {rest : List Char}

/-- The remaining pieces of a table, each behind a comma, and the closing brace. -/
def continued (rest : List Char) : List Piece → List Char
  | [] => '\x7d' :: rest
  | piece :: pieces => ',' :: ' ' :: (piece.text.toList ++ continued rest pieces)

theorem closes_continued (rest : List Char) (pieces : List Piece) :
    Closes (continued rest pieces) := by
  cases pieces with
  | nil => simp [continued, Closes]
  | cons piece pieces => simp [continued, Closes]

theorem readParts_succ {c : Char} {source more : List Char} (rounds : Nat)
    (hsource : skipComma source = c :: more) (hc : c ≠ '\x7d') :
    readParts read (rounds + 1) source = (readPiece read (c :: more)).bind fun found =>
      (readParts read rounds found.2).bind fun others =>
        some (found.1.before others.1, others.2) := by
  rw [readParts, hsource]
  split
  next heq => exact absurd (List.cons.inj heq).1 hc
  next => rfl

/-- The pieces of a table are read one after the other. -/
theorem readParts_continued {pieces : List Piece} {rounds : Nat}
    (hpieces : ∀ piece ∈ pieces, Conveyed read piece) (hrounds : pieces.length < rounds) :
    readParts read rounds (continued rest pieces) =
      some (pieces.foldr (fun piece parts => piece.before parts) ([], []), rest) := by
  induction pieces generalizing rounds with
  | nil =>
      obtain ⟨rounds, rfl⟩ := Nat.exists_eq_add_one_of_ne_zero (Nat.ne_zero_of_lt hrounds)
      simp [continued, readParts, skipComma]
  | cons piece pieces ih =>
      -- The rest of the table closes the piece, so the piece ends where it was written to end.
      obtain ⟨rounds, rfl⟩ := Nat.exists_eq_add_one_of_ne_zero (Nat.ne_zero_of_lt hrounds)
      have hpiece := hpieces piece List.mem_cons_self
      have hothers := ih (fun other hother => hpieces other (List.mem_cons_of_mem _ hother))
        (Nat.lt_of_succ_lt_succ hrounds)
      obtain ⟨c, more, hhead, -, hbrace⟩ := hpiece.head
      have hread := hpiece.reads _ (closes_continued rest pieces)
      have hskip : skipComma (continued rest (piece :: pieces)) =
          c :: (more ++ continued rest pieces) := by
        rw [continued, skipComma, hhead, List.cons_append]
      rw [hhead, List.cons_append] at hread
      rw [readParts_succ rounds hskip hbrace, hread, Option.bind_some, hothers, Option.bind_some,
        List.foldr_cons]

/-- Only what follows a leading comma matters. -/
theorem readParts_congr {source source' : List Char} (rounds : Nat)
    (hsource : skipComma source = skipComma source') :
    readParts read rounds source = readParts read rounds source' := by
  cases rounds with
  | zero => rfl
  | succ rounds => rw [readParts, readParts, hsource]

theorem skipComma_cons {c : Char} (hc : c ≠ ',') (more : List Char) :
    skipComma (c :: more) = c :: more := by
  unfold skipComma
  split
  next heq => exact absurd (List.cons.inj heq).1 hc
  next => rfl

/-- The text of a table: the pieces, with commas between them only. -/
theorem intercalate_append_brace (rest : List Char) (piece : Piece) (pieces : List Piece) :
    (String.intercalate ", " ((piece :: pieces).map Piece.text)).toList ++ '\x7d' :: rest =
      piece.text.toList ++ continued rest pieces := by
  induction pieces generalizing piece with
  | nil => simp [continued]
  | cons next pieces ih =>
      have hrest := ih next
      simp only [List.map_cons] at hrest ⊢
      rw [String.intercalate_cons_cons, String.toList_append, String.toList_append,
        List.append_assoc, List.append_assoc, hrest, continued]
      rfl

theorem skipComma_intercalate {pieces : List Piece}
    (hpieces : ∀ piece ∈ pieces, Conveyed read piece) :
    skipComma ((String.intercalate ", " (pieces.map Piece.text)).toList ++ '\x7d' :: rest) =
      skipComma (continued rest pieces) := by
  cases pieces with
  | nil => simp [continued]
  | cons piece pieces =>
      obtain ⟨c, more, hhead, hcomma, -⟩ := (hpieces piece List.mem_cons_self).head
      rw [intercalate_append_brace, continued, skipComma, hhead, List.cons_append,
        skipComma_cons hcomma]

/-- The pieces of a table, in the order in which they are written. -/
def pieces (array : List Constant) (hash : List (Constant × Constant)) : List Piece :=
  array.map .item ++ hash.map fun entry => .entry entry.1 entry.2

theorem map_text_pieces (array : List Constant) (hash : List (Constant × Constant)) :
    (pieces array hash).map Piece.text =
      Constant.literals array ++ Constant.literalEntries hash := by
  have harray : ∀ array, Constant.literals array = array.map Constant.literal := by
    intro array
    induction array with
    | nil => simp [Constant.literals]
    | cons item array ih => simp [Constant.literals, ih]
  have hhash : ∀ hash, Constant.literalEntries hash =
      hash.map fun entry => (Piece.entry entry.1 entry.2).text := by
    intro hash
    induction hash with
    | nil => simp [Constant.literalEntries]
    | cons entry hash ih =>
        cases hname : entry.1.name? <;> simp [Constant.literalEntries, ih, Piece.text, hname]
  simp [pieces, harray, hhash, Piece.text, Function.comp_def]

theorem foldr_pieces (array : List Constant) (hash : List (Constant × Constant)) :
    (pieces array hash).foldr (fun piece parts => piece.before parts) ([], []) = (array, hash) := by
  have hentries : (hash.map fun entry => Piece.entry entry.1 entry.2).foldr
      (fun piece parts => piece.before parts) ([], []) = ([], hash) := by
    induction hash with
    | nil => rfl
    | cons entry hash ih => rw [List.map_cons, List.foldr_cons, ih]; rfl
  rw [pieces, List.foldr_append, hentries]
  induction array with
  | nil => rfl
  | cons item array ih => rw [List.map_cons, List.foldr_cons, ih]; rfl

theorem readBack_table {array : List Constant} {hash : List (Constant × Constant)} {bound : Nat}
    (hpieces : ∀ piece ∈ pieces array hash, Conveyed (readConstant bound) piece)
    (hbound : (pieces array hash).length < bound) :
    ReadBack (readConstant (bound + 1)) (.table array hash) := by
  intro rest _
  rw [toList_table, ← map_text_pieces, List.cons_append, List.append_assoc, readConstant,
    List.cons_append, List.nil_append, readParts_congr bound (skipComma_intercalate hpieces),
    readParts_continued hpieces hbound, foldr_pieces]
  rfl

end Tables

theorem readBack_of_readScalar {constant : Constant} {bound : Nat}
    (hbound : sizeOf constant ≤ bound) (hread : ∀ rest, Closes rest →
      readScalar (constant.literal.toList ++ rest) = some (constant, rest)) :
    ReadBack (readConstant bound) constant := by
  intro rest hrest
  have hscalar := hread rest hrest
  obtain ⟨less, rfl⟩ : ∃ less, bound = less + 1 := by
    cases bound with
    | zero => cases constant <;> simp at hbound
    | succ less => exact ⟨less, rfl⟩
  unfold readConstant
  split
  next heq => simp [heq, readScalar, afterWord, isNameChar] at hscalar
  next => exact hscalar

theorem length_lt_sizeOf {α : Type} [SizeOf α] (xs : List α) : xs.length < sizeOf xs := by
  induction xs with
  | nil => simp
  | cons x xs ih =>
      rw [List.length_cons, List.cons.sizeOf_spec]
      omega

/-- The size of a constant bounds how deep its tables nest and how many pieces they have. -/
theorem readBack_of_floatless {constant : Constant} (hconstant : constant.Floatless) :
    ∀ bound, sizeOf constant ≤ bound → ReadBack (readConstant bound) constant := by
  induction hconstant with
  | nil =>
      exact fun bound hbound => readBack_of_readScalar hbound fun rest hrest =>
        readScalar_nil hrest.stops
  | boolean value =>
      exact fun bound hbound => readBack_of_readScalar hbound fun rest hrest =>
        readScalar_boolean value hrest.stops
  | integer value =>
      exact fun bound hbound => readBack_of_readScalar hbound fun rest hrest =>
        readScalar_integer value hrest.stops
  | string bytes =>
      exact fun bound hbound => readBack_of_readScalar hbound fun rest _ =>
        readScalar_string bytes rest
  | proto index =>
      exact fun bound hbound => readBack_of_readScalar hbound fun rest _ =>
        readScalar_proto index rest
  | importPath id =>
      exact fun bound hbound => readBack_of_readScalar hbound fun rest _ =>
        readScalar_importPath id rest
  | @table array hash hitems _ _ ihitems ihkeys ihvalues =>
      intro bound hbound
      -- One step of the bound goes to the braces. What is left covers the pieces and their number.
      have hitemCount := length_lt_sizeOf array
      have hentryCount := length_lt_sizeOf hash
      rw [Constant.table.sizeOf_spec] at hbound
      obtain ⟨bound, rfl⟩ : ∃ less, bound = less + 1 := ⟨bound - 1, by omega⟩
      refine readBack_table (List.forall_mem_append.mpr ⟨?_, ?_⟩) ?_
      · rw [List.forall_mem_map]
        intro item hitem
        have hsize := List.sizeOf_lt_of_mem hitem
        exact conveyed_item (hitems item hitem) (ihitems item hitem bound (by omega))
      · rw [List.forall_mem_map]
        rintro ⟨key, value⟩ hentry
        have hsize := List.sizeOf_lt_of_mem hentry
        rw [Prod.mk.sizeOf_spec] at hsize
        exact conveyed_entry (ihkeys _ hentry bound (by dsimp only; omega))
          (ihvalues _ hentry bound (by dsimp only; omega))
      · rw [pieces, List.length_append, List.length_map, List.length_map]
        omega

end Literal

namespace Constant

/-- No two constants without floats have the same literal. -/
theorem literal_inj {k k' : Constant} (hk : k.Floatless) (hk' : k'.Floatless) :
    k.literal = k'.literal ↔ k = k' := by
  refine ⟨fun heq => ?_, congrArg literal⟩
  -- Both constants are read from the same text, with a bound that is enough for each.
  have hnothing : Literal.Closes [] := by simp [Literal.Closes]
  have hread := Literal.readBack_of_floatless hk (sizeOf k + sizeOf k') (by omega) [] hnothing
  have hread' := Literal.readBack_of_floatless hk' (sizeOf k + sizeOf k') (by omega) [] hnothing
  rw [heq, hread'] at hread
  exact (Prod.mk.inj (Option.some.inj hread)).1.symm

/-- A table with a bare key and a bracketed one, and the same entries the other way round. -/
theorem literal_ne_of_entries_swapped :
    let name := Constant.string [0x78]
    let keyword := Constant.string [0x69, 0x66]
    let inner := Constant.table [.integer (-1)] []
    let table := Constant.table [.proto 0] [(name, inner), (keyword, .nil)]
    let swapped := Constant.table [.proto 0] [(keyword, .nil), (name, inner)]
    table.Floatless ∧ swapped.Floatless ∧ table.literal ≠ swapped.literal := by
  intro name keyword inner table swapped
  have hinner : inner.Floatless := .table (by simpa using .integer (-1)) (by simp) (by simp)
  have htable : table.Floatless :=
    .table (by simpa using .proto 0)
      (by simpa using ⟨.string [0x78], .string [0x69, 0x66]⟩) (by simpa using ⟨hinner, .nil⟩)
  have hswapped : swapped.Floatless :=
    .table (by simpa using .proto 0)
      (by simpa using ⟨.string [0x69, 0x66], .string [0x78]⟩) (by simpa using ⟨.nil, hinner⟩)
  refine ⟨htable, hswapped, fun heq => ?_⟩
  have hsame := (literal_inj htable hswapped).mp heq
  simp [table, swapped, name, keyword] at hsame

end Constant

end LuaDump
