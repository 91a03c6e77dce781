import LuaDump.MessagePack.Reader
import LuaDump.Proofs.Reading.Float

/-! # MessagePack values are read back

The canonical form of a value exists if its integers and lengths are in range, and reading
gives the value back, whatever follows it.
-/

namespace LuaDump.MessagePack

/-- The values that have a canonical form from which they can be read: integers of sixty-four
bits, lengths of thirty-two bits, well-formed text, and maps whose keys are different texts or
byte strings. -/
inductive Value.Encodable : Value → Prop
  | nil : Encodable .nil
  | boolean (value : Bool) : Encodable (.boolean value)
  | integer {value : Int} (hlow : -2 ^ 63 ≤ value) (hhigh : value < 2 ^ 64) :
      Encodable (.integer value)
  | float (value : Binary64) : Encodable (.float value)
  | text {value : String} (hlength : (Bytes.ofText value).length < 2 ^ 32)
      (hread : Utf8.decode? (Bytes.ofText value) = some value) : Encodable (.text value)
  | binary {value : Bytes} (hlength : value.length < 2 ^ 32) : Encodable (.binary value)
  | array {items : List Value} (hlength : items.length < 2 ^ 32)
      (hitems : ∀ item ∈ items, Encodable item) : Encodable (.array items)
  | map {entries : List (Value × Value)} (hlength : entries.length < 2 ^ 32)
      (hkeys : ∀ entry ∈ entries, Encodable entry.1)
      (hvalues : ∀ entry ∈ entries, Encodable entry.2)
      (hisKey : ∀ entry ∈ entries, isKey entry.1 = true)
      (hdistinct : entries.Pairwise fun first second => sameKey first.1 second.1 = false) :
      Encodable (.map entries)

/-- A value is read from bytes, whatever follows them, if as many arrays and maps may stand
around one another as it has levels. -/
def Value.ReadFrom (value : Value) (bytes : Bytes) : Prop :=
  ∀ depth, value.levels ≤ depth → ∀ rest, valueWithin? depth (bytes ++ rest) = some (value, rest)

/-- A value has a canonical form and is read back from it. -/
def Value.IsReadBack (value : Value) : Prop :=
  ∃ bytes, encode value = some bytes ∧ value.ReadFrom bytes

section Fields

theorem split?_append (bytes rest : Bytes) :
    split? bytes.length (bytes ++ rest) = some (bytes, rest) := by
  induction bytes with
  | nil => rfl
  | cons first others ih =>
      rw [List.length_cons, List.cons_append, split?, ih]
      rfl

theorem number?_ofNatBE {width n : Nat} (hn : n < 256 ^ width) (rest : Bytes) :
    number? width (Bytes.ofNatBE width n ++ rest) = some (n, rest) := by
  have hsplit := split?_append (Bytes.ofNatBE width n) rest
  rw [Bytes.length_ofNatBE] at hsplit
  have hread : Bytes.toNat true (Bytes.ofNat true width n) = n := Bytes.toNat_ofNat hn
  rw [number?, hsplit]
  exact congrArg (fun n => some (n, rest)) hread

theorem withLength?_ofNatBE {width length : Nat} (hlength : length < 256 ^ width)
    (part : Nat → Bytes → Option (Value × Bytes)) (rest : Bytes) :
    withLength? width part (Bytes.ofNatBE width length ++ rest) = part length rest := by
  rw [withLength?, number?_ofNatBE hlength]
  rfl

theorem unsigned?_ofNatBE {width n : Nat} (hn : n < 256 ^ width) (rest : Bytes) :
    unsigned? width (Bytes.ofNatBE width n ++ rest) = some (.integer n, rest) := by
  rw [unsigned?, number?_ofNatBE hn]
  rfl

/-- A negative integer is written as its distance from the next power of two. -/
theorem signed?_ofNatBE {width bits : Nat} {n : Int} (hbits : 8 * width = bits + 1)
    (hlow : -2 ^ bits ≤ n) (hneg : n < 0) (rest : Bytes) :
    signed? width (Bytes.ofNatBE width (n + 2 ^ (bits + 1)).toNat ++ rest) =
      some (.integer n, rest) := by
  have hpow : 256 ^ width = 2 ^ (bits + 1) := by
    rw [← hbits, Nat.pow_mul]
  have hcast : ((2 ^ bits : Nat) : Int) = 2 ^ bits := by simp
  have htwice : (2 : Int) ^ (bits + 1) = 2 * 2 ^ bits := by rw [Int.pow_succ, Int.mul_comm]
  have htwice' : 2 ^ (bits + 1) = 2 * 2 ^ bits := by rw [Nat.pow_succ, Nat.mul_comm]
  have hextend : signExtend (bits + 1) (n + 2 ^ (bits + 1)).toNat = n := by
    simp only [signExtend, Nat.pow_eq, Nat.add_sub_cancel, htwice, htwice']
    rw [if_neg (by omega)]
    omega
  rw [signed?, number?_ofNatBE (by rw [hpow, htwice, htwice']; omega), hbits]
  exact congrArg (fun n => some (Value.integer n, rest)) hextend

theorem toNat_byte {n : Nat} (hn : n < 256) : (byte n).toNat = n := by
  rw [byte, UInt8.toNat_ofNat']
  exact Nat.mod_eq_of_lt hn

theorem valueWithin?_scalar {tag : Nat} (htag : tag < 256) (hscalar : isContainer tag = false)
    (depth : Nat) (rest : Bytes) : valueWithin? depth (byte tag :: rest) = scalar? tag rest := by
  cases depth with
  | zero => rw [valueWithin?, toNat_byte htag]
  | succ depth => rw [valueWithin?, toNat_byte htag, if_neg (by simp [hscalar])]

theorem valueWithin?_container {tag : Nat} (htag : tag < 256) (hcontainer : isContainer tag = true)
    (depth : Nat) (rest : Bytes) :
    valueWithin? (depth + 1) (byte tag :: rest) = container? (valueWithin? depth) tag rest := by
  rw [valueWithin?, toNat_byte htag, if_pos hcontainer]

/-- A scalar whose length stands after its tag. -/
theorem valueWithin?_tagged_scalar {tag width length : Nat}
    {part : Nat → Bytes → Option (Value × Bytes)} (htag : tag < 256)
    (hscalar : isContainer tag = false) (hpart : scalar? tag = withLength? width part)
    (hlength : length < 256 ^ width) (depth : Nat) (rest : Bytes) :
    valueWithin? depth (tagged tag width length ++ rest) = part length rest := by
  rw [tagged, List.cons_append, valueWithin?_scalar htag hscalar, hpart,
    withLength?_ofNatBE hlength]

/-- An array or a map whose length stands after its tag. -/
theorem valueWithin?_tagged_container {tag width length : Nat}
    {part : (Bytes → Option (Value × Bytes)) → Nat → Bytes → Option (Value × Bytes)}
    (htag : tag < 256) (hcontainer : isContainer tag = true)
    (hpart : ∀ value, container? value tag = withLength? width (part value))
    (hlength : length < 256 ^ width) (depth : Nat) (rest : Bytes) :
    valueWithin? (depth + 1) (tagged tag width length ++ rest) =
      part (valueWithin? depth) length rest := by
  rw [tagged, List.cons_append, valueWithin?_container htag hcontainer, hpart,
    withLength?_ofNatBE hlength]

end Fields

section Heads

variable {length : Nat}

theorem textHead_reads (hlength : length < 2 ^ 32) :
    ∃ head, textHead length = some head ∧
      ∀ depth rest, valueWithin? depth (head ++ rest) = text? length rest := by
  unfold textHead
  by_cases hshort : length < 32
  · rw [if_pos hshort]
    refine ⟨_, rfl, fun depth rest => ?_⟩
    have hscalar : isContainer (0xA0 + length) = false := by
      simp only [isContainer, Bool.or_eq_false_iff, Bool.and_eq_false_iff, decide_eq_false_iff_not]
      omega
    rw [List.singleton_append, valueWithin?_scalar (by omega) hscalar]
    unfold scalar?
    rw [if_neg (by omega), if_neg (by omega), if_pos (by omega), Nat.add_sub_cancel_left]
  rw [if_neg hshort]
  by_cases hone : length < 0x100
  · rw [if_pos hone]
    exact ⟨_, rfl, valueWithin?_tagged_scalar (by decide) rfl rfl hone⟩
  rw [if_neg hone]
  by_cases htwo : length < 0x10000
  · rw [if_pos htwo]
    exact ⟨_, rfl, valueWithin?_tagged_scalar (by decide) rfl rfl htwo⟩
  rw [if_neg htwo, if_pos (by omega)]
  exact ⟨_, rfl, valueWithin?_tagged_scalar (by decide) rfl rfl (by omega)⟩

theorem binaryHead_reads (hlength : length < 2 ^ 32) :
    ∃ head, binaryHead length = some head ∧
      ∀ depth rest, valueWithin? depth (head ++ rest) = binary? length rest := by
  unfold binaryHead
  by_cases hone : length < 0x100
  · rw [if_pos hone]
    exact ⟨_, rfl, valueWithin?_tagged_scalar (by decide) rfl rfl hone⟩
  rw [if_neg hone]
  by_cases htwo : length < 0x10000
  · rw [if_pos htwo]
    exact ⟨_, rfl, valueWithin?_tagged_scalar (by decide) rfl rfl htwo⟩
  rw [if_neg htwo, if_pos (by omega)]
  exact ⟨_, rfl, valueWithin?_tagged_scalar (by decide) rfl rfl (by omega)⟩

theorem arrayHead_reads (hlength : length < 2 ^ 32) :
    ∃ head, arrayHead length = some head ∧
      ∀ depth rest, valueWithin? (depth + 1) (head ++ rest) =
        array? (valueWithin? depth) length rest := by
  unfold arrayHead
  by_cases hshort : length < 16
  · rw [if_pos hshort]
    refine ⟨_, rfl, fun depth rest => ?_⟩
    have hcontainer : isContainer (0x90 + length) = true := by
      simp only [isContainer, Bool.or_eq_true, Bool.and_eq_true, decide_eq_true_eq]
      omega
    rw [List.singleton_append, valueWithin?_container (by omega) hcontainer]
    unfold container?
    rw [if_neg (by omega), if_pos (by omega), Nat.add_sub_cancel_left]
  rw [if_neg hshort]
  by_cases htwo : length < 0x10000
  · rw [if_pos htwo]
    exact ⟨_, rfl, valueWithin?_tagged_container (by decide) rfl (fun _ => rfl) htwo⟩
  rw [if_neg htwo, if_pos (by omega)]
  exact ⟨_, rfl, valueWithin?_tagged_container (by decide) rfl (fun _ => rfl) (by omega)⟩

theorem mapHead_reads (hlength : length < 2 ^ 32) :
    ∃ head, mapHead length = some head ∧
      ∀ depth rest, valueWithin? (depth + 1) (head ++ rest) =
        map? (valueWithin? depth) length rest := by
  unfold mapHead
  by_cases hshort : length < 16
  · rw [if_pos hshort]
    refine ⟨_, rfl, fun depth rest => ?_⟩
    have hcontainer : isContainer (0x80 + length) = true := by
      simp only [isContainer, Bool.or_eq_true, Bool.and_eq_true, decide_eq_true_eq]
      omega
    rw [List.singleton_append, valueWithin?_container (by omega) hcontainer]
    unfold container?
    rw [if_pos (by omega), Nat.add_sub_cancel_left]
  rw [if_neg hshort]
  by_cases htwo : length < 0x10000
  · rw [if_pos htwo]
    exact ⟨_, rfl, valueWithin?_tagged_container (by decide) rfl (fun _ => rfl) htwo⟩
  rw [if_neg htwo, if_pos (by omega)]
  exact ⟨_, rfl, valueWithin?_tagged_container (by decide) rfl (fun _ => rfl) (by omega)⟩

end Heads

section Scalars

theorem readFrom_of_scalar {value : Value} {tag : Nat} {bytes : Bytes} (htag : tag < 256)
    (hscalar : isContainer tag = false)
    (hread : ∀ rest, scalar? tag (bytes ++ rest) = some (value, rest)) :
    value.ReadFrom (byte tag :: bytes) := by
  intro depth _ rest
  rw [List.cons_append, valueWithin?_scalar htag hscalar, hread]

theorem readFrom_unsigned {tag width n : Nat} (htag : tag < 256)
    (hscalar : isContainer tag = false) (hpart : scalar? tag = unsigned? width)
    (hn : n < 256 ^ width) : (Value.integer n).ReadFrom (tagged tag width n) :=
  readFrom_of_scalar htag hscalar fun rest => by rw [hpart, unsigned?_ofNatBE hn]

theorem readFrom_signed (bits : Nat) {tag width : Nat} {n power : Int} (htag : tag < 256)
    (hscalar : isContainer tag = false) (hpart : scalar? tag = signed? width)
    (hbits : 8 * width = bits + 1) (hpower : power = 2 ^ (bits + 1)) (hlow : -2 ^ bits ≤ n)
    (hneg : n < 0) : (Value.integer n).ReadFrom (tagged tag width (n + power).toNat) :=
  readFrom_of_scalar htag hscalar fun rest => by
    rw [hpart, hpower, signed?_ofNatBE hbits hlow hneg]

/-- The integers from zero to 127 are their own tags. -/
theorem readFrom_smallNatural {n : Nat} (hn : n < 128) :
    (Value.integer n).ReadFrom [byte n] := by
  have hscalar : isContainer n = false := by
    simp only [isContainer, Bool.or_eq_false_iff, Bool.and_eq_false_iff, decide_eq_false_iff_not]
    omega
  refine readFrom_of_scalar (by omega) hscalar fun rest => ?_
  unfold scalar?
  rw [if_pos hn]
  rfl

/-- The integers from -32 to -1 are the highest tags. -/
theorem readFrom_smallNegative {n : Int} (hlow : -32 ≤ n) (hneg : n < 0) :
    (Value.integer n).ReadFrom [byte (n + 0x100).toNat] := by
  have hscalar : isContainer (n + 0x100).toNat = false := by
    simp only [isContainer, Bool.or_eq_false_iff, Bool.and_eq_false_iff, decide_eq_false_iff_not]
    omega
  refine readFrom_of_scalar (by omega) hscalar fun rest => ?_
  have hvalue : ((n + 0x100).toNat : Int) - 256 = n := by omega
  unfold scalar?
  rw [if_neg (by omega), if_neg (by omega), if_neg (by omega), if_pos (by omega), hvalue]
  rfl

/-- An integer of sixty-four bits has a form. The cases go through the forms from the widest
negative one to the widest natural one. -/
theorem isReadBack_integer {n : Int} (hlow : -2 ^ 63 ≤ n) (hhigh : n < 2 ^ 64) :
    (Value.integer n).IsReadBack := by
  unfold Value.IsReadBack encode encodeInt
  rw [if_neg (by omega)]
  by_cases h64 : n < -0x80000000
  · rw [if_pos h64]
    exact ⟨_, rfl, readFrom_signed 63 (by decide) rfl rfl rfl rfl hlow (by omega)⟩
  rw [if_neg h64]
  by_cases h32 : n < -0x8000
  · rw [if_pos h32]
    exact ⟨_, rfl, readFrom_signed 31 (by decide) rfl rfl rfl rfl (by omega) (by omega)⟩
  rw [if_neg h32]
  by_cases h16 : n < -0x80
  · rw [if_pos h16]
    exact ⟨_, rfl, readFrom_signed 15 (by decide) rfl rfl rfl rfl (by omega) (by omega)⟩
  rw [if_neg h16]
  by_cases h8 : n < -32
  · rw [if_pos h8]
    exact ⟨_, rfl, readFrom_signed 7 (by decide) rfl rfl rfl rfl (by omega) (by omega)⟩
  rw [if_neg h8]
  by_cases hneg : n < 0
  · rw [if_pos hneg]
    exact ⟨_, rfl, readFrom_smallNegative (by omega) hneg⟩
  rw [if_neg hneg]
  obtain ⟨n, rfl⟩ := Int.eq_ofNat_of_zero_le (Int.not_lt.1 hneg)
  rw [Int.toNat_natCast]
  by_cases hsmall : (n : Int) < 0x80
  · rw [if_pos hsmall]
    exact ⟨_, rfl, readFrom_smallNatural (by omega)⟩
  rw [if_neg hsmall]
  by_cases hone : (n : Int) < 0x100
  · rw [if_pos hone]
    exact ⟨_, rfl, readFrom_unsigned (by decide) rfl rfl (by omega)⟩
  rw [if_neg hone]
  by_cases htwo : (n : Int) < 0x10000
  · rw [if_pos htwo]
    exact ⟨_, rfl, readFrom_unsigned (by decide) rfl rfl (by omega)⟩
  rw [if_neg htwo]
  by_cases hfour : (n : Int) < 0x100000000
  · rw [if_pos hfour]
    exact ⟨_, rfl, readFrom_unsigned (by decide) rfl rfl (by omega)⟩
  rw [if_neg hfour, if_pos (by omega)]
  exact ⟨_, rfl, readFrom_unsigned (by decide) rfl rfl (by omega)⟩

theorem readFrom_float (value : Binary64) :
    (Value.float value).ReadFrom (tagged 0xCB 8 value.pattern) := by
  refine readFrom_of_scalar (by decide) rfl fun rest => ?_
  have hread : scalar? 0xCB (Bytes.ofNatBE 8 value.pattern ++ rest) =
      (number? 8 (Bytes.ofNatBE 8 value.pattern ++ rest)).bind fun found =>
        some (.float (Binary64.ofPattern found.1), found.2) := rfl
  rw [hread, number?_ofNatBE value.pattern_lt]
  simp [Binary64.ofPattern_pattern]

theorem isReadBack_text {value : String} (hlength : (Bytes.ofText value).length < 2 ^ 32)
    (hread : Utf8.decode? (Bytes.ofText value) = some value) :
    (Value.text value).IsReadBack := by
  obtain ⟨head, hhead, hreads⟩ := textHead_reads hlength
  refine ⟨head ++ Bytes.ofText value, by simp [encode, hhead], fun depth _ rest => ?_⟩
  rw [List.append_assoc, hreads, text?, split?_append]
  simp [hread]

theorem isReadBack_binary {value : Bytes} (hlength : value.length < 2 ^ 32) :
    (Value.binary value).IsReadBack := by
  obtain ⟨head, hhead, hreads⟩ := binaryHead_reads hlength
  refine ⟨head ++ value, by simp [encode, hhead], fun depth _ rest => ?_⟩
  rw [List.append_assoc, hreads, binary?, split?_append]
  rfl

end Scalars

section Containers

theorem encodeList_reads {items : List Value} (hitems : ∀ item ∈ items, item.IsReadBack) :
    ∃ bytes, encodeList items = some bytes ∧
      ∀ depth, Value.levelsOf items ≤ depth → ∀ rest,
        many? (valueWithin? depth) items.length (bytes ++ rest) = some (items, rest) := by
  induction items with
  | nil => exact ⟨[], rfl, fun _ _ _ => rfl⟩
  | cons item others ih =>
      obtain ⟨first, hfirst, hread⟩ := hitems item List.mem_cons_self
      obtain ⟨body, hbody, hreads⟩ := ih fun item hitem => hitems item (.tail _ hitem)
      refine ⟨first ++ body, by simp [encodeList, hfirst, hbody], fun depth hdepth rest => ?_⟩
      rw [Value.levelsOf, Nat.max_le] at hdepth
      rw [List.append_assoc, List.length_cons, many?, hread depth hdepth.1]
      simp [hreads depth hdepth.2]

theorem isReadBack_array {items : List Value} (hlength : items.length < 2 ^ 32)
    (hitems : ∀ item ∈ items, item.IsReadBack) : (Value.array items).IsReadBack := by
  obtain ⟨head, hhead, hreads⟩ := arrayHead_reads hlength
  obtain ⟨body, hbody, hreadsBody⟩ := encodeList_reads hitems
  refine ⟨head ++ body, by simp [encode, hhead, hbody], fun depth hdepth rest => ?_⟩
  rw [Value.levels] at hdepth
  obtain ⟨depth, rfl⟩ := Nat.exists_eq_add_of_le' (Nat.le_trans (Nat.le_add_left 1 _) hdepth)
  rw [List.append_assoc, hreads, array?, hreadsBody depth (Nat.le_of_succ_le_succ hdepth)]
  rfl

theorem encodeEntries_reads {entries : List (Value × Value)}
    (hkeys : ∀ entry ∈ entries, entry.1.IsReadBack)
    (hvalues : ∀ entry ∈ entries, entry.2.IsReadBack)
    (hisKey : ∀ entry ∈ entries, isKey entry.1 = true) :
    ∃ bytes, encodeEntries entries = some bytes ∧
      ∀ depth, Value.levelsOfEntries entries ≤ depth → ∀ rest,
        many? (keyValue? (valueWithin? depth)) entries.length (bytes ++ rest) =
          some (entries, rest) := by
  induction entries with
  | nil => exact ⟨[], rfl, fun _ _ _ => rfl⟩
  | cons entry others ih =>
      obtain ⟨key, value⟩ := entry
      obtain ⟨first, hfirst, hreadKey⟩ := hkeys _ List.mem_cons_self
      obtain ⟨second, hsecond, hreadValue⟩ := hvalues _ List.mem_cons_self
      obtain ⟨body, hbody, hreads⟩ := ih (fun entry hentry => hkeys entry (.tail _ hentry))
        (fun entry hentry => hvalues entry (.tail _ hentry))
        fun entry hentry => hisKey entry (.tail _ hentry)
      refine ⟨first ++ second ++ body, by simp [encodeEntries, hfirst, hsecond, hbody],
        fun depth hdepth rest => ?_⟩
      rw [Value.levelsOfEntries, Nat.max_le, Nat.max_le] at hdepth
      obtain ⟨⟨hkey, hvalue⟩, hothers⟩ := hdepth
      have hentry : keyValue? (valueWithin? depth) (first ++ (second ++ (body ++ rest))) =
          some ((key, value), body ++ rest) := by
        rw [keyValue?, hreadKey depth hkey]
        simp [hisKey _ List.mem_cons_self, hreadValue depth hvalue]
      rw [List.append_assoc, List.append_assoc, List.length_cons, many?, hentry]
      simp [hreads depth hothers]

/-- A new key comes last. -/
theorem put_of_forall_sameKey_eq_false {entry : Value × Value} {known : List (Value × Value)}
    (hnew : ∀ other ∈ known, sameKey other.1 entry.1 = false) :
    put entry known = known ++ [entry] := by
  induction known with
  | nil => rfl
  | cons other others ih =>
      rw [put, hnew other List.mem_cons_self, ih fun other hother => hnew other (.tail _ hother)]
      rfl

/-- Entries with different keys all stay, in their order. -/
theorem foldl_put_of_pairwise (known entries : List (Value × Value))
    (hdistinct : (known ++ entries).Pairwise fun first second =>
      sameKey first.1 second.1 = false) :
    entries.foldl (fun known entry => put entry known) known = known ++ entries := by
  induction entries generalizing known with
  | nil => simp
  | cons entry others ih =>
      have hnew : ∀ other ∈ known, sameKey other.1 entry.1 = false := fun other hother =>
        (List.pairwise_append.1 hdistinct).2.2 other hother entry List.mem_cons_self
      rw [List.foldl_cons, put_of_forall_sameKey_eq_false hnew, ih]
      · rw [List.append_assoc, List.singleton_append]
      · rwa [List.append_assoc, List.singleton_append]

theorem isReadBack_map {entries : List (Value × Value)} (hlength : entries.length < 2 ^ 32)
    (hkeys : ∀ entry ∈ entries, entry.1.IsReadBack)
    (hvalues : ∀ entry ∈ entries, entry.2.IsReadBack)
    (hisKey : ∀ entry ∈ entries, isKey entry.1 = true)
    (hdistinct : entries.Pairwise fun first second => sameKey first.1 second.1 = false) :
    (Value.map entries).IsReadBack := by
  obtain ⟨head, hhead, hreads⟩ := mapHead_reads hlength
  obtain ⟨body, hbody, hreadsBody⟩ := encodeEntries_reads hkeys hvalues hisKey
  refine ⟨head ++ body, by simp [encode, hhead, hbody], fun depth hdepth rest => ?_⟩
  rw [Value.levels] at hdepth
  obtain ⟨depth, rfl⟩ := Nat.exists_eq_add_of_le' (Nat.le_trans (Nat.le_add_left 1 _) hdepth)
  have hput := foldl_put_of_pairwise [] entries hdistinct
  rw [List.append_assoc, hreads, map?, hreadsBody depth (Nat.le_of_succ_le_succ hdepth)]
  simp [hput]

end Containers

theorem Value.Encodable.isReadBack {value : Value} (hvalue : value.Encodable) :
    value.IsReadBack := by
  induction hvalue with
  | nil => exact ⟨_, rfl, readFrom_of_scalar (by decide) rfl fun _ => rfl⟩
  | boolean value =>
      cases value with
      | false => exact ⟨_, rfl, readFrom_of_scalar (by decide) rfl fun _ => rfl⟩
      | true => exact ⟨_, rfl, readFrom_of_scalar (by decide) rfl fun _ => rfl⟩
  | integer hlow hhigh => exact isReadBack_integer hlow hhigh
  | float value => exact ⟨_, rfl, readFrom_float value⟩
  | text hlength hread => exact isReadBack_text hlength hread
  | binary hlength => exact isReadBack_binary hlength
  | array hlength _ hitems => exact isReadBack_array hlength hitems
  | map hlength _ _ hisKey hdistinct hkeys hvalues =>
      exact isReadBack_map hlength hkeys hvalues hisKey hdistinct

theorem Value.ReadFrom.decode? {value : Value} {bytes : Bytes} (hread : value.ReadFrom bytes)
    {depth : Nat} (hdepth : value.levels ≤ depth) :
    MessagePack.decode? depth bytes = some value := by
  have hvalue := hread depth hdepth []
  rw [List.append_nil] at hvalue
  rw [MessagePack.decode?, hvalue]

end LuaDump.MessagePack
