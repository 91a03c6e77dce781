import LuaDump.Proofs.Everywhere
import LuaDump.Proofs.Interchange.Fitting

/-! # Decoded dumps fit the document format

What is decoded from a file of less than 4 GiB fits. A list is no longer than the file unless
a count of thirty-two bits bounds it, a field has at most sixty-four bits, and a sum has fewer
terms than the file has bytes.
-/

namespace LuaDump

open Decoder

variable {room : Nat}

section Numbers

theorem Bytes.toNatLE_lt (bytes : Bytes) : bytes.toNatLE < 256 ^ bytes.length := by
  induction bytes with
  | nil => simp [toNatLE]
  | cons b rest ih =>
      have hb := b.toNat_lt
      rw [toNatLE, List.length_cons, Nat.pow_succ]
      omega

theorem Bytes.toNat_lt (bigEndian : Bool) (bytes : Bytes) :
    bytes.toNat bigEndian < 256 ^ bytes.length := by
  cases bigEndian with
  | false => exact toNatLE_lt bytes
  | true => simpa [toNat, toNatBE] using toNatLE_lt bytes.reverse

/-- A number of the given width is read as an integer of the same width. -/
theorem signExtend_bounds {bits n : Nat} (hn : n < 2 ^ (bits + 1)) :
    -2 ^ bits ≤ signExtend (bits + 1) n ∧ signExtend (bits + 1) n < 2 ^ bits := by
  have hcast : ((2 ^ bits : Nat) : Int) = 2 ^ bits := by simp
  have htwice : 2 ^ (bits + 1) = 2 * 2 ^ bits := by rw [Nat.pow_succ, Nat.mul_comm]
  simp only [signExtend, Nat.pow_eq, Nat.add_sub_cancel, htwice] at hn ⊢
  split <;> omega

theorem signExtend_isWord {bits n : Nat} (hbits : bits < 64) (hn : n < 2 ^ (bits + 1)) :
    IsWord (signExtend (bits + 1) n) := by
  obtain ⟨hlow, hhigh⟩ := signExtend_bounds hn
  have hpow : (2 : Int) ^ bits ≤ 2 ^ 63 := by
    exact_mod_cast Nat.pow_le_pow_right (by decide) (by omega : bits ≤ 63)
  exact ⟨by omega, by omega⟩

namespace Decoder

theorem delivers_field (what : String) (size : Nat) :
    (field what size).Delivers room fun bytes => bytes.length = size := by
  refine (settles_field what size).yields fun w pos bytes last trace hdone => ?_
  unfold field at hdone
  split at hdone
  next =>
    dsimp only at hdone
    split at hdone
    next hlength =>
      obtain ⟨rfl, -, -⟩ := Outcome.done.inj hdone
      exact hlength
    next => exact absurd hdone (by simp)
  next => exact absurd hdone (by simp [short])

/-- A field of one of the allowed widths. -/
theorem delivers_widthField {α : Type} {property : α → Prop} {allowed : List Nat} (width : Int)
    (what : Nat → String) {value : Nat → Bytes → α}
    (hvalue : ∀ size bytes, size ∈ allowed → width = size → bytes.length = size →
      property (value size bytes)) :
    (do
      let size ← checkWidth allowed width
      let bytes ← field (what size) size
      pure (value size bytes)).Delivers room property := by
  unfold checkWidth
  split
  next hwidth =>
    rw [pure_bind]
    refine (delivers_field _ _).map fun bytes hlength => ?_
    exact hvalue _ bytes hwidth.2 (by omega) hlength
  next =>
    rw [fail_bind]
    exact .fail _

theorem delivers_unsigned (width : Int) (bigEndian : Bool) :
    (unsigned width bigEndian).Delivers room fun n => n < 256 ^ width.toNat ∧ n < 2 ^ 64 := by
  refine delivers_widthField width _ fun size bytes hsize hwidth hlength => ?_
  subst hwidth
  have hlt := Bytes.toNat_lt bigEndian bytes
  rw [hlength] at hlt
  refine ⟨hlt, Nat.lt_of_lt_of_le hlt ?_⟩
  have hle : ∀ size ∈ integerWidths, 256 ^ size ≤ 2 ^ 64 := by decide
  exact hle size hsize

theorem delivers_unsigned_isWord (width : Int) (bigEndian : Bool) :
    (unsigned width bigEndian).Delivers room fun n => IsWord n :=
  (delivers_unsigned width bigEndian).mono fun _ hn => isWord_natCast hn.2

theorem delivers_signed (bits : Nat) {width : Int} {size : Nat} (bigEndian : Bool)
    (hwidth : width = size) (hbits : size * 8 = bits + 1) :
    (signed width bigEndian).Delivers room fun value => -2 ^ bits ≤ value ∧ value < 2 ^ bits := by
  refine delivers_widthField width _ fun found bytes _ hfound hlength => ?_
  have hsame : found = size := by omega
  subst hsame
  have hlt := Bytes.toNat_lt bigEndian bytes
  have hpow : 256 ^ found = 2 ^ (found * 8) := by rw [Nat.mul_comm, Nat.pow_mul]
  rw [hlength, hpow, hbits] at hlt
  rw [hbits]
  exact signExtend_bounds hlt

theorem delivers_signed_isWord (width : Int) (bigEndian : Bool) :
    (signed width bigEndian).Delivers room IsWord := by
  refine delivers_widthField width _ fun size bytes hsize _ hlength => ?_
  have hbits : ∀ size ∈ integerWidths, size * 8 = size * 8 - 1 + 1 ∧ size * 8 - 1 < 64 := by decide
  obtain ⟨hsucc, hlt⟩ := hbits size hsize
  have hnat := Bytes.toNat_lt bigEndian bytes
  have hpow : 256 ^ size = 2 ^ (size * 8) := by rw [Nat.mul_comm, Nat.pow_mul]
  rw [hlength, hpow, hsucc] at hnat
  rw [hsucc]
  exact signExtend_isWord hlt hnat

theorem delivers_lowGroups (bits : Nat) :
    (lowGroups bits).Delivers room fun n => n < 2 ^ bits := by
  refine .skip settles_position fun start => ?_
  refine delivers_iterate (settles_lowGroup bits start) (fun _ _ => True) ?_ trivial
  rintro _ ⟨shift, value⟩ _ -
  refine .skip settles_nextByte fun b => ?_
  dsimp only
  split
  next => exact .failAt _ _
  next hlt =>
    split
    next => exact .pure (Nat.not_le.mp hlt)
    next =>
      split
      next => exact .failAt _ _
      next => exact .pure trivial

theorem delivers_varint : varint.Delivers room fun n => n < 2 ^ 32 :=
  delivers_lowGroups 32

theorem delivers_numericHead : numericHead.Delivers room fun n => n < 2 ^ 32 := by
  refine .skip settles_position fun start => .skip settles_nextByte fun b => ?_
  dsimp only
  split
  next hlow => exact .pure (by omega)
  next => exact .skip (settles_iterate (settles_headGroup start) _) fun value =>
      .pure (Nat.mod_lt _ (by decide))

/-- The ceiling is judged before the last group is added. -/
theorem delivers_highGroups (limit : Int) :
    (highGroups limit).Delivers room fun n => (n : Int) < limit := by
  refine .skip settles_position fun start => ?_
  refine delivers_iterate (settles_highGroup _ start) (fun _ _ => True) ?_ trivial
  intro _ value _ _
  refine .skip settles_nextByte fun b => ?_
  split
  next => exact .failAt _ _
  next hceiling =>
    have hgroup : groupOf b < 128 := Nat.mod_lt _ (by decide)
    apply Delivers.pure
    split
    next =>
      simp only [Sum.elim_inr]
      omega
    next => exact trivial

end Decoder

end Numbers

theorem IsLength.isWord {n : Nat} (hn : IsLength n) : IsWord n :=
  isWord_natCast (Nat.lt_trans hn (by decide))

theorem IsLength.of_le {m n : Nat} (hn : IsLength n) (hle : m ≤ n) : IsLength m :=
  Nat.lt_of_le_of_lt hle hn

theorem isLength_zero : IsLength 0 :=
  Nat.two_pow_pos 32

theorem isWord_byte (b : UInt8) : IsWord b.toNat :=
  isWord_natCast (Nat.lt_trans b.toNat_lt (by decide))

theorem isWord_zero : IsWord 0 :=
  ⟨by decide, by decide⟩

/-- A list that was read where there is no room for too many items fits. -/
theorem Decoder.AllOf.fitList {α : Type} {property : α → Prop} {values : List α}
    (hvalues : AllOf room property values) (hroom : IsLength room) : FitList property values :=
  ⟨hroom.of_le hvalues.length_le, hvalues.all⟩

theorem Decoder.delivers_take_isLength (hroom : IsLength room) (count : Int) :
    (take count).Delivers room fun bytes => IsLength bytes.length :=
  (delivers_take count).mono fun _ hlength => hroom.of_le hlength

theorem Constant.fits_integer {value : Int} (hvalue : IsWord value) :
    (Constant.integer value).Fits :=
  .number (show (Number.integer value).Fits from hvalue)

theorem Constant.fits_float (value : Binary64) : (Constant.float value).Fits :=
  .number (show (Number.float value).Fits from trivial)

namespace Standard

structure Head.Fits (head : Head) : Prop where
  name : IsLength head.name.length
  lineDefined : IsWord head.lineDefined
  lastLineDefined : IsWord head.lastLineDefined
  declaredUpvalues : ∀ count ∈ head.declaredUpvalues, IsWord count
  numParams : IsWord head.numParams
  maxStack : IsWord head.maxStack

/-- A tail that describes at most `late` captured variables. -/
structure Tail.Fits (late : Nat) (tail : Tail) : Prop where
  upvalues : AllOf late Upvalue.Fits tail.upvalues
  name : ∀ name ∈ tail.name, IsLength name.length
  lineInfo : FitList IsWord tail.lineInfo
  sourceLines : FitList (fun line => IsWord line.1 ∧ IsWord line.2) tail.sourceLines
  locals : FitList Local.Fits tail.locals
  upvalueNames : FitList (fun name => IsLength name.length) tail.upvalueNames

/-- Parts that fit, with at most `early` captured variables before the nested functions and at
most `late` after them. -/
def fittingParts (early late : Nat) : Parts where
  head := Head.Fits
  instruction := IsWord
  constant := Constant.Fits
  upvalues := AllOf early Upvalue.Fits
  tail := Tail.Fits late

theorem assemble_fits {early late : Nat} (hlimit : IsLength (early + late)) {head : Head}
    {instructions : List Int} {constants : List Constant} {upvalues : List Upvalue} {tail : Tail}
    (hhead : head.Fits) (hinstructions : FitList IsWord instructions)
    (hconstants : FitList Constant.Fits constants) (hupvalues : AllOf early Upvalue.Fits upvalues)
    (htail : tail.Fits late) : (assemble head instructions constants upvalues tail).Fits := by
  -- A release describes its captured variables in one of the two places only.
  have hlength : IsLength (upvalues ++ tail.upvalues).length := by
    refine hlimit.of_le ?_
    rw [List.length_append]
    exact Nat.add_le_add hupvalues.length_le htail.upvalues.length_le
  refine ⟨?_, hhead.lineDefined, hhead.lastLineDefined, ?_, hhead.numParams, hhead.maxStack,
    isWord_zero, hinstructions, hconstants, .nil, htail.sourceLines, htail.lineInfo, htail.locals,
    ⟨hlength, List.forall_mem_append.mpr ⟨hupvalues.all, htail.upvalues.all⟩⟩,
    htail.upvalueNames, isLength_zero⟩
  · cases hname : tail.name with
    | none => simpa [assemble, hname] using hhead.name
    | some name => simpa [assemble, hname] using htail.name name hname
  · cases hcount : head.declaredUpvalues with
    | none => simpa [assemble, hcount] using hlength.isWord
    | some count => simpa [assemble, hcount] using hhead.declaredUpvalues count hcount

theorem Grammar.Delivers.main_fits {g : Grammar} {early late : Nat}
    (hg : g.Delivers room (fittingParts early late)) (hroom : IsLength room)
    (hlimit : IsLength (early + late)) (maxDepth : Int) :
    (g.main maxDepth).Delivers room (Prototype.Everywhere Prototype.Fits) := by
  refine hg.chunk ?_ _
  intro head instructions constants upvalues tail children hhead hinstructions hconstants
    hupvalues htail hchildren
  exact ⟨assemble_fits hlimit hhead (hinstructions.fitList hroom) (hconstants.fitList hroom)
    hupvalues htail, hroom.of_le hchildren⟩

section Fields

variable (h : Header) (hroom : IsLength room)

theorem delivers_int : (int h).Delivers room IsWord :=
  .named ((delivers_unsigned_isWord _ _).map fun _ hn => hn) _

theorem delivers_instruction : (instruction h).Delivers room IsWord :=
  (delivers_unsigned_isWord _ _).map fun _ hn => hn

theorem delivers_groupedInt : groupedInt.Delivers room IsWord :=
  (delivers_highGroups _).map fun _ hn => ⟨by omega, by omega⟩

theorem delivers_byte : byte.Delivers room IsWord :=
  .skip settles_nextByte fun b => .pure (isWord_byte b)

theorem delivers_number : (number h).Delivers room Number.Fits := by
  refine .named ?_ _
  split
  · exact (delivers_signed_isWord _ _).map fun _ hvalue => hvalue
  · exact .skip (settles_float _ _) fun _ => .pure trivial

theorem delivers_integerConstant : (integerConstant h).Delivers room Constant.Fits :=
  .named ((delivers_signed_isWord _ _).map fun _ hvalue => Constant.fits_integer hvalue) _

theorem delivers_floatConstant : (floatConstant h).Delivers room Constant.Fits :=
  .named (.skip (settles_float _ _) fun value => .pure (Constant.fits_float value)) _

theorem delivers_booleanConstant : booleanConstant.Delivers room Constant.Fits :=
  .skip settles_flag fun value => .pure (.boolean value)

theorem delivers_stringConstant {string : Decoder Bytes}
    (hstring : string.Delivers room fun bytes => IsLength bytes.length) :
    (stringConstant string).Delivers room Constant.Fits :=
  hstring.map fun _ hlength => .string hlength

theorem delivers_taggedConstant (dialect : Dialect) {payload? : Nat → Option (Decoder Constant)}
    (hpayload : ∀ tag payload, payload? tag = some payload →
      payload.Delivers room Constant.Fits) :
    (taggedConstant dialect payload?).Delivers room Constant.Fits := by
  refine .skip settles_position fun offset => .skip settles_nextByte fun tag => ?_
  split
  next payload hsome => exact hpayload _ _ hsome
  next => exact .failAt _ _

theorem delivers_upvalue : upvalue.Delivers room Upvalue.Fits :=
  .named (.skip settles_flag fun _ => delivers_byte.map fun _ hid => ⟨hid, isWord_zero⟩) _

theorem delivers_upvalueWithKind : upvalueWithKind.Delivers room Upvalue.Fits :=
  .named (.skip settles_flag fun _ => delivers_byte.bind fun _ hid =>
    delivers_byte.map fun _ hkind => ⟨hid, hkind⟩) _

theorem delivers_localVariable {string : Decoder Bytes} {int : Decoder Int}
    (hstring : string.Delivers room fun bytes => IsLength bytes.length)
    (hint : int.Delivers room IsWord) : (localVariable string int).Delivers room Local.Fits :=
  .named (hstring.bind fun _ hname => hint.bind fun _ hstart => hint.map fun _ hend =>
    ⟨hname, hstart, hend, isWord_zero⟩) _

theorem delivers_lineDelta : lineDelta.Delivers room IsWord :=
  .skip settles_nextByte fun b => .pure (signExtend_isWord (by decide) b.toNat_lt)

theorem delivers_namedHead {string : Decoder Bytes} {int : Decoder Int}
    (hstring : string.Delivers room fun bytes => IsLength bytes.length)
    (hint : int.Delivers room IsWord) : (namedHead string int).Delivers room Head.Fits := by
  refine hstring.bind fun name hname => hint.bind fun first hfirst => ?_
  refine hint.bind fun last hlast => delivers_byte.bind fun params hparams => ?_
  refine .skip settles_byte fun vararg => delivers_byte.map fun maxStack hmaxStack => ?_
  exact ⟨hname, hfirst, hlast, by simp, hparams, hmaxStack⟩

include hroom

theorem delivers_terminatedString :
    (terminatedString h).Delivers room fun bytes => IsLength bytes.length := by
  refine .named (.skip (settles_sizeT h) fun size => ?_) _
  refine (delivers_take_isLength hroom size).map fun bytes hlength => hlength.of_le ?_
  rw [List.length_dropLast]
  exact Nat.sub_le _ _

theorem delivers_sizedBytes (size : Int) :
    (sizedBytes size).Delivers room fun bytes => IsLength bytes.length := by
  unfold sizedBytes
  split
  · exact .pure isLength_zero
  · exact delivers_take_isLength hroom _

theorem delivers_escapedString :
    (escapedString h).Delivers room fun bytes => IsLength bytes.length := by
  refine .named (.skip settles_byte fun short => ?_) _
  split
  · exact .skip (settles_sizeT h) (delivers_sizedBytes hroom)
  · exact .skip (settles_pure short) (delivers_sizedBytes hroom)

theorem delivers_groupedString : groupedString.Delivers room fun bytes => IsLength bytes.length :=
  .named (.skip (settles_highGroups _) fun size => delivers_sizedBytes hroom size) _

theorem delivers_payload51 (tag : Nat) (payload : Decoder Constant)
    (hsome : payload51 h tag = some payload) : payload.Delivers room Constant.Fits := by
  unfold payload51 at hsome
  split at hsome <;> simp only [Option.some.injEq, reduceCtorEq] at hsome <;> subst hsome
  · exact .pure .nil
  · exact delivers_booleanConstant
  · exact (delivers_number h).map fun _ hvalue => .number hvalue
  · exact delivers_stringConstant (delivers_terminatedString h hroom)

theorem delivers_payload53 (tag : Nat) (payload : Decoder Constant)
    (hsome : payload53 h tag = some payload) : payload.Delivers room Constant.Fits := by
  unfold payload53 at hsome
  split at hsome <;> simp only [Option.some.injEq, reduceCtorEq] at hsome <;> subst hsome
  · exact .pure .nil
  · exact delivers_booleanConstant
  · exact delivers_floatConstant h
  · exact delivers_integerConstant h
  · exact delivers_stringConstant (delivers_escapedString h hroom)
  · exact delivers_stringConstant (delivers_escapedString h hroom)

theorem delivers_payload54 (tag : Nat) (payload : Decoder Constant)
    (hsome : payload54 h tag = some payload) : payload.Delivers room Constant.Fits := by
  unfold payload54 at hsome
  split at hsome <;> simp only [Option.some.injEq, reduceCtorEq] at hsome <;> subst hsome
  · exact .pure .nil
  · exact .pure (.boolean false)
  · exact .pure (.boolean true)
  · exact delivers_integerConstant h
  · exact delivers_floatConstant h
  · exact delivers_stringConstant (delivers_groupedString hroom)
  · exact delivers_stringConstant (delivers_groupedString hroom)

theorem delivers_plainTail {string : Decoder Bytes} {int : Decoder Int} (hsettles : int.Settles 1)
    (hstring : string.Delivers room fun bytes => IsLength bytes.length)
    (hint : int.Delivers room IsWord) : (plainTail string int).Delivers room (Tail.Fits 0) := by
  have hline : (plainLine int).Delivers room fun line => IsWord line.1 ∧ IsWord line.2 :=
    hint.map fun _ hline => ⟨hline, isWord_zero⟩
  refine (delivers_counted _ hsettles hline).bind fun lines hlines => ?_
  refine (delivers_counted _ hsettles (delivers_localVariable hstring hint)).bind
    fun locals hlocals => ?_
  refine (delivers_counted _ hsettles hstring).map fun names hnames => ?_
  exact ⟨⟨Nat.le_refl 0, by simp⟩, by simp, .nil, hlines.fitList hroom, hlocals.fitList hroom,
    hnames.fitList hroom⟩

theorem grammar51_delivers : (grammar51 h).Delivers room (fittingParts 0 0) where
  settles := grammar51_settles h
  head := by
    refine (delivers_terminatedString h hroom).bind fun name hname => ?_
    refine (delivers_int h).bind fun first hfirst => (delivers_int h).bind fun last hlast => ?_
    refine delivers_byte.bind fun upvalues hupvalues => delivers_byte.bind fun params hparams => ?_
    refine .skip settles_byte fun vararg => delivers_byte.map fun maxStack hmaxStack => ?_
    exact ⟨hname, hfirst, hlast, by simpa using hupvalues, hparams, hmaxStack⟩
  instruction := delivers_instruction h
  constant := delivers_taggedConstant _ (delivers_payload51 h hroom)
  upvalues := .pure ⟨Nat.le_refl 0, by simp⟩
  tail := delivers_plainTail hroom (settles_int h) (delivers_terminatedString h hroom)
    (delivers_int h)

theorem grammar52_delivers : (grammar52 h).Delivers room (fittingParts 0 room) where
  settles := grammar52_settles h
  head := by
    refine (delivers_int h).bind fun first hfirst => (delivers_int h).bind fun last hlast => ?_
    refine delivers_byte.bind fun params hparams => .skip settles_byte fun vararg => ?_
    refine delivers_byte.map fun maxStack hmaxStack => ?_
    exact ⟨isLength_zero, hfirst, hlast, by simp, hparams, hmaxStack⟩
  instruction := delivers_instruction h
  constant := delivers_taggedConstant _ (delivers_payload51 h hroom)
  upvalues := .pure ⟨Nat.le_refl 0, by simp⟩
  tail := by
    refine (delivers_counted _ (settles_int h) delivers_upvalue).bind fun upvalues hupvalues => ?_
    refine (delivers_terminatedString h hroom).bind fun name hname => ?_
    refine (delivers_plainTail hroom (settles_int h) (delivers_terminatedString h hroom)
      (delivers_int h)).map fun tail htail => ?_
    exact ⟨hupvalues, by simpa using hname, htail.lineInfo, htail.sourceLines, htail.locals,
      htail.upvalueNames⟩

theorem grammar53_delivers : (grammar53 h).Delivers room (fittingParts room 0) where
  settles := grammar53_settles h
  head := delivers_namedHead (delivers_escapedString h hroom) (delivers_int h)
  instruction := delivers_instruction h
  constant := delivers_taggedConstant _ (delivers_payload53 h hroom)
  upvalues := delivers_counted _ (settles_int h) delivers_upvalue
  tail := delivers_plainTail hroom (settles_int h) (delivers_escapedString h hroom)
    (delivers_int h)

theorem grammar54_delivers : (grammar54 h).Delivers room (fittingParts room 0) where
  settles := grammar54_settles h
  head := (delivers_namedHead (delivers_groupedString hroom) delivers_groupedInt).named _
  instruction := delivers_instruction h
  constant := delivers_taggedConstant _ (delivers_payload54 h hroom)
  upvalues := delivers_counted _ settles_groupedInt delivers_upvalueWithKind
  tail := by
    have hline : anchoredLine.Delivers room fun line => IsWord line.1 ∧ IsWord line.2 :=
      delivers_groupedInt.bind fun _ hpc => delivers_groupedInt.map fun _ hline => ⟨hpc, hline⟩
    refine (delivers_counted _ settles_groupedInt delivers_lineDelta).bind fun deltas hdeltas => ?_
    refine (delivers_counted _ settles_groupedInt hline).bind fun lines hlines => ?_
    refine (delivers_counted _ settles_groupedInt (delivers_localVariable
      (delivers_groupedString hroom) delivers_groupedInt)).bind fun locals hlocals => ?_
    refine (delivers_counted _ settles_groupedInt (delivers_groupedString hroom)).map
      fun names hnames => ?_
    exact ⟨⟨Nat.le_refl 0, by simp⟩, by simp, hdeltas.fitList hroom, hlines.fitList hroom,
      hlocals.fitList hroom, hnames.fitList hroom⟩

end Fields

end Standard

end LuaDump
