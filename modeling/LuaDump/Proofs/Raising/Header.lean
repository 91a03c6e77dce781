import LuaDump.Proofs.Prefix
import LuaDump.Proofs.Raising
import LuaDump.Proofs.Standard.Writer

/-! # What headers raise

A header is refused with the label of the header and nothing else, for a reason that stands in
the file. One that is accepted declares widths for which there are fields.
-/

namespace LuaDump

open Decoder

/-- The widths that the header of a dialect declares: the name of each field and the offset of
the byte with its width. -/
def Dialect.widthBytes : Dialect → List (String × Nat)
  | .lua51 | .lua52 => [("int", 7), ("size_t", 8), ("instruction", 9), ("number", 10)]
  | .lua53 =>
    [("int", 12), ("size_t", 13), ("instruction", 14), ("lua_Integer", 15), ("lua_Number", 16)]
  | .lua54 => [("instruction", 12), ("lua_Integer", 13), ("lua_Number", 14)]
  | .luaJit1 | .luaJit2 | .luau => []

namespace Header

/-- The widths that are allowed for a field. Where all numbers are of one kind, the byte behind
their width tells whether they are integers. -/
def allowedWidths (data : Array UInt8) (field : String) : List Nat :=
  if field = "lua_Number" then floatWidths
  else if field = "number" ∧ data[11]? = some 0 then floatWidths
  else integerWidths

/-- Why a header is refused: what is wrong, and where. -/
inductive Grounds (data : Array UInt8) (origin : Origin) : Cause → Int → Prop
  | short {cause : Cause} {offset : Int} (hkind : cause.kind = .truncated) :
      Grounds data origin cause offset
  | width {dialect : Dialect} {field : String} {offset : Nat} {width : UInt8}
      (hversion : data[4]? = some (UInt8.ofNat dialect.code))
      (hfield : (field, offset) ∈ dialect.widthBytes) (hbyte : data[offset]? = some width)
      (hwidth : width.toNat ∉ allowedWidths data field) :
      Grounds data origin (.headerWidth field width.toNat (allowedWidths data field)) offset
  | version {cause : Cause} {offset : Int} (hkind : cause.kind = .unrecognizedDialect)
      (hcause : ∀ head, cause ≠ .unknownSignature head) : Grounds data origin cause offset
  | signature (horigin : origin = .sniffed) :
      Grounds data origin (.unknownSignature (data.extract 0 4).toList) 0
  | compileError {offset : Int} (message : Bytes) (horigin : origin = .luau) :
      Grounds data origin (.compileError message) offset

/-- A failure in a given context, for which there are grounds. -/
structure Refused (data : Array UInt8) (origin : Origin) (context : List Label)
    (failure : Failure) : Prop where
  context_eq : failure.context = context
  nonneg : 0 ≤ failure.offset
  inside : failure.offset ≤ data.size
  grounds : Grounds data origin failure.cause failure.offset

variable {data : Array UInt8} {room : Nat} {origin : Origin} {context : List Label}

theorem Refused.push {failure : Failure} (hrefused : Refused data origin context failure)
    (label : Label) : Refused data origin (label :: context) (failure.push label) :=
  ⟨congrArg (label :: ·) hrefused.context_eq, hrefused.nonneg, hrefused.inside, hrefused.grounds⟩

theorem Grounds.kind_cases {cause : Cause} {offset : Int}
    (hgrounds : Grounds data origin cause offset) :
    cause.kind = .truncated ∨ cause.kind = .unsupportedWidth ∨
      cause.kind = .unrecognizedDialect ∨
        (cause.kind = .embeddedCompileError ∧ origin = .luau) := by
  cases hgrounds with
  | short hkind => exact .inl hkind
  | width hversion hfield hbyte hwidth => exact .inr (.inl rfl)
  | version hkind hcause => exact .inr (.inr (.inl hkind))
  | signature horigin => exact .inr (.inr (.inl rfl))
  | compileError message horigin => exact .inr (.inr (.inr ⟨rfl, horigin⟩))

theorem allowsShort_refused : AllowsShort data (Refused data origin []) :=
  fun _ _ hkind hnonneg hinside => ⟨rfl, hnonneg, hinside, .short hkind⟩

section Raising

theorem inside_of_getElem? {offset : Nat} {b : UInt8} (hbyte : data[offset]? = some b) :
    (offset : Int) ≤ data.size := by
  obtain ⟨hlt, -⟩ := Array.getElem?_eq_some_iff.mp hbyte
  omega

/-- A byte at which the dialect declares a width may be refused. -/
theorem refused_of_width {dialect : Dialect} {field : String} {offset : Nat} {width : UInt8}
    (hversion : data[4]? = some (UInt8.ofNat dialect.code))
    (hfield : (field, offset) ∈ dialect.widthBytes) (hbyte : data[offset]? = some width)
    (hwidth : width.toNat ∉ allowedWidths data field) :
    Refused data origin []
      ⟨.headerWidth field width.toNat (allowedWidths data field), offset, []⟩ :=
  ⟨rfl, Int.natCast_nonneg offset, inside_of_getElem? hbyte, .width hversion hfield hbyte hwidth⟩

/-- A byte at an offset of the data may be refused as a version. -/
theorem raises_refusedVersion {α : Type} {offset : Nat} {b : UInt8} {cause : Cause}
    (hbyte : data[offset]? = some b) (hkind : cause.kind = .unrecognizedDialect)
    (hcause : ∀ head, cause ≠ .unknownSignature head) :
    (failAt offset cause : Decoder α).Raises data room (Refused data origin []) :=
  .failAt ⟨rfl, Int.natCast_nonneg offset, inside_of_getElem? hbyte, .version hkind hcause⟩

theorem raisesAt_declaredWidth_bind {β : Type} {dialect : Dialect} {field : String} {start : Nat}
    {allowed : List Nat} {next : Nat → Decoder β}
    (hversion : data[4]? = some (UInt8.ofNat dialect.code))
    (hfield : (field, start) ∈ dialect.widthBytes) (hallowed : allowedWidths data field = allowed)
    (hstart : start ≤ data.size)
    (hnext : ∀ width : Nat, start + 1 ≤ data.size → Standard.IsWidth allowed width →
      (next width).RaisesAt (Window.whole data) (start + 1 : Nat) (Refused data origin [])) :
    (declaredWidth field allowed >>= next).RaisesAt (Window.whole data) start
      (Refused data origin []) := by
  subst hallowed
  rw [declaredWidth, bind_assoc]
  apply RaisesAt.position_bind (Place.at_offset hstart).inside
  rw [bind_assoc]
  apply RaisesAt.byte_bind allowsShort_refused hstart
  intro width hinside hbyte
  by_cases hwidth : width.toNat ∈ allowedWidths data field
  · rw [if_pos hwidth, pure_bind]
    exact hnext _ hinside ⟨Int.natCast_nonneg _, hwidth⟩
  · rw [if_neg hwidth, failAt_bind]
    exact .of_failed rfl (refused_of_width hversion hfield hbyte hwidth)

/-- A width that is declared is among the allowed ones. -/
theorem declaredWidth_isWidth (field : String) (allowed : List Nat) :
    (declaredWidth field allowed).Yields fun width => Standard.IsWidth allowed width := by
  refine (Yields.any _).bind fun offset _ => (Yields.any _).bind fun width _ => ?_
  split
  next hwidth => exact .pure ⟨Int.natCast_nonneg _, hwidth⟩
  next => exact .failAt _ _

/-- What is left of a header behind its widths, where it has sample numbers. -/
theorem raises_samples {integerSize numberSize : Nat}
    (hnumber : Standard.IsWidth floatWidths numberSize) (header : Bool → Header) :
    (do
      let bigEndian ← sampleOrder integerSize numberSize
      let _ ← nextByte
      pure (header bigEndian)).Raises data room (Refused data origin []) := by
  have hshort : AllowsShort data (Refused data origin []) := allowsShort_refused
  have horder : (sampleOrder integerSize numberSize).Raises data room (Refused data origin []) :=
    (raises_take (Int.natCast_nonneg _) hshort).bind fun _ =>
      (raises_float hnumber _ hshort).bind fun _ => .pure _
  exact horder.bind fun bigEndian => (raises_nextByte hshort).bind fun _ => .pure _

theorem raisesAt_rest51 {dialect : Dialect} (hdialect : dialect = .lua51 ∨ dialect = .lua52)
    (hversion : data[4]? = some (UInt8.ofNat dialect.code)) (hstart : 5 ≤ data.size) :
    (rest51 dialect).RaisesAt (Window.whole data) (5 : Nat) (Refused data origin []) := by
  have hshort : AllowsShort data (Refused data origin []) := allowsShort_refused
  have hbytes : dialect.widthBytes =
      [("int", 7), ("size_t", 8), ("instruction", 9), ("number", 10)] := by
    rcases hdialect with rfl | rfl <;> rfl
  refine .byte_bind hshort hstart fun format hformat _ => ?_
  refine .byte_bind hshort hformat fun order horder _ => ?_
  refine raisesAt_declaredWidth_bind hversion (by simp [hbytes]) (by simp [allowedWidths]) horder
    fun intSize hint _ => ?_
  refine raisesAt_declaredWidth_bind hversion (by simp [hbytes]) (by simp [allowedWidths]) hint
    fun sizeTSize hsizeT _ => ?_
  refine raisesAt_declaredWidth_bind hversion (by simp [hbytes]) (by simp [allowedWidths]) hsizeT
    fun instructionSize hinstruction _ => ?_
  apply RaisesAt.position_bind (Place.at_offset hinstruction).inside
  refine .byte_bind hshort hinstruction fun numberSize hnumber hbyte => ?_
  refine .byte_bind hshort hnumber fun integral hintegral hkind => ?_
  have hplace := Place.at_offset hintegral
  have hallowed : (if (integral != 0) = true then integerWidths else floatWidths) =
      allowedWidths data "number" := by
    by_cases hzero : integral = 0 <;> simp [allowedWidths, hkind, hzero]
  dsimp only
  rw [hallowed]
  split
  next hwidth =>
    rw [failAt_bind]
    exact .of_failed rfl (refused_of_width hversion (by simp [hbytes]) hbyte hwidth)
  next =>
    split
    · exact ((raises_skip 6 hshort).bind fun _ => .pure _) rfl hplace
    · exact Raises.pure _ rfl hplace

theorem raisesAt_rest53 (hversion : data[4]? = some (UInt8.ofNat Dialect.lua53.code))
    (hstart : 5 ≤ data.size) :
    rest53.RaisesAt (Window.whole data) (5 : Nat) (Refused data origin []) := by
  refine .byte_bind allowsShort_refused hstart fun format hformat _ => ?_
  refine .skip_bind allowsShort_refused hformat fun hskip => ?_
  refine raisesAt_declaredWidth_bind hversion (by decide) (by simp [allowedWidths]) hskip
    fun intSize hint _ => ?_
  refine raisesAt_declaredWidth_bind hversion (by decide) (by simp [allowedWidths]) hint
    fun sizeTSize hsizeT _ => ?_
  refine raisesAt_declaredWidth_bind hversion (by decide) (by simp [allowedWidths]) hsizeT
    fun instructionSize hinstruction _ => ?_
  refine raisesAt_declaredWidth_bind hversion (by decide) (by simp [allowedWidths]) hinstruction
    fun integerSize hinteger _ => ?_
  refine raisesAt_declaredWidth_bind hversion (by decide) (by simp [allowedWidths]) hinteger
    fun numberSize hnumber hwidth => ?_
  exact raises_samples hwidth _ rfl (Place.at_offset hnumber)

theorem raisesAt_rest54 (hversion : data[4]? = some (UInt8.ofNat Dialect.lua54.code))
    (hstart : 5 ≤ data.size) :
    rest54.RaisesAt (Window.whole data) (5 : Nat) (Refused data origin []) := by
  refine .byte_bind allowsShort_refused hstart fun format hformat _ => ?_
  refine .skip_bind allowsShort_refused hformat fun hskip => ?_
  refine raisesAt_declaredWidth_bind hversion (by decide) (by simp [allowedWidths]) hskip
    fun instructionSize hinstruction _ => ?_
  refine raisesAt_declaredWidth_bind hversion (by decide) (by simp [allowedWidths]) hinstruction
    fun integerSize hinteger _ => ?_
  refine raisesAt_declaredWidth_bind hversion (by decide) (by simp [allowedWidths]) hinteger
    fun numberSize hnumber hwidth => ?_
  exact raises_samples hwidth _ rfl (Place.at_offset hnumber)

theorem raisesAt_afterLua (hstart : 4 ≤ data.size) :
    afterLua.RaisesAt (Window.whole data) (4 : Nat) (Refused data origin []) := by
  apply RaisesAt.position_bind (Place.at_offset hstart).inside
  apply RaisesAt.byte_bind allowsShort_refused hstart
  intro selector hinside hbyte
  have hcode : ∀ dialect : Dialect, selector.toNat = dialect.code →
      data[4]? = some (UInt8.ofNat dialect.code) := by
    intro dialect hselector
    rw [hbyte, ← hselector, UInt8.ofNat_toNat]
  split
  next hselector => exact raisesAt_rest51 (.inl rfl) (hcode .lua51 hselector) hinside
  next hselector => exact raisesAt_rest51 (.inr rfl) (hcode .lua52 hselector) hinside
  next hselector => exact raisesAt_rest53 (hcode .lua53 hselector) hinside
  next hselector => exact raisesAt_rest54 (hcode .lua54 hselector) hinside
  next =>
    have hrefused : (failAt (4 : Nat) (.luaVersion selector.toNat) : Decoder Header).Raises data
        data.size (Refused data origin []) := raises_refusedVersion hbyte rfl (by simp)
    exact hrefused rfl (Place.at_offset hinside)

theorem raises_afterLuaJit : afterLuaJit.Raises data room (Refused data origin []) := by
  refine .byte_bind allowsShort_refused fun offset selector hbyte => ?_
  have hrest : ∀ dialect, (restJit dialect).Raises data room (Refused data origin []) :=
    fun _ => (raises_nextByte allowsShort_refused).bind fun _ => .pure _
  split
  · exact hrest _
  · exact hrest _
  · exact raises_refusedVersion hbyte rfl (by simp)

/-- A choice by a signature. Where it does not match, nothing has been passed. -/
theorem raisesAt_matchSignature_bind {α : Type} {blame : Failure → Prop} {signature : Bytes}
    {next : Bool → Decoder α} {w : Window} {pos : Int} (hshort : AllowsShort data blame)
    (hdata : w.data = data) (hplace : Place room w pos)
    (hyes : pos + signature.length ≤ w.stop →
      (next true).RaisesAt w (pos + signature.length) blame)
    (hno : (next false).RaisesAt w pos blame) :
    (matchSignature signature >>= next).RaisesAt w pos blame := by
  have hinside := hplace.inside
  have hlength : ((signatureHead signature w pos).length : Int) = _ :=
    length_signatureHead hplace.sound hplace.nonneg hinside
  by_cases heq : signatureHead signature w pos = signature
  · have hdone := matchSignature_of_eq heq
    rw [heq] at hlength
    refine RaisesAt.bind (.of_done hdone (by omega) (by omega)) fun hmid => ?_
    obtain ⟨rfl, rfl, -⟩ := Outcome.done.inj (hdone.symm.trans hmid)
    exact hyes (by omega)
  · by_cases hpre : signatureHead signature w pos <+: signature
    · have hfailed : matchSignature signature w pos =
          .failed ⟨.shortSignature signature, pos + (signatureHead signature w pos).length, []⟩
            pos [] := by
        unfold matchSignature
        rw [← signatureHead, if_neg heq, if_pos (List.isPrefixOf_iff_prefix.mpr hpre)]
      have hnonneg := hplace.nonneg
      have hfile := hplace.sound.inFile
      rw [hdata] at hfile
      exact .of_failed (bind_of_failed hfailed) (hshort rfl (by omega) (by omega))
    · have hdone := matchSignature_of_mismatch hpre
      refine RaisesAt.bind (.of_done hdone (Int.le_refl pos) hinside) fun hmid => ?_
      obtain ⟨rfl, rfl, -⟩ := Outcome.done.inj (hdone.symm.trans hmid)
      exact hno

theorem raises_luauVersions : luauVersions.Raises data room (Refused data .luau []) := by
  refine .byte_bind allowsShort_refused fun offset version hbyte => ?_
  split
  · refine .remaining_bind fun left hleft => ?_
    refine (raises_take hleft allowsShort_refused).bind fun message => .failAt ?_
    exact ⟨rfl, Int.natCast_nonneg offset, inside_of_getElem? hbyte, .compileError message rfl⟩
  · split
    · exact raises_refusedVersion hbyte rfl (by simp)
    · split
      · exact .pure _
      · refine .byte_bind allowsShort_refused fun offset types htypes => ?_
        split
        · exact raises_refusedVersion htypes rfl (by simp)
        · exact .pure _

end Raising

/-- What the header of a file raises. -/
theorem raisesAt_header (data : Array UInt8) (origin : Origin) :
    origin.header.RaisesAt (Window.whole data) 0 (Refused data origin [.named "header"]) := by
  have hlabel : ∀ failure, Refused data origin [] failure →
      Refused data origin [.named "header"] (failure.push (.named "header")) :=
    fun failure hrefused => hrefused.push _
  have hplace := Place.whole data
  cases origin with
  | luau =>
      have hluau : Header.luau.Raises data data.size (Refused data .luau [.named "header"]) :=
        ((raises_luauVersions.mono hlabel).named).bind fun versions =>
          (Raises.emit _).bind fun _ => .pure _
      exact hluau rfl hplace
  | sniffed =>
      have hunknown : unknownSignature.RaisesAt (Window.whole data) 0
          (Refused data .sniffed []) :=
        .of_failed rfl ⟨rfl, Int.le_refl 0, Int.natCast_nonneg _, .signature rfl⟩
      have hjit : (do
          if ← matchSignature luaJitSignature then afterLuaJit
          else unknownSignature).RaisesAt (Window.whole data) 0 (Refused data .sniffed []) :=
        raisesAt_matchSignature_bind allowsShort_refused rfl hplace
          (fun hinside => raises_afterLuaJit rfl (hplace.next (by omega) hinside)) hunknown
      have hlua : (do
          if ← matchSignature luaSignature then afterLua
          else if ← matchSignature luaJitSignature then afterLuaJit
          else unknownSignature).RaisesAt (Window.whole data) 0 (Refused data .sniffed []) :=
        raisesAt_matchSignature_bind allowsShort_refused rfl hplace
          (fun hinside => raisesAt_afterLua (Int.ofNat_le.mp hinside)) hjit
      apply (hlua.mono hlabel).within.bind
      intro header mid trace hdone
      have hmid := (hlua.mono hlabel).within.done hdone
      have hrest : (do
          emit (.header header)
          pure header : Decoder Header).Raises data data.size
            (Refused data .sniffed [.named "header"]) := (Raises.emit _).bind fun _ => .pure _
      exact hrest rfl (hplace.next hmid.1 hmid.2)

/-- A header whose widths are those of fields. -/
structure Readable (h : Header) : Prop where
  intSize : Standard.IsWidth integerWidths h.intSize
  sizeTSize : Standard.IsWidth integerWidths h.sizeTSize
  instructionSize : Standard.IsWidth integerWidths h.instructionSize
  integerSize : Standard.IsWidth integerWidths h.integerSize
  numberSize : Standard.IsWidth (if h.numberIntegral then integerWidths else floatWidths)
    h.numberSize
  /-- Where integers and floats are kept apart, numbers are floats. -/
  numberIntegral : h.dialect = .lua53 ∨ h.dialect = .lua54 → h.numberIntegral = false

section Readable

variable {dialect : Dialect}

theorem isWidth_four : Standard.IsWidth integerWidths 4 := by
  decide

theorem isWidth_eight : Standard.IsWidth integerWidths 8 := by
  decide

theorem rest51_readable (hdialect : dialect = .lua51 ∨ dialect = .lua52) :
    (rest51 dialect).Yields fun h => h.Readable ∧ h.dialect = dialect := by
  refine (Yields.any _).bind fun format _ => (Yields.any _).bind fun order _ => ?_
  refine (declaredWidth_isWidth _ _).bind fun intSize hintSize => ?_
  refine (declaredWidth_isWidth _ _).bind fun sizeTSize hsizeTSize => ?_
  refine (declaredWidth_isWidth _ _).bind fun instructionSize hinstructionSize => ?_
  refine (Yields.any _).bind fun offset _ => (Yields.any _).bind fun numberSize _ => ?_
  refine (Yields.any _).bind fun integral _ => ?_
  dsimp only
  generalize hallowed : (if (integral != 0) = true then integerWidths else floatWidths) = allowed
  split
  next =>
    rw [failAt_bind]
    exact .failAt _ _
  next hnumber =>
    have hreadable : ∀ bigEndian, Readable
        { dialect, formatVersion := format.toNat, bigEndian, intSize, sizeTSize, instructionSize,
          numberSize := numberSize.toNat, numberIntegral := integral != 0 } := fun _ =>
      { intSize := hintSize
        sizeTSize := hsizeTSize
        instructionSize := hinstructionSize
        integerSize := isWidth_eight
        numberSize := by
          dsimp only
          rw [hallowed]
          exact ⟨Int.natCast_nonneg _, Decidable.not_not.mp hnumber⟩
        numberIntegral := by rcases hdialect with rfl | rfl <;> simp }
    split
    · exact (Yields.any _).bind fun _ _ => .pure ⟨hreadable _, rfl⟩
    · exact .pure ⟨hreadable _, rfl⟩

theorem rest53_readable : rest53.Yields fun h => h.Readable ∧ h.dialect = .lua53 := by
  refine (Yields.any _).bind fun format _ => (Yields.any _).bind fun _ _ => ?_
  refine (declaredWidth_isWidth _ _).bind fun intSize hintSize => ?_
  refine (declaredWidth_isWidth _ _).bind fun sizeTSize hsizeTSize => ?_
  refine (declaredWidth_isWidth _ _).bind fun instructionSize hinstructionSize => ?_
  refine (declaredWidth_isWidth _ _).bind fun integerSize hintegerSize => ?_
  refine (declaredWidth_isWidth _ _).bind fun numberSize hnumberSize => ?_
  refine (Yields.any _).bind fun bigEndian _ => (Yields.any _).bind fun _ _ => .pure ⟨?_, rfl⟩
  exact ⟨hintSize, hsizeTSize, hinstructionSize, hintegerSize, hnumberSize, fun _ => rfl⟩

theorem rest54_readable : rest54.Yields fun h => h.Readable ∧ h.dialect = .lua54 := by
  refine (Yields.any _).bind fun format _ => (Yields.any _).bind fun _ _ => ?_
  refine (declaredWidth_isWidth _ _).bind fun instructionSize hinstructionSize => ?_
  refine (declaredWidth_isWidth _ _).bind fun integerSize hintegerSize => ?_
  refine (declaredWidth_isWidth _ _).bind fun numberSize hnumberSize => ?_
  refine (Yields.any _).bind fun bigEndian _ => (Yields.any _).bind fun _ _ => .pure ⟨?_, rfl⟩
  exact ⟨isWidth_four, isWidth_eight, hinstructionSize, hintegerSize, hnumberSize, fun _ => rfl⟩

theorem restJit_readable : (restJit dialect).Yields fun h =>
    h.Readable ∧ h.dialect = dialect := by
  refine (Yields.any _).bind fun flags _ => .pure ⟨?_, rfl⟩
  have hnumber : Standard.IsWidth floatWidths 4 := by decide
  exact ⟨isWidth_four, isWidth_four, isWidth_four, isWidth_eight, hnumber, fun _ => rfl⟩

/-- An accepted header has the widths of fields, and it is a Luau header only if that was known
beforehand. -/
theorem header_readable (origin : Origin) :
    origin.header.Yields fun h => h.Readable ∧ (h.dialect = .luau ↔ origin = .luau) := by
  cases origin with
  | luau =>
      refine (Yields.any _).bind fun versions _ => (Yields.any _).bind fun _ _ => .pure ⟨?_, by simp⟩
      have hnumber : Standard.IsWidth floatWidths 8 := by decide
      exact ⟨isWidth_four, isWidth_four, isWidth_four, isWidth_eight, hnumber, fun _ => rfl⟩
  | sniffed =>
      have hother : ∀ {d : Decoder Header} {dialect : Dialect}, dialect ≠ .luau →
          (d.Yields fun h => h.Readable ∧ h.dialect = dialect) →
          d.Yields fun h => h.Readable ∧ (h.dialect = .luau ↔ Origin.sniffed = .luau) := by
        intro d dialect hne hd w pos h last trace hdone
        obtain ⟨hreadable, rfl⟩ := hd hdone
        exact ⟨hreadable, by simpa using hne⟩
      have hlua : afterLua.Yields fun h =>
          h.Readable ∧ (h.dialect = .luau ↔ Origin.sniffed = .luau) := by
        refine (Yields.any _).bind fun offset _ => (Yields.any _).bind fun selector _ => ?_
        split
        · exact hother (by decide) (rest51_readable (.inl rfl))
        · exact hother (by decide) (rest51_readable (.inr rfl))
        · exact hother (by decide) rest53_readable
        · exact hother (by decide) rest54_readable
        · exact .failAt _ _
      have hjit : afterLuaJit.Yields fun h =>
          h.Readable ∧ (h.dialect = .luau ↔ Origin.sniffed = .luau) := by
        refine (Yields.any _).bind fun offset _ => (Yields.any _).bind fun selector _ => ?_
        split
        · exact hother (by decide) restJit_readable
        · exact hother (by decide) restJit_readable
        · exact .failAt _ _
      refine .bind (.named ?_ _) fun header hheader => (Yields.any _).bind fun _ _ => .pure hheader
      refine (Yields.any _).bind fun isLua _ => ?_
      split
      · exact hlua
      · refine (Yields.any _).bind fun isJit _ => ?_
        split
        · exact hjit
        · exact fun _ _ _ _ _ hdone => absurd hdone (by simp [unknownSignature])

end Readable

end Header

end LuaDump
