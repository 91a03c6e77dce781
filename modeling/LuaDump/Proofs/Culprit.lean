import LuaDump.Proofs.Literal.QuotedBytes
import LuaDump.Proofs.Raising.Record

/-! # Offsets point at the culprit

Every failure points into its file. Where it blames a tag, a width or an integer, that is what
stands at its offset: the tag and the width are the byte there, and the integer is refused in
the same way when it is read from there in the whole file.
-/

namespace LuaDump

open Decoder

variable {options : Options} {data : Array UInt8} {failure : Failure}

/-- How a dialect names a tag that it does not know: in decimal, or, in Lua 5.3 and 5.4, by two
digits in base sixteen. -/
def Dialect.NamesTag (dialect : Dialect) (tag : UInt8) (reason : String) : Prop :=
  dialect ∈ [.lua51, .lua52] ∧ reason = "Unknown constant type: " ++ toString tag.toNat ∨
  dialect ∈ [.lua53, .lua54] ∧ reason = "Unknown constant type: 0x" ++
    String.ofList [Nat.digitChar (tag.toNat / 16), Nat.digitChar (tag.toNat % 16)] ∨
  dialect = .luau ∧ reason = "Unrecognized constant type: " ++ toString tag.toNat

/-- What a failure points at. -/
structure Pointed (options : Options) (data : Array UInt8) (failure : Failure) : Prop where
  nonneg : 0 ≤ failure.offset
  inside : failure.offset ≤ data.size
  /-- The byte is no tag of the dialect, and it is the one that the reason names. -/
  constantTag : failure.kind = .unknownConstantTag → ∃ (h : Header) (tags : List Nat) (tag : UInt8),
    HasHeader options data h ∧ h.dialect.constantTags? = some tags ∧
      data[failure.offset.toNat]? = some tag ∧ tag.toNat ∉ tags ∧
        h.dialect.NamesTag tag failure.reason
  /-- The byte is where the dialect declares the width of a field, and no width for it. -/
  width : failure.kind = .unsupportedWidth → ∃ (dialect : Dialect) (field : String) (width : UInt8),
    data[4]? = some (UInt8.ofNat dialect.code) ∧
      (field, failure.offset.toNat) ∈ dialect.widthBytes ∧
        data[failure.offset.toNat]? = some width ∧ width.toNat ∉ Header.allowedWidths data field ∧
          failure.cause = .headerWidth field width.toNat (Header.allowedWidths data field)
  /-- The integer is refused in the same way when the whole file is read from there. -/
  overflow : failure.kind = .integerOverflow →
    ∃ (h : Header) (reader : Decoder Nat) (fresh : Failure) (last : Int) (trace : List Event),
      HasHeader options data h ∧ reader ∈ h.dialect.varints ∧
        reader (Window.whole data) failure.offset = .failed fresh last trace ∧
          fresh.kind = .integerOverflow ∧ fresh.offset = failure.offset ∧
            fresh.reason = failure.reason

theorem Header.Refused.pointed {context : List Label}
    (hrefused : Header.Refused data options.origin context failure) :
    Pointed options data failure where
  nonneg := hrefused.nonneg
  inside := hrefused.inside
  constantTag := by
    intro hkind
    have hcases := hrefused.grounds.kind_cases
    simp [show failure.cause.kind = _ from hkind] at hcases
  width := by
    intro hkind
    obtain ⟨cause, offset, context⟩ := failure
    cases hrefused.grounds with
    | width hversion hfield hbyte hwidth => exact ⟨_, _, _, hversion, hfield, hbyte, hwidth, rfl⟩
    | short hshort => simp [Failure.kind, hshort] at hkind
    | version hversion => simp [Failure.kind, hversion] at hkind
    | signature => simp [Failure.kind, Cause.kind] at hkind
    | compileError => simp [Failure.kind, Cause.kind] at hkind
  overflow := by
    intro hkind
    have hcases := hrefused.grounds.kind_cases
    simp [show failure.cause.kind = _ from hkind] at hcases

/-- Every dialect whose constants have tags names a tag that it does not know. -/
theorem Dialect.namesTag_constantTagText {dialect : Dialect} {tags : List Nat}
    (htags : dialect.constantTags? = some tags) (tag : UInt8) :
    dialect.NamesTag tag (Cause.constantTagText dialect tag.toNat) := by
  have hexadecimal : "Unknown constant type: 0x" ++ hexText 2 tag.toNat =
      "Unknown constant type: 0x" ++
        String.ofList [Nat.digitChar (tag.toNat / 16), Nat.digitChar (tag.toNat % 16)] := by
    rw [hexText, if_neg (by omega), Int.natAbs_natCast, hexDigits_two tag.toNat_lt]
  cases dialect with
  | lua51 => exact .inl ⟨by decide, rfl⟩
  | lua52 => exact .inl ⟨by decide, rfl⟩
  | lua53 => exact .inr (.inl ⟨by decide, hexadecimal⟩)
  | lua54 => exact .inr (.inl ⟨by decide, hexadecimal⟩)
  | luaJit1 => simp [constantTags?] at htags
  | luaJit2 => simp [constantTags?] at htags
  | luau => exact .inr (.inr ⟨rfl, rfl⟩)

theorem Founded.pointed {h : Header} (hheader : HasHeader options data h)
    (hfounded : Founded data h.dialect options.maxDepth failure) :
    Pointed options data failure where
  nonneg := hfounded.nonneg
  inside := hfounded.inside
  constantTag := by
    intro hkind
    obtain ⟨cause, offset, context⟩ := failure
    cases hfounded.grounds with
    | constantTag htags hbyte htag =>
        exact ⟨h, _, _, hheader, htags, hbyte, htag, Dialect.namesTag_constantTagText htags _⟩
    | short hshort => simp [Failure.kind, hshort] at hkind
    | overflow hoverflow => simp [Failure.kind, hoverflow] at hkind
    | stack hdialect hstack => simp [show cause.kind = _ from hkind] at hstack
    | reference hdialect hreference => simp [Failure.kind, hreference] at hkind
    | tooDeep => simp [Failure.kind, Cause.kind] at hkind
  width := by
    intro hkind
    have hcases := hfounded.grounds.kind_cases
    simp [show failure.cause.kind = _ from hkind] at hcases
  overflow := by
    intro hkind
    obtain ⟨cause, offset, context⟩ := failure
    cases hfounded.grounds with
    | overflow hoverflow hreader hfailed =>
        exact ⟨h, _, _, _, _, hheader, hreader, hfailed, hoverflow, rfl, rfl⟩
    | constantTag => simp [Failure.kind, Cause.kind] at hkind
    | short hshort => simp [Failure.kind, hshort] at hkind
    | stack hdialect hstack => simp [show cause.kind = _ from hkind] at hstack
    | reference hdialect hreference => simp [Failure.kind, hreference] at hkind
    | tooDeep => simp [Failure.kind, Cause.kind] at hkind

/-- Every failure of a file points into the file and at what it blames. -/
theorem failure_points_at_culprit {last : Int} {trace : List Event}
    (hfailed : decode options data = .failed failure last trace) :
    Pointed options data failure := by
  cases rejection_of_decode hfailed with
  | header hrefused => exact hrefused.pointed
  | function hheader hdialect hfounded => exact hfounded.pointed hheader
  | disabled hheader hdisabled hfailure =>
      subst hfailure
      constructor <;> simp [Failure.kind, Cause.kind]

/-- A LuaJIT dump whose one record counts more constants than 32 bits can hold. -/
def longCountSample : Array UInt8 :=
  #[0x1B, 0x4C, 0x4A, 2, 2, 9, 0, 0, 2, 0, 0xFF, 0xFF, 0xFF, 0xFF, 0x7F]

/-- A dump of Lua 5.3 whose only constant has an unknown tag. -/
def unknownTagSample : Array UInt8 :=
  #[0x1B, 0x4C, 0x75, 0x61, 0x53, 0, 0x19, 0x93, 0x0D, 0x0A, 0x1A, 0x0A, 1, 1, 1, 2, 4, 0x78, 0x56,
    0, 0, 0, 0, 0, 0, 0, 0, 0, 0, 0, 0, 1, 0x2A]

theorem failure_points_at_culprit_samples :
    (∃ failure last trace, decode {} longCountSample = .failed failure last trace ∧
      failure.kind = .integerOverflow ∧ failure.offset = 10 ∧
        Pointed {} longCountSample failure) ∧
    ∃ failure last trace, decode {} unknownTagSample = .failed failure last trace ∧
      failure.kind = .unknownConstantTag ∧ failure.offset = 32 ∧
        failure.reason = "Unknown constant type: 0x2a" ∧ Pointed {} unknownTagSample failure := by
  obtain ⟨failure, last, trace, hfailed, hkind, hoffset⟩ : ∃ failure last trace,
      decode {} longCountSample = .failed failure last trace ∧ failure.kind = .integerOverflow ∧
        failure.offset = 10 := ⟨_, _, _, rfl, rfl, rfl⟩
  obtain ⟨failure', last', trace', hfailed', hfields⟩ : ∃ failure last trace,
      decode {} unknownTagSample = .failed failure last trace ∧
        failure.kind = .unknownConstantTag ∧ failure.offset = 32 ∧
          failure.reason = "Unknown constant type: 0x2a" := ⟨_, _, _, rfl, rfl, rfl, rfl⟩
  obtain ⟨hkind', hoffset', hreason⟩ := hfields
  exact ⟨⟨failure, last, trace, hfailed, hkind, hoffset, failure_points_at_culprit hfailed⟩,
    failure', last', trace', hfailed', hkind', hoffset', hreason,
    failure_points_at_culprit hfailed'⟩

end LuaDump
