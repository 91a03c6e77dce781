import LuaDump.Proofs.Standard.Writer

/-! # Fields of standard dumps are read back

What the parts of a function are read back from, in every release. Parts that several
releases share are stated for any way to write strings and integers that is read back.
-/

namespace LuaDump.Standard

open Decoder

section Sequences

variable {α γ : Type} {item : Decoder α} {write : γ → Bytes} {found : γ → α} {sources : List γ}
  {count : Decoder Int} {writeCount : Nat → Bytes}

theorem reads_counted (label : String)
    (hcount : count.Reads (writeCount sources.length) sources.length) (hsettles : item.Settles 1)
    (hitem : ∀ source ∈ sources, item.Reads (write source) (found source)) :
    (counted label count item).Reads (listBytes writeCount write sources) (sources.map found) := by
  have hwrite : ∀ source ∈ sources, 1 ≤ (write source).length :=
    fun source hsource => (hitem source hsource).one_le_length hsettles
  exact .named _ (hcount.bind (reads_items_map rfl hwrite hitem))

theorem reads_countedLabelled (label itemLabel : String)
    (hcount : count.Reads (writeCount sources.length) sources.length) (hsettles : item.Settles 1)
    (hitem : ∀ source ∈ sources, item.Reads (write source) (found source)) :
    (countedLabelled label itemLabel count item).Reads (listBytes writeCount write sources)
      (sources.map found) := by
  have hwrite : ∀ source ∈ sources, 1 ≤ (write source).length :=
    fun source hsource => (hitem source hsource).one_le_length hsettles
  exact .named _ (hcount.bind (reads_labelledItems_map rfl hwrite hitem))

end Sequences

section Header

variable {h : Header}

theorem IsWidth.eq_toNat {allowed : List Nat} {width : Int} (hwidth : IsWidth allowed width) :
    width = width.toNat :=
  (Int.toNat_of_nonneg hwidth.1).symm

theorem reads_instruction (hwidth : IsWidth integerWidths h.instructionSize) {word : Nat}
    (hword : word < 256 ^ h.instructionSize.toNat) :
    (instruction h).Reads (instructionBytes h word) word :=
  (reads_unsigned h.bigEndian hwidth.eq_toNat hwidth.2 hword).map

theorem reads_byte (b : UInt8) : byte.Reads [b] b.toNat :=
  (reads_nextByte b).map

theorem reads_double {width : Int} (hwidth : width = 8) (value : Binary64) :
    (float width h.bigEndian).Reads (Bytes.ofNat h.bigEndian 8 value.pattern) value :=
  hwidth ▸ reads_float h.bigEndian value

end Header

theorem varargOfFlag_varargFlag {vararg : Option Vararg}
    (hvararg : ∀ found ∈ vararg, found = ⟨false, false⟩) :
    varargOfFlag (varargFlag vararg).toNat = vararg := by
  cases vararg with
  | none => rfl
  | some found => rw [hvararg found rfl]; rfl

/-- The head of a function that has its name and no count of its captured variables in it. -/
def Source.head (source : Source) : Head where
  name := textOf source.name
  lineDefined := source.lineDefined
  lastLineDefined := source.lastLineDefined
  numParams := source.numParams.toNat
  vararg := source.vararg
  maxStack := source.maxStack.toNat

/-- The debug information of a function. -/
def Source.debug (source : Source) : Tail where
  lineInfo := source.lineInfo
  sourceLines := source.body.sourceLines
  locals := source.body.locals
  upvalueNames := source.body.upvalueNames

/-- The strings and the integers that fit are read back. -/
structure Conveys (string : Decoder Bytes) (int : Decoder Int)
    (writeString : Option Bytes → Bytes) (writeInt : Nat → Bytes) (limits : Limits) : Prop where
  settles_string : string.Settles 1
  settles_int : int.Settles 1
  string : ∀ {value}, limits.string value → string.Reads (writeString value) (textOf value)
  int : ∀ {n : Nat}, n < limits.int → int.Reads (writeInt n) n

namespace Conveys

variable {string : Decoder Bytes} {int : Decoder Int} {writeString : Option Bytes → Bytes}
  {writeInt : Nat → Bytes} {limits : Limits} {source : Source} {childCount : Nat}

theorem locals (hfields : Conveys string int writeString writeInt limits)
    (hsource : limits.Hold source childCount) :
    (counted "count locals" int (localVariable string int)).Reads
      (listBytes writeInt (variableBytes writeString writeInt) source.locals)
      source.body.locals := by
  refine reads_counted _ (hfields.int hsource.locals_length)
    (settles_localVariable hfields.settles_string hfields.settles_int) fun entry hentry => ?_
  obtain ⟨hname, hstart, hend⟩ := hsource.locals entry hentry
  exact .named _ ((hfields.string hname).bind ((hfields.int hstart).bind (hfields.int hend).map))

theorem upvalueNames (hfields : Conveys string int writeString writeInt limits)
    (hsource : limits.Hold source childCount) :
    (counted "count upval names" int string).Reads
      (listBytes writeInt writeString source.upvalueNames) source.body.upvalueNames :=
  reads_counted _ (hfields.int hsource.upvalueNames_length) hfields.settles_string
    fun name hname => hfields.string (hsource.upvalueNames name hname)

theorem plainLines (hfields : Conveys string int writeString writeInt limits)
    (hsource : limits.Hold source childCount) (hlines : PlainLines source) :
    (counted "count source lines" int (plainLine int)).Reads
      (listBytes writeInt (fun line => writeInt line.1) source.sourceLines)
      source.body.sourceLines := by
  refine reads_counted _ (hfields.int hsource.sourceLines_length)
    (hfields.settles_int.bind fun _ => settles_pure _) fun line hline => ?_
  rw [hlines.sourceLines line hline]
  exact (hfields.int (hsource.sourceLines line hline).1).map

theorem plainTail (hfields : Conveys string int writeString writeInt limits)
    (hsource : limits.Hold source childCount) (hlines : PlainLines source) :
    (plainTail string int).Reads (plainTailBytes writeString writeInt source) source.debug := by
  refine (hfields.plainLines hsource hlines).bind ((hfields.locals hsource).bind ?_)
  refine (hfields.upvalueNames hsource).bind_nil ?_
  rw [Source.debug, hlines.lineInfo]
  exact .pure _

theorem namedHead (hfields : Conveys string int writeString writeInt limits)
    (hsource : limits.Hold source childCount) (hdescribed : Described source) :
    (namedHead string int).Reads (namedHeadBytes writeString writeInt source) source.head := by
  refine (hfields.string hsource.name).bind ((hfields.int hsource.lineDefined).bind ?_)
  refine (hfields.int hsource.lastLineDefined).bind ?_
  refine (reads_byte _).bind ((reads_byte _).bind ((reads_byte _).bind_nil ?_))
  rw [varargOfFlag_varargFlag hdescribed.vararg]
  exact .pure _

end Conveys

section Releases

variable {h : Header} {source : Source} {childCount : Nat}

end Releases

end LuaDump.Standard
