import LuaDump.Decode
import LuaDump.Proofs.Inversion

/-! # The labels of standard dumps

Which labels the failures of the parts of a function have. No part knows about functions: its
failures are not about depth, and only the function around it adds the labels of functions.
-/

namespace LuaDump

namespace Decoder

variable {α β σ : Type} {vocabulary : Label → Prop} {d : Decoder α}

/-- Every failure of a decoder is labelled with words of a vocabulary and is not about depth. -/
def Speaks (vocabulary : Label → Prop) (d : Decoder α) : Prop :=
  ∀ ⦃w pos failure last trace⦄, d w pos = .failed failure last trace →
    failure.kind ≠ .depthExceeded ∧ ∀ label ∈ failure.context, vocabulary label

namespace Speaks

theorem pure (value : α) : (Pure.pure value : Decoder α).Speaks vocabulary := by
  intro w pos failure last trace hfailed
  simp [pure_apply] at hfailed

theorem emit (event : Event) : (Decoder.emit event).Speaks vocabulary := by
  intro w pos failure last trace hfailed
  simp [Decoder.emit] at hfailed

theorem failAt {offset : Int} {cause : Cause} (hkind : cause.kind ≠ .depthExceeded) :
    (Decoder.failAt offset cause : Decoder α).Speaks vocabulary := by
  intro w pos failure last trace hfailed
  obtain ⟨rfl, -, -⟩ := Outcome.failed.inj hfailed
  exact ⟨hkind, by simp⟩

theorem fail {cause : Cause} (hkind : cause.kind ≠ .depthExceeded) :
    (Decoder.fail cause : Decoder α).Speaks vocabulary := by
  intro w pos failure last trace hfailed
  obtain ⟨rfl, -, -⟩ := Outcome.failed.inj hfailed
  exact ⟨hkind, by simp⟩

theorem short (what : String) (size : Int) :
    (Decoder.short what size : Decoder α).Speaks vocabulary := by
  intro w pos failure last trace hfailed
  obtain ⟨rfl, -, -⟩ := Outcome.failed.inj hfailed
  exact ⟨by simp [Failure.kind, Cause.kind], by simp⟩

theorem bind {next : α → Decoder β} (hd : d.Speaks vocabulary)
    (hnext : ∀ value, (next value).Speaks vocabulary) : (d >>= next).Speaks vocabulary := by
  intro w pos failure last trace hfailed
  rcases bind_eq_failed_iff.mp hfailed with
    hfirst | ⟨value, mid, first, second, hfirst, hsecond, -⟩
  · exact hd hfirst
  · exact hnext value hsecond

theorem within {label : Label} (hlabel : vocabulary label) (hd : d.Speaks vocabulary) :
    (Decoder.within label d).Speaks vocabulary := by
  intro w pos failure last trace hfailed
  obtain ⟨inner, hinner, rfl⟩ := within_eq_failed_iff.mp hfailed
  obtain ⟨hkind, hcontext⟩ := hd hinner
  exact ⟨hkind, List.forall_mem_cons.mpr ⟨hlabel, hcontext⟩⟩

theorem named {name : String} (hname : vocabulary (.named name)) (hd : d.Speaks vocabulary) :
    (Decoder.named name d).Speaks vocabulary :=
  hd.within hname

theorem collect {item : Nat → Decoder α} (hitem : ∀ index, (item index).Speaks vocabulary)
    (count index : Nat) : (Decoder.collect item count index).Speaks vocabulary := by
  induction count generalizing index with
  | zero => exact .pure []
  | succ count ih => exact (hitem index).bind fun first => (ih (index + 1)).bind fun rest => .pure _

theorem iterate {step : σ → Decoder (σ ⊕ β)} (hstep : ∀ state, (step state).Speaks vocabulary)
    (start : σ) : (Decoder.iterate step start).Speaks vocabulary := by
  have hrounds : ∀ rounds state, (iterateFor step rounds state).Speaks vocabulary := by
    intro rounds
    induction rounds with
    | zero => exact fun state => .short "byte" 1
    | succ rounds ih =>
        intro state
        refine (hstep state).bind fun next => ?_
        cases next with
        | inl next => exact ih next
        | inr result => exact .pure result
  exact fun w pos failure last trace hfailed => hrounds _ start hfailed

end Speaks

section Fields

theorem speaks_nextByte : nextByte.Speaks vocabulary := by
  have hpeek : peekByte.Speaks vocabulary := by
    intro w pos failure last trace hfailed
    unfold peekByte at hfailed
    split at hfailed
    · split at hfailed
      · simp at hfailed
      · obtain ⟨rfl, -, -⟩ := Outcome.failed.inj hfailed
        exact ⟨by simp [Failure.kind, Cause.kind], by simp⟩
    · exact Speaks.short "byte" 1 hfailed
  have hadvance : (advance 1).Speaks vocabulary := by
    intro w pos failure last trace hfailed
    simp [advance] at hfailed
  exact hpeek.bind fun b => hadvance.bind fun _ => .pure b

theorem speaks_position : position.Speaks vocabulary := by
  intro w pos failure last trace hfailed
  simp [position] at hfailed

theorem speaks_field (what : String) (size : Nat) : (field what size).Speaks vocabulary := by
  intro w pos failure last trace hfailed
  unfold field at hfailed
  dsimp only at hfailed
  split at hfailed
  · split at hfailed
    · simp at hfailed
    · obtain ⟨rfl, -, -⟩ := Outcome.failed.inj hfailed
      exact ⟨by simp [Failure.kind, Cause.kind], by simp⟩
  · exact Speaks.short what size hfailed

theorem speaks_take (count : Int) : (take count).Speaks vocabulary := by
  intro w pos failure last trace hfailed
  unfold take at hfailed
  split at hfailed
  · exact Speaks.fail (by simp [Cause.kind]) hfailed
  · split at hfailed
    · simp at hfailed
    · exact Speaks.short "data" count hfailed

theorem speaks_checkWidth (allowed : List Nat) (width : Int) :
    (checkWidth allowed width).Speaks vocabulary := by
  unfold checkWidth
  split
  · exact .pure _
  · exact .fail (by simp [Cause.kind])

theorem speaks_unsigned (width : Int) (bigEndian : Bool) :
    (unsigned width bigEndian).Speaks vocabulary :=
  (speaks_checkWidth _ _).bind fun _ => (speaks_field _ _).bind fun _ => .pure _

theorem speaks_signed (width : Int) (bigEndian : Bool) :
    (signed width bigEndian).Speaks vocabulary :=
  (speaks_checkWidth _ _).bind fun _ => (speaks_field _ _).bind fun _ => .pure _

theorem speaks_float (width : Int) (bigEndian : Bool) :
    (float width bigEndian).Speaks vocabulary :=
  (speaks_checkWidth _ _).bind fun _ => (speaks_field _ _).bind fun _ => .pure _

theorem speaks_highGroups (limit : Int) : (highGroups limit).Speaks vocabulary := by
  refine speaks_position.bind fun start => Speaks.iterate (fun value => ?_) 0
  refine speaks_nextByte.bind fun b => ?_
  split
  · exact .failAt (by simp [Cause.kind])
  · exact .pure _

theorem speaks_checkCount (count : Int) : (checkCount count).Speaks vocabulary := by
  intro w pos failure last trace hfailed
  unfold checkCount at hfailed
  split at hfailed
  · simp at hfailed
  · obtain ⟨rfl, -, -⟩ := Outcome.failed.inj hfailed
    exact ⟨by simp [Failure.kind, Cause.kind], by simp⟩

theorem speaks_counted {label : String} {count : Decoder Int} {item : Decoder α}
    (hlabel : vocabulary (.named label)) (hcount : count.Speaks vocabulary)
    (hitem : item.Speaks vocabulary) : (counted label count item).Speaks vocabulary := by
  refine .named hlabel (hcount.bind fun declared => ?_)
  exact (speaks_checkCount declared).bind fun _ => .collect (fun _ => hitem) _ _

theorem speaks_countedLabelled {label itemLabel : String} {count : Decoder Int} {item : Decoder α}
    (hlabel : vocabulary (.named label)) (hitemLabel : ∀ index, vocabulary (.item itemLabel index))
    (hcount : count.Speaks vocabulary) (hitem : item.Speaks vocabulary) :
    (countedLabelled label itemLabel count item).Speaks vocabulary := by
  refine .named hlabel (hcount.bind fun declared => ?_)
  exact (speaks_checkCount declared).bind fun _ =>
    .collect (fun index => hitem.within (hitemLabel index)) _ _

end Fields

end Decoder

namespace Standard

open Decoder

variable {vocabulary : Label → Prop} {h : Header}

/-- What the labels of the debug information and of the lists are called in every release. -/
def commonNames : List String :=
  ["string", "local", "count instruction", "count constants", "count prototypes",
    "count source lines", "count locals", "count upval names"]

/-- The labels of the parts of a function, by dialect. -/
def labelNames : Dialect → List String
  | .lua51 => ["integer", "size_t", "number"] ++ commonNames
  | .lua52 => ["integer", "size_t", "number", "upvalue", "count upvalues"] ++ commonNames
  | .lua53 =>
    ["integer", "size_t", "integer constant", "float constant", "upvalue", "count upvalues"] ++
      commonNames
  | .lua54 =>
    ["chunk header", "integer constant", "float constant", "upvalue", "count upvalues",
      "count line info"] ++ commonNames
  | .luaJit1 | .luaJit2 | .luau => []

/-- The labels that the parts of a function give. Among the items of lists only constants are
labelled, except for functions themselves. -/
def IsPartLabel (dialect : Dialect) : Label → Prop
  | .named name => name ∈ labelNames dialect
  | .item name _ => name = "constant"

instance (dialect : Dialect) : DecidablePred (IsPartLabel dialect)
  | .named name => inferInstanceAs (Decidable (name ∈ labelNames dialect))
  | .item name _ => inferInstanceAs (Decidable (name = "constant"))

/-- What such labels look like in a context. -/
def IsPartText (dialect : Dialect) (text : String) : Prop :=
  text ∈ labelNames dialect ∨ ∃ index : Nat, text = "constant " ++ toString index

section Texts

variable {dialect : Dialect} {text word rest : String} {label : Label}

theorem IsPartLabel.isPartText (hlabel : IsPartLabel dialect label) :
    IsPartText dialect label.text := by
  cases label with
  | named name => exact .inl hlabel
  | item name index =>
      obtain rfl : name = "constant" := hlabel
      exact .inr ⟨index, rfl⟩

theorem isPrefix_of_eq_append (htext : text = word ++ rest) : word.toList <+: text.toList := by
  rw [htext, String.toList_append]
  exact List.prefix_append _ _

/-- No part of a function is labelled like a function. -/
theorem IsPartText.ne_chunk (htext : IsPartText dialect text) : text ≠ "chunk" := by
  rintro rfl
  rcases htext with hname | ⟨index, hitem⟩
  · revert hname
    cases dialect <;> decide
  · exact absurd (isPrefix_of_eq_append hitem) (by decide)

theorem IsPartText.ne_prototype (htext : IsPartText dialect text) (index : Nat) :
    text ≠ "prototype " ++ toString index := by
  intro heq
  have hstart := isPrefix_of_eq_append heq
  rcases htext with hname | ⟨place, hitem⟩
  · have hnone : ∀ name ∈ labelNames dialect, ¬ "prototype ".toList <+: name.toList := by
      cases dialect <;> decide
    exact hnone _ hname hstart
  · rw [hitem, String.toList_append] at hstart
    simp at hstart

theorem IsPartLabel.ne_chunk (hlabel : IsPartLabel dialect label) : label ≠ .named "chunk" :=
  fun heq => hlabel.isPartText.ne_chunk (congrArg Label.text heq)

theorem IsPartLabel.ne_prototype (hlabel : IsPartLabel dialect label) (index : Nat) :
    label ≠ .item "prototype" index :=
  fun heq => hlabel.isPartText.ne_prototype index (congrArg Label.text heq)

end Texts

section Fields

theorem speaks_byte : byte.Speaks vocabulary :=
  speaks_nextByte.bind fun _ => .pure _

theorem speaks_flag : flag.Speaks vocabulary :=
  speaks_nextByte.bind fun _ => .pure _

theorem speaks_instruction : (instruction h).Speaks vocabulary :=
  (speaks_unsigned _ _).bind fun _ => .pure _

theorem speaks_int (hname : vocabulary (.named "integer")) : (int h).Speaks vocabulary :=
  .named hname ((speaks_unsigned _ _).bind fun _ => .pure _)

theorem speaks_sizeT (hname : vocabulary (.named "size_t")) : (sizeT h).Speaks vocabulary :=
  .named hname ((speaks_unsigned _ _).bind fun _ => .pure _)

theorem speaks_number (hname : vocabulary (.named "number")) : (number h).Speaks vocabulary := by
  refine .named hname ?_
  split
  · exact (speaks_signed _ _).bind fun _ => .pure _
  · exact (speaks_float _ _).bind fun _ => .pure _

theorem speaks_integerConstant (hname : vocabulary (.named "integer constant")) :
    (integerConstant h).Speaks vocabulary :=
  .named hname ((speaks_signed _ _).bind fun _ => .pure _)

theorem speaks_floatConstant (hname : vocabulary (.named "float constant")) :
    (floatConstant h).Speaks vocabulary :=
  .named hname ((speaks_float _ _).bind fun _ => .pure _)

theorem speaks_groupedInt : groupedInt.Speaks vocabulary :=
  (speaks_highGroups _).bind fun _ => .pure _

theorem speaks_sizedBytes (size : Int) : (sizedBytes size).Speaks vocabulary := by
  unfold sizedBytes
  split
  · exact .pure _
  · exact speaks_take _

theorem speaks_terminatedString (hstring : vocabulary (.named "string"))
    (hsize : vocabulary (.named "size_t")) : (terminatedString h).Speaks vocabulary :=
  .named hstring ((speaks_sizeT hsize).bind fun size => (speaks_take size).bind fun _ => .pure _)

theorem speaks_escapedString (hstring : vocabulary (.named "string"))
    (hsize : vocabulary (.named "size_t")) : (escapedString h).Speaks vocabulary := by
  refine .named hstring (speaks_byte.bind fun short => ?_)
  split
  · exact (speaks_sizeT hsize).bind fun size => speaks_sizedBytes size
  · exact (Speaks.pure short).bind fun size => speaks_sizedBytes size

theorem speaks_groupedString (hstring : vocabulary (.named "string")) :
    groupedString.Speaks vocabulary :=
  .named hstring ((speaks_highGroups _).bind fun size => speaks_sizedBytes size)

theorem speaks_upvalue (hname : vocabulary (.named "upvalue")) : upvalue.Speaks vocabulary :=
  .named hname (speaks_flag.bind fun _ => speaks_byte.bind fun _ => .pure _)

theorem speaks_upvalueWithKind (hname : vocabulary (.named "upvalue")) :
    upvalueWithKind.Speaks vocabulary :=
  .named hname
    (speaks_flag.bind fun _ => speaks_byte.bind fun _ => speaks_byte.bind fun _ => .pure _)

theorem speaks_stringConstant {string : Decoder Bytes} (hstring : string.Speaks vocabulary) :
    (stringConstant string).Speaks vocabulary :=
  hstring.bind fun _ => .pure _

theorem speaks_taggedConstant {dialect : Dialect} {payload? : Nat → Option (Decoder Constant)}
    (hpayload : ∀ {tag payload}, payload? tag = some payload → payload.Speaks vocabulary) :
    (taggedConstant dialect payload?).Speaks vocabulary := by
  refine speaks_position.bind fun offset => speaks_nextByte.bind fun tag => ?_
  split
  next payload hsome => exact hpayload hsome
  next => exact .failAt (by simp [Cause.kind])

end Fields

section Parts

variable (hcommon : ∀ name ∈ commonNames, vocabulary (.named name))

include hcommon

theorem speaks_localVariable {string : Decoder Bytes} {int : Decoder Int}
    (hstring : string.Speaks vocabulary) (hint : int.Speaks vocabulary) :
    (localVariable string int).Speaks vocabulary :=
  .named (hcommon _ (by decide))
    (hstring.bind fun _ => hint.bind fun _ => hint.bind fun _ => .pure _)

theorem speaks_plainTail {string : Decoder Bytes} {int : Decoder Int}
    (hstring : string.Speaks vocabulary) (hint : int.Speaks vocabulary) :
    (plainTail string int).Speaks vocabulary := by
  have hline : (plainLine int).Speaks vocabulary := hint.bind fun _ => .pure _
  have hlocal := speaks_localVariable hcommon hstring hint
  refine (speaks_counted (hcommon _ (by decide)) hint hline).bind fun sourceLines => ?_
  refine (speaks_counted (hcommon _ (by decide)) hint hlocal).bind fun locals => ?_
  exact (speaks_counted (hcommon _ (by decide)) hint hstring).bind fun names => .pure _

theorem speaks_tail54 (hlineInfo : vocabulary (.named "count line info"))
    (hstring : groupedString.Speaks vocabulary) : tail54.Speaks vocabulary := by
  have hint : groupedInt.Speaks vocabulary := speaks_groupedInt
  have hdelta : lineDelta.Speaks vocabulary := speaks_nextByte.bind fun _ => .pure _
  have hline : anchoredLine.Speaks vocabulary := hint.bind fun _ => hint.bind fun _ => .pure _
  have hlocal := speaks_localVariable hcommon hstring hint
  refine (speaks_counted hlineInfo hint hdelta).bind fun lineInfo => ?_
  refine (speaks_counted (hcommon _ (by decide)) hint hline).bind fun sourceLines => ?_
  refine (speaks_counted (hcommon _ (by decide)) hint hlocal).bind fun locals => ?_
  exact (speaks_counted (hcommon _ (by decide)) hint hstring).bind fun names => .pure _

end Parts

section Heads

theorem speaks_head51 (hstring : (terminatedString h).Speaks vocabulary)
    (hint : (int h).Speaks vocabulary) : (head51 h).Speaks vocabulary := by
  refine hstring.bind fun name => hint.bind fun first => hint.bind fun last => ?_
  exact speaks_byte.bind fun _ => speaks_byte.bind fun _ => speaks_byte.bind fun _ =>
    speaks_byte.bind fun _ => .pure _

theorem speaks_head52 (hint : (int h).Speaks vocabulary) : (head52 h).Speaks vocabulary := by
  refine hint.bind fun first => hint.bind fun last => ?_
  exact speaks_byte.bind fun _ => speaks_byte.bind fun _ => speaks_byte.bind fun _ => .pure _

theorem speaks_namedHead {string : Decoder Bytes} {int : Decoder Int}
    (hstring : string.Speaks vocabulary) (hint : int.Speaks vocabulary) :
    (namedHead string int).Speaks vocabulary := by
  refine hstring.bind fun name => hint.bind fun first => hint.bind fun last => ?_
  exact speaks_byte.bind fun _ => speaks_byte.bind fun _ => speaks_byte.bind fun _ => .pure _

end Heads

section Constants

theorem speaks_booleanConstant : booleanConstant.Speaks vocabulary :=
  speaks_flag.bind fun _ => .pure _

theorem speaks_payload51 (hnumber : (number h).Speaks vocabulary)
    (hstring : (terminatedString h).Speaks vocabulary) {tag : Nat} {payload : Decoder Constant}
    (hsome : payload51 h tag = some payload) : payload.Speaks vocabulary := by
  unfold payload51 at hsome
  split at hsome <;> simp only [Option.some.injEq, reduceCtorEq] at hsome <;> subst hsome
  · exact .pure _
  · exact speaks_booleanConstant
  · exact hnumber.bind fun _ => .pure _
  · exact speaks_stringConstant hstring

theorem speaks_payload53 (hinteger : (integerConstant h).Speaks vocabulary)
    (hfloat : (floatConstant h).Speaks vocabulary) (hstring : (escapedString h).Speaks vocabulary)
    {tag : Nat} {payload : Decoder Constant} (hsome : payload53 h tag = some payload) :
    payload.Speaks vocabulary := by
  unfold payload53 at hsome
  split at hsome <;> simp only [Option.some.injEq, reduceCtorEq] at hsome <;> subst hsome
  · exact .pure _
  · exact speaks_booleanConstant
  · exact hfloat
  · exact hinteger
  · exact speaks_stringConstant hstring
  · exact speaks_stringConstant hstring

theorem speaks_payload54 (hinteger : (integerConstant h).Speaks vocabulary)
    (hfloat : (floatConstant h).Speaks vocabulary) (hstring : groupedString.Speaks vocabulary)
    {tag : Nat} {payload : Decoder Constant} (hsome : payload54 h tag = some payload) :
    payload.Speaks vocabulary := by
  unfold payload54 at hsome
  split at hsome <;> simp only [Option.some.injEq, reduceCtorEq] at hsome <;> subst hsome
  · exact .pure _
  · exact .pure _
  · exact .pure _
  · exact hinteger
  · exact hfloat
  · exact speaks_stringConstant hstring
  · exact speaks_stringConstant hstring

end Constants

/-- The parts of a function are labelled with words of a vocabulary, which has the labels of
its lists. -/
structure Grammar.Speaks (vocabulary : Label → Prop) (g : Grammar) : Prop where
  common : ∀ name ∈ commonNames, vocabulary (.named name)
  item : ∀ index, vocabulary (.item "constant" index)
  count : g.count.Speaks vocabulary
  head : g.head.Speaks vocabulary
  instruction : g.instruction.Speaks vocabulary
  constant : g.constant.Speaks vocabulary
  upvalues : g.upvalues.Speaks vocabulary
  tail : g.tail.Speaks vocabulary

theorem grammar51_speaks : (grammar51 h).Speaks (IsPartLabel .lua51) := by
  have hcommon : ∀ name ∈ commonNames, IsPartLabel .lua51 (.named name) := by decide
  have hint : (int h).Speaks (IsPartLabel .lua51) := speaks_int (by decide)
  have hstring : (terminatedString h).Speaks (IsPartLabel .lua51) :=
    speaks_terminatedString (by decide) (by decide)
  have hnumber : (number h).Speaks (IsPartLabel .lua51) := speaks_number (by decide)
  exact
    { common := hcommon
      item := fun _ => rfl
      count := hint
      head := speaks_head51 hstring hint
      instruction := speaks_instruction
      constant := speaks_taggedConstant (speaks_payload51 hnumber hstring)
      upvalues := .pure _
      tail := speaks_plainTail hcommon hstring hint }

theorem grammar52_speaks : (grammar52 h).Speaks (IsPartLabel .lua52) := by
  have hcommon : ∀ name ∈ commonNames, IsPartLabel .lua52 (.named name) := by decide
  have hint : (int h).Speaks (IsPartLabel .lua52) := speaks_int (by decide)
  have hstring : (terminatedString h).Speaks (IsPartLabel .lua52) :=
    speaks_terminatedString (by decide) (by decide)
  have hnumber : (number h).Speaks (IsPartLabel .lua52) := speaks_number (by decide)
  have hupvalues : (counted "count upvalues" (int h) upvalue).Speaks (IsPartLabel .lua52) :=
    speaks_counted (by decide) hint (speaks_upvalue (by decide))
  exact
    { common := hcommon
      item := fun _ => rfl
      count := hint
      head := speaks_head52 hint
      instruction := speaks_instruction
      constant := speaks_taggedConstant (speaks_payload51 hnumber hstring)
      upvalues := .pure _
      tail := hupvalues.bind fun _ => hstring.bind fun _ =>
        (speaks_plainTail hcommon hstring hint).bind fun _ => .pure _ }

theorem grammar53_speaks : (grammar53 h).Speaks (IsPartLabel .lua53) := by
  have hcommon : ∀ name ∈ commonNames, IsPartLabel .lua53 (.named name) := by decide
  have hint : (int h).Speaks (IsPartLabel .lua53) := speaks_int (by decide)
  have hstring : (escapedString h).Speaks (IsPartLabel .lua53) :=
    speaks_escapedString (by decide) (by decide)
  have hinteger : (integerConstant h).Speaks (IsPartLabel .lua53) :=
    speaks_integerConstant (by decide)
  have hfloat : (floatConstant h).Speaks (IsPartLabel .lua53) := speaks_floatConstant (by decide)
  exact
    { common := hcommon
      item := fun _ => rfl
      count := hint
      head := speaks_namedHead hstring hint
      instruction := speaks_instruction
      constant := speaks_taggedConstant (speaks_payload53 hinteger hfloat hstring)
      upvalues := speaks_counted (by decide) hint (speaks_upvalue (by decide))
      tail := speaks_plainTail hcommon hstring hint }

theorem grammar54_speaks : (grammar54 h).Speaks (IsPartLabel .lua54) := by
  have hcommon : ∀ name ∈ commonNames, IsPartLabel .lua54 (.named name) := by decide
  have hint : groupedInt.Speaks (IsPartLabel .lua54) := speaks_groupedInt
  have hstring : groupedString.Speaks (IsPartLabel .lua54) := speaks_groupedString (by decide)
  have hinteger : (integerConstant h).Speaks (IsPartLabel .lua54) :=
    speaks_integerConstant (by decide)
  have hfloat : (floatConstant h).Speaks (IsPartLabel .lua54) := speaks_floatConstant (by decide)
  exact
    { common := hcommon
      item := fun _ => rfl
      count := hint
      head := (speaks_namedHead hstring hint).named (by decide)
      instruction := speaks_instruction
      constant := speaks_taggedConstant (speaks_payload54 hinteger hfloat hstring)
      upvalues := speaks_counted (by decide) hint (speaks_upvalueWithKind (by decide))
      tail := speaks_tail54 hcommon (by decide) hstring }

end Standard

end LuaDump
