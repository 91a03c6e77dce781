import LuaDump.Proofs.Everywhere

/-! # The shapes of constants

What the constants of each dialect are made of. The standard interpreter writes scalars only,
LuaJIT writes tables of scalars, and a table of a Luau dump has keys among the constants before
it, which may be tables in turn.
-/

namespace LuaDump

open Decoder

namespace Constant

/-- A constant that refers to nothing and holds nothing. -/
def IsScalar : Constant → Prop
  | .proto _ | .table .. => False
  | _ => True

/-- A scalar, or a table of scalars. -/
def IsShallow : Constant → Prop
  | .proto _ => False
  | .table array hash =>
    (∀ item ∈ array, item.IsScalar) ∧ ∀ entry ∈ hash, entry.1.IsScalar ∧ entry.2.IsScalar
  | _ => True

theorem IsScalar.isShallow {constant : Constant} (hconstant : constant.IsScalar) :
    constant.IsShallow := by
  cases constant with
  | proto => exact hconstant.elim
  | table => exact hconstant.elim
  | _ => exact trivial

theorem IsScalar.not_table {constant : Constant} (hconstant : constant.IsScalar)
    (array : List Constant) (hash : List (Constant × Constant)) : constant ≠ .table array hash :=
  fun htable => by rwa [htable] at hconstant

end Constant

/-- The constants of a function are shallow, except for its children, to which it refers by their
indices. -/
def Prototype.IsShallow (chunk : Prototype) : Prop :=
  ∀ constant ∈ chunk.body.constants,
    (∃ index : Int, constant = .proto index ∧ 0 ≤ index ∧ index < chunk.children.length) ∨
      constant.IsShallow

namespace Standard

variable {h : Header}

theorem taggedConstant_scalar {dialect : Dialect} {payload? : Nat → Option (Decoder Constant)}
    (hpayload : ∀ tag payload, payload? tag = some payload → payload.Yields Constant.IsScalar) :
    (taggedConstant dialect payload?).Yields Constant.IsScalar := by
  refine (Yields.any _).bind fun offset _ => (Yields.any _).bind fun tag _ => ?_
  split
  next payload hsome => exact hpayload _ _ hsome
  next => exact .failAt _ _

theorem booleanConstant_scalar : booleanConstant.Yields Constant.IsScalar :=
  (Yields.any _).bind fun _ _ => .pure trivial

theorem stringConstant_scalar (string : Decoder Bytes) :
    (stringConstant string).Yields Constant.IsScalar :=
  (Yields.any _).bind fun _ _ => .pure trivial

theorem integerConstant_scalar : (integerConstant h).Yields Constant.IsScalar :=
  .named ((Yields.any _).bind fun _ _ => .pure trivial) _

theorem floatConstant_scalar : (floatConstant h).Yields Constant.IsScalar :=
  .named ((Yields.any _).bind fun _ _ => .pure trivial) _

theorem payload51_scalar (tag : Nat) (payload : Decoder Constant)
    (hsome : payload51 h tag = some payload) : payload.Yields Constant.IsScalar := by
  unfold payload51 at hsome
  split at hsome <;> simp only [Option.some.injEq, reduceCtorEq] at hsome <;> subst hsome
  · exact .pure trivial
  · exact booleanConstant_scalar
  · exact (Yields.any _).bind fun _ _ => .pure trivial
  · exact stringConstant_scalar _

theorem payload53_scalar (tag : Nat) (payload : Decoder Constant)
    (hsome : payload53 h tag = some payload) : payload.Yields Constant.IsScalar := by
  unfold payload53 at hsome
  split at hsome <;> simp only [Option.some.injEq, reduceCtorEq] at hsome <;> subst hsome
  · exact .pure trivial
  · exact booleanConstant_scalar
  · exact floatConstant_scalar
  · exact integerConstant_scalar
  · exact stringConstant_scalar _
  · exact stringConstant_scalar _

theorem payload54_scalar (tag : Nat) (payload : Decoder Constant)
    (hsome : payload54 h tag = some payload) : payload.Yields Constant.IsScalar := by
  unfold payload54 at hsome
  split at hsome <;> simp only [Option.some.injEq, reduceCtorEq] at hsome <;> subst hsome
  · exact .pure trivial
  · exact .pure trivial
  · exact .pure trivial
  · exact integerConstant_scalar
  · exact floatConstant_scalar
  · exact stringConstant_scalar _
  · exact stringConstant_scalar _

theorem Grammar.main_shallow {room : Nat} {g : Grammar} (hg : g.Settles)
    (hconstant : g.constant.Yields Constant.IsScalar) (maxDepth : Int) :
    (g.main maxDepth).Delivers room (Prototype.Everywhere Prototype.IsShallow) := by
  have hparts : g.Delivers room
      { head := fun _ => True
        instruction := fun _ => True
        constant := Constant.IsScalar
        upvalues := fun _ => True
        tail := fun _ => True } :=
    { settles := hg
      head := hg.head.any
      instruction := hg.instruction.any
      constant := hg.constant.yields hconstant
      upvalues := hg.upvalues.any
      tail := hg.tail.any }
  refine hparts.chunk ?_ _
  intro head instructions constants early tail children _ _ hconstants _ _ _ constant hmem
  exact .inr (hconstants.all constant hmem).isShallow

end Standard

namespace Jit

variable {room : Nat}

theorem taggedString_scalar (firstTag tag : Nat) :
    (taggedString firstTag tag).Yields Constant.IsScalar :=
  .named ((Yields.any _).bind fun _ _ => .pure trivial) _

theorem tableSlot_scalar : tableSlot.Yields Constant.IsScalar := by
  refine (Yields.any _).bind fun tag _ => ?_
  split
  · exact .pure trivial
  · exact .pure trivial
  · exact .pure trivial
  · exact (Yields.any _).bind fun _ _ => .pure trivial
  · exact (Yields.any _).bind fun _ _ => .pure trivial
  · exact taggedString_scalar _ _

theorem tableOf_shallow {slots : List Constant} {hash : List (Constant × Constant)}
    (hslots : ∀ slot ∈ slots, slot.IsScalar)
    (hhash : ∀ entry ∈ hash, entry.1.IsScalar ∧ entry.2.IsScalar) :
    (tableOf slots hash).IsShallow := by
  cases slots with
  | nil => exact ⟨by simp, hhash⟩
  | cons first array =>
      obtain ⟨hfirst, harray⟩ := List.forall_mem_cons.mp hslots
      refine ⟨harray, ?_⟩
      split
      · exact hhash
      · refine List.forall_mem_append.mpr ⟨hhash, ?_⟩
        simpa using ⟨trivial, hfirst⟩

theorem table_shallow : table.Delivers room Constant.IsShallow := by
  have hslot : tableSlot.Delivers room Constant.IsScalar :=
    settles_tableSlot.yields tableSlot_scalar
  have hentry : tableEntry.Delivers room fun entry => entry.1.IsScalar ∧ entry.2.IsScalar :=
    hslot.bind fun key hkey => hslot.map fun value hvalue => ⟨hkey, hvalue⟩
  refine .named (.skip settles_varint fun arrayCount => .skip settles_varint fun hashCount => ?_) _
  refine ((delivers_items _ hslot).named _).bind fun slots hslots => ?_
  exact ((delivers_items _ hentry).named _).map fun hash hhash =>
    tableOf_shallow hslots.all hhash.all

theorem writtenConstant_shallow :
    writtenConstant.Delivers room fun written => ∀ value ∈ written, value.IsShallow := by
  have hsome : ∀ {value : Constant}, value.IsShallow → ∀ found ∈ some value, found.IsShallow := by
    rintro value hvalue found hfound
    rwa [← Option.some.inj hfound]
  refine .skip settles_varint fun tag => ?_
  split
  · exact .pure (by simp)
  · exact table_shallow.map fun value hvalue => hsome hvalue
  · exact .skip settles_word fun value => .pure (hsome trivial)
  · exact .skip settles_word fun value => .pure (hsome trivial)
  · exact .skip settles_double fun re => .skip settles_double fun im => .pure (hsome trivial)
  · exact ((settles_taggedString 5 _).yields (taggedString_scalar 5 _)).map
      fun value hvalue => hsome hvalue.isShallow

/-- Every child that a constant takes from the stack is referred to by its index. -/
theorem RecordParts.From.isShallow {h : Header} {stack : List Completed} {parts : RecordParts}
    (hparts : parts.From room h stack) : parts.prototype.IsShallow := by
  have hconstants := ((constants_delivers (fun _ (progress : Progress) =>
    ∀ constant ∈ progress.constants,
      (∃ index : Int, constant = .proto index ∧ 0 ≤ index ∧ index < progress.children.length) ∨
        constant.IsShallow) (by simp) ?_ _).of_gives hparts.constants).2
  · simpa [Prototype.IsShallow, RecordParts.prototype, RecordHead.body] using hconstants
  · intro index progress hprogress
    refine (constant_delivers progress).mono ?_
    rintro next (⟨found, hfound, rfl⟩ | ⟨completed, rest, -, rfl⟩)
    · have hshallow := writtenConstant_shallow.of_gives hfound found rfl
      exact List.forall_mem_cons.mpr ⟨.inr hshallow, hprogress⟩
    · refine List.forall_mem_cons.mpr ⟨.inl ⟨_, rfl, Int.natCast_nonneg _, ?_⟩,
        fun constant hmem => ?_⟩
      · rw [List.length_append, List.length_singleton]
        omega
      rcases hprogress constant hmem with ⟨place, rfl, hlow, hhigh⟩ | hshallow
      · exact .inl ⟨place, rfl, hlow, by rw [List.length_append]; omega⟩
      · exact .inr hshallow

theorem main_shallow (h : Header) (maxDepth : Int) :
    (main h maxDepth).Delivers room (Prototype.Everywhere Prototype.IsShallow) :=
  main_delivers (fun hparts => hparts.isShallow) fun _ hchunk => hchunk

end Jit

/-- No dialect but Luau has tables in tables. -/
theorem mainFunction_shallow {room : Nat} {h : Header} (hdialect : h.dialect ≠ .luau)
    (maxDepth : Int) : (mainFunction h maxDepth).Delivers room
      (Prototype.Everywhere Prototype.IsShallow) := by
  unfold mainFunction
  split
  · exact Standard.Grammar.main_shallow (Standard.grammar51_settles h)
      (Standard.taggedConstant_scalar Standard.payload51_scalar) maxDepth
  · exact Standard.Grammar.main_shallow (Standard.grammar52_settles h)
      (Standard.taggedConstant_scalar Standard.payload51_scalar) maxDepth
  · exact Standard.Grammar.main_shallow (Standard.grammar53_settles h)
      (Standard.taggedConstant_scalar Standard.payload53_scalar) maxDepth
  · exact Standard.Grammar.main_shallow (Standard.grammar54_settles h)
      (Standard.taggedConstant_scalar Standard.payload54_scalar) maxDepth
  · exact Jit.main_shallow h maxDepth
  · exact Jit.main_shallow h maxDepth
  next hluau => exact absurd hluau hdialect

namespace Luau

variable {room : Nat} {strings : Array Bytes}

theorem tableKey_mem {known : Array Constant} :
    (tableKey known).Delivers room fun entry => entry.1 ∈ known.toList ∧ entry.2.IsScalar := by
  refine .skip settles_position fun offset => .skip settles_varint fun key => ?_
  split
  next constant hget =>
    exact .pure ⟨Array.mem_toList_iff.mpr (Array.mem_of_getElem? hget), trivial⟩
  next => exact .failAt _ _

/-- A new constant, given those before it: it holds nothing, or it is a table without an array
whose keys are among them. -/
inductive ShapedOver (known : List Constant) : Constant → Prop
  | plain {constant : Constant} (hconstant : ∀ array hash, constant ≠ .table array hash) :
      ShapedOver known constant
  | table {hash : List (Constant × Constant)}
      (hhash : ∀ entry ∈ hash, entry.1 ∈ known ∧ entry.2.IsScalar) :
      ShapedOver known (.table [] hash)

theorem ShapedOver.mono {known known' : List Constant} {constant : Constant}
    (hconstant : ShapedOver known constant) (hsub : ∀ key ∈ known, key ∈ known') :
    ShapedOver known' constant := by
  cases hconstant with
  | plain hplain => exact .plain hplain
  | table hhash =>
      exact .table fun entry hentry =>
        ⟨hsub entry.1 (hhash entry hentry).1, (hhash entry hentry).2⟩

theorem constant_shaped (known : Array Constant) :
    (constant strings known).Delivers room (ShapedOver known.toList) := by
  refine .skip settles_position fun offset => .skip settles_nextByte fun tag => ?_
  split
  next payload hsome =>
    unfold payload? at hsome
    split at hsome <;> simp only [Option.some.injEq, reduceCtorEq] at hsome <;> subst hsome
    · exact .pure (.plain (by simp))
    · exact .skip settles_nextByte fun _ => .pure (.plain (by simp))
    · exact .skip (settles_float _ _) fun _ => .pure (.plain (by simp [Constant.float]))
    · exact .skip (settles_stringRef strings) fun _ => .pure (.plain (by simp))
    · exact .skip (settles_unsigned _ _) fun _ => .pure (.plain (by simp))
    · refine .skip settles_varint fun count => ?_
      exact (delivers_collect (fun _ => tableKey_mem) count 0).map fun hash hhash => .table hhash.2
    · exact .skip settles_varint fun _ => .pure (.plain (by simp))
    · exact .skip (settles_collect (fun _ => settles_single) 4 0) fun _ =>
        .pure (.plain (by simp))
  next => exact .failAt _ _

/-- The constants of a function are shaped over one another. -/
theorem constants_shaped : (constants strings).Delivers room fun values =>
    ∀ constant ∈ values, ShapedOver values constant := by
  have hvalues : (constants strings).Delivers room fun values =>
      values.length ≤ room ∧ ∀ constant ∈ values, ShapedOver values constant := by
    refine constants_delivers (fun values => ∀ constant ∈ values, ShapedOver values constant)
      (by simp) fun known hknown => ?_
    refine (constant_shaped known).mono fun value hvalue => List.forall_mem_append.mpr ⟨?_, ?_⟩
    · exact fun constant hmem => (hknown constant hmem).mono fun key => List.mem_append_left _
    · intro constant hmem
      rw [List.mem_singleton.mp hmem]
      exact hvalue.mono fun key => List.mem_append_left _
  exact hvalues.mono fun values => And.right

end Luau

end LuaDump
