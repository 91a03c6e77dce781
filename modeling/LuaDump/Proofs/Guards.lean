import Mathlib.Algebra.Order.Ring.Int
import LuaDump.Proofs.Raising.Record

/-! # Guards that are never reached

The checks of a header leave nothing for the widths behind it to fail at, and every kind of
failure belongs to the dialects that can bring it about. A table is looked up only inside its
bounds, and a float is packed only from a pattern of its width: with the guard written out, the
access that is left may fault, and it never does.
-/

namespace LuaDump

open Decoder

namespace Decoder

variable {α β σ : Type} {d : Decoder α}

/-- Sequences may differ where the first part never leads. -/
theorem bind_congr_of_yields {property : α → Prop} {next next' : α → Decoder β}
    (hd : d.Yields property) (hnext : ∀ value, property value → next value = next' value) :
    d >>= next = d >>= next' := by
  funext w pos
  rw [bind_apply, bind_apply]
  cases hdone : d w pos with
  | failed failure last trace => rfl
  | done value last trace =>
      dsimp only
      rw [hnext value (hd hdone)]

theorem Yields.iterate {step : σ → Decoder (σ ⊕ β)} {property : β → Prop}
    (hstep : ∀ state, (step state).Yields (Sum.elim (fun _ => True) property)) (start : σ) :
    (Decoder.iterate step start).Yields property := by
  have hrounds : ∀ rounds start, (iterateFor step rounds start).Yields property := by
    intro rounds
    induction rounds with
    | zero => exact fun _ _ _ _ _ _ hdone => absurd hdone (by simp [iterateFor, short])
    | succ rounds ih =>
        intro start
        refine (hstep start).bind fun next hnext => ?_
        cases next with
        | inl state => exact ih state
        | inr result => exact .pure hnext
  exact fun _ _ _ _ _ hdone => hrounds _ _ hdone

/-- A checked integer has the bits it is read for. -/
theorem varint_lt : varint.Yields fun value => value < 2 ^ 32 := by
  refine (Yields.any _).bind fun start _ => Yields.iterate (fun state => ?_) _
  refine (Yields.any _).bind fun b _ => ?_
  dsimp only
  split
  next => exact .failAt _ _
  next hfits =>
    split
    · exact .pure (Nat.not_le.mp hfits)
    · split
      · exact .failAt _ _
      · exact .pure trivial

theorem numericHead_lt : numericHead.Yields fun value => value < 2 ^ 32 := by
  refine (Yields.any _).bind fun start _ => (Yields.any _).bind fun b _ => ?_
  dsimp only
  split
  next hlow => exact .pure (Nat.lt_trans hlow (by decide))
  next => exact (Yields.any _).bind fun value _ => .pure (Nat.mod_lt _ (by decide))

/-- The entry of a table at an index. Outside the table the access faults. -/
def entryAt (table : Array α) (index : Nat) : Decoder α :=
  match table[index]? with
  | some entry => pure entry
  | none => fail .byteOutsideFile

/-- The float with a pattern of sixty-four bits. A wider pattern faults. -/
def packed (pattern : Nat) : Decoder Binary64 :=
  if pattern < 2 ^ 64 then pure (Binary64.ofPattern pattern) else fail .fieldOutsideFile

theorem packed_of_lt {pattern : Nat} (hpattern : pattern < 2 ^ 64) :
    packed pattern = pure (Binary64.ofPattern pattern) :=
  if_pos hpattern

theorem entryAt_of_lt {table : Array α} {index : Nat} (hindex : index < table.size) :
    entryAt table index = pure table[index] := by
  rw [entryAt, Array.getElem?_eq_getElem hindex]

end Decoder

namespace Jit

theorem wordOf_lt {low high : Nat} (hlow : low < 2 ^ 32) (hhigh : high < 2 ^ 32) :
    wordOf low high < 2 ^ 64 := by
  unfold wordOf
  omega

theorem word_lt : word.Yields fun value => value < 2 ^ 64 :=
  varint_lt.bind fun _ hlow => varint_lt.bind fun _ hhigh => .pure (wordOf_lt hlow hhigh)

/-- The two halves of a float never exceed its pattern. -/
theorem double_eq_packed : double = word >>= packed :=
  bind_congr_of_yields word_lt fun _ hpattern => (packed_of_lt hpattern).symm

theorem number_eq_packed :
    number = (do
      let selector ← peekByte
      let low ← numericHead
      if selector.toNat.testBit 0 then
        let high ← varint
        let value ← packed (wordOf low high)
        pure (.float value)
      else pure (.integer (signExtend 32 low))) := by
  refine bind_congr_of_yields (.any _) fun selector _ => ?_
  refine bind_congr_of_yields numericHead_lt fun low hlow => ?_
  split
  · refine bind_congr_of_yields varint_lt fun high hhigh => ?_
    rw [packed_of_lt (wordOf_lt hlow hhigh), pure_bind]
  · rfl

/-- The codes from one to six are those of the internal names. -/
theorem localName_eq_entryAt {code : UInt8} (hcode : code ≠ 0) :
    localName code =
      if code.toNat < 7 then entryAt internalNames.toArray (code.toNat - 1)
      else (do
        let rest ← takeUntil 0
        pure (code :: rest)) := by
  have hpos : 0 < code.toNat := by
    apply Nat.pos_of_ne_zero
    exact fun hzero => hcode (UInt8.toNat_inj.mp hzero)
  have hsize : internalNames.toArray.size = 6 := rfl
  unfold localName
  rw [← List.getElem?_toArray]
  by_cases hname : code.toNat < 7
  · have hindex : code.toNat - 1 < internalNames.toArray.size := by omega
    rw [if_pos hname, entryAt_of_lt hindex, Array.getElem?_eq_getElem hindex]
  · rw [if_neg hname, Array.getElem?_eq_none (by omega)]

end Jit

namespace Luau

/-- A string is looked up only where the table has one. -/
theorem stringRef_eq_entryAt (strings : Array Bytes) :
    stringRef strings = (do
      let offset ← position
      let index ← varint
      if index = 0 then pure []
      else if strings.size < index then failAt offset (.stringIndex index strings.size)
      else entryAt strings (index - 1)) := by
  refine bind_congr_of_yields (.any _) fun offset _ => ?_
  refine bind_congr_of_yields (.any _) fun index _ => ?_
  by_cases hzero : index = 0
  · rw [if_pos hzero, if_pos hzero]
  · rw [if_neg hzero, if_neg hzero]
    by_cases hbound : strings.size < index
    · rw [if_pos hbound, Array.getElem?_eq_none (by omega)]
    · have hindex : index - 1 < strings.size := by omega
      rw [if_neg hbound, entryAt_of_lt hindex, Array.getElem?_eq_getElem hindex]

/-- A key is looked up only among the constants before it. -/
theorem tableKey_eq_entryAt (constants : Array Constant) :
    tableKey constants = (do
      let offset ← position
      let key ← varint
      if constants.size ≤ key then failAt offset (.tableKey key constants.size)
      else
        let constant ← entryAt constants key
        pure (constant, .integer 0)) := by
  refine bind_congr_of_yields (.any _) fun offset _ => ?_
  refine bind_congr_of_yields (.any _) fun key _ => ?_
  by_cases hbound : constants.size ≤ key
  · rw [if_pos hbound, Array.getElem?_eq_none hbound]
  · have hindex := Nat.not_le.mp hbound
    rw [if_neg hbound, entryAt_of_lt hindex, Array.getElem?_eq_getElem hindex, pure_bind]

theorem get?_of_size_le {table : Table} {number : Nat} (hbound : table.size ≤ number) :
    table.get? number = none := by
  rw [Table.get?, Array.getElem?_eq_none hbound]
  rfl

theorem get?_of_lt {table : Table} {number : Nat} (hnumber : number < table.size) :
    table.get? number = table[number] := by
  rw [Table.get?, Array.getElem?_eq_getElem hnumber]
  rfl

/-- A place of the table of functions is looked up only inside the table. -/
theorem takeChild_eq_entryAt (table : Table) (children : List Child) :
    takeChild (table, children) = (do
      let offset ← position
      let number ← varint
      if table.size ≤ number then failAt offset (.childIndex number)
      else
        match ← entryAt table number with
        | some entry => pure (table.setIfInBounds number none, children ++ [⟨number, entry⟩])
        | none => failAt offset (.childIndex number)) := by
  refine bind_congr_of_yields (.any _) fun offset _ => ?_
  refine bind_congr_of_yields (.any _) fun number _ => ?_
  by_cases hbound : table.size ≤ number
  · rw [if_pos hbound, get?_of_size_le hbound]
  · have hindex := Nat.not_le.mp hbound
    have hget := get?_of_lt hindex
    rw [if_neg hbound, entryAt_of_lt hindex]
    cases hentry : table[number] <;> simp [hget, hentry]

theorem mainEntry_eq_entryAt (table : Table) :
    mainEntry table = (do
      let offset ← position
      let index ← varint
      if table.size ≤ index then failAt offset (.mainIndex index table.size)
      else
        match ← entryAt table index with
        | some entry => pure entry.prototype
        | none => failAt offset (.mainIndex index table.size)) := by
  refine bind_congr_of_yields (.any _) fun offset _ => ?_
  refine bind_congr_of_yields (.any _) fun index _ => ?_
  by_cases hbound : table.size ≤ index
  · rw [if_pos hbound, get?_of_size_le hbound]
  · have hindex := Nat.not_le.mp hbound
    have hget := get?_of_lt hindex
    rw [if_neg hbound, entryAt_of_lt hindex]
    cases hentry : table[index] <;> simp [hget, hentry]

end Luau

/-- Every access inside the decoders, with its guard written out. What is left behind the guard
may fault. -/
structure CheckedAccesses : Prop where
  stringRef : ∀ strings, Luau.stringRef strings = (do
    let offset ← position
    let index ← varint
    if index = 0 then pure []
    else if strings.size < index then failAt offset (.stringIndex index strings.size)
    else entryAt strings (index - 1))
  tableKey : ∀ constants, Luau.tableKey constants = (do
    let offset ← position
    let key ← varint
    if constants.size ≤ key then failAt offset (.tableKey key constants.size)
    else
      let constant ← entryAt constants key
      pure (constant, .integer 0))
  takeChild : ∀ table children, Luau.takeChild (table, children) = (do
    let offset ← position
    let number ← varint
    if table.size ≤ number then failAt offset (.childIndex number)
    else
      match ← entryAt table number with
      | some entry => pure (table.setIfInBounds number none, children ++ [⟨number, entry⟩])
      | none => failAt offset (.childIndex number))
  mainEntry : ∀ table, Luau.mainEntry table = (do
    let offset ← position
    let index ← varint
    if table.size ≤ index then failAt offset (.mainIndex index table.size)
    else
      match ← entryAt table index with
      | some entry => pure entry.prototype
      | none => failAt offset (.mainIndex index table.size))
  localName : ∀ code, code ≠ 0 → Jit.localName code =
    if code.toNat < 7 then entryAt Jit.internalNames.toArray (code.toNat - 1)
    else (do
      let rest ← takeUntil 0
      pure (code :: rest))
  double : Jit.double = Jit.word >>= packed
  number : Jit.number = (do
    let selector ← peekByte
    let low ← numericHead
    if selector.toNat.testBit 0 then
      let high ← varint
      let value ← packed (Jit.wordOf low high)
      pure (.float value)
    else pure (.integer (signExtend 32 low)))

theorem checkedAccesses : CheckedAccesses where
  stringRef := Luau.stringRef_eq_entryAt
  tableKey := Luau.tableKey_eq_entryAt
  takeChild := Luau.takeChild_eq_entryAt
  mainEntry := Luau.mainEntry_eq_entryAt
  localName := fun _ hcode => Jit.localName_eq_entryAt hcode
  double := Jit.double_eq_packed
  number := Jit.number_eq_packed

/-- What the kind of a failure tells about the file. -/
structure Guarded (options : Options) (data : Array UInt8) (failure : Failure) : Prop where
  /-- Nothing negative is asked for, and no access faults. -/
  proper : failure.kind ∉ [.general, .byteOutsideFile, .fieldOutsideFile]
  header : failure.kind = .unsupportedWidth ∨ failure.kind = .unrecognizedDialect →
    failure.context = [.named "header"]
  overflow : failure.kind = .integerOverflow →
    ∃ h, HasHeader options data h ∧ h.dialect ∉ [.lua51, .lua52, .lua53]
  stack : failure.kind = .sizeMismatch ∨ failure.kind = .unbalancedPrototypeStack →
    ∃ h, HasHeader options data h ∧ h.dialect.isLuaJit = true
  reference : failure.kind = .invalidReference ∨ failure.kind = .embeddedCompileError →
    options.origin = .luau
  constantTag : failure.kind = .unknownConstantTag →
    ∃ h, HasHeader options data h ∧ h.dialect.isLuaJit = false

theorem Rejection.guarded {options : Options} {data : Array UInt8} {failure : Failure}
    (hrejection : Rejection options data failure) : Guarded options data failure := by
  cases hrejection with
  | header hrefused =>
      have hcontext := hrefused.context_eq
      have hkind : failure.kind = .truncated ∨ failure.kind = .unsupportedWidth ∨
          failure.kind = .unrecognizedDialect ∨
            (failure.kind = .embeddedCompileError ∧ options.origin = .luau) :=
        hrefused.grounds.kind_cases
      constructor <;> grind
  | disabled hheader hdisabled hfailure =>
      have hkind : failure.kind = .unsupportedDialect := by rw [hfailure]; rfl
      constructor <;> simp [hkind]
  | @function h hheader hdialect hfounded =>
      have hkind : failure.kind = .truncated ∨ failure.kind = .depthExceeded ∨
          (failure.kind = .unknownConstantTag ∧ h.dialect.isLuaJit = false) ∨
          (failure.kind = .integerOverflow ∧ h.dialect ∉ [.lua51, .lua52, .lua53]) ∨
          ((failure.kind = .unbalancedPrototypeStack ∨ failure.kind = .sizeMismatch) ∧
            h.dialect.isLuaJit = true) ∨
          (failure.kind = .invalidReference ∧ h.dialect = .luau) :=
        hfounded.grounds.kind_cases
      constructor <;> grind

/-- Decoding succeeds or fails properly. The widths and the dialect are judged in the header
alone, and every other kind of failure is confined to the dialects it belongs to. The accesses
behind the guards of the decoders never fault. -/
theorem decode_guarded (options : Options) (data : Array UInt8) :
    (∀ {failure last trace}, decode options data = .failed failure last trace →
      Guarded options data failure) ∧ CheckedAccesses :=
  ⟨fun hfailed => (rejection_of_decode hfailed).guarded, checkedAccesses⟩

/-- A LuaJIT dump with a record that uses fewer bytes than it declares. -/
def paddedRecordSample : Array UInt8 :=
  #[0x1B, 0x4C, 0x4A, 2, 2, 8, 0, 0, 2, 0, 0, 0, 0, 0, 0]

theorem decode_guarded_paddedRecordSample :
    ∃ failure last trace, decode {} paddedRecordSample = .failed failure last trace ∧
      failure.kind = .sizeMismatch ∧
        ∃ h, HasHeader {} paddedRecordSample h ∧ h.dialect.isLuaJit = true := by
  obtain ⟨failure, last, trace, hfailed, hkind⟩ : ∃ failure last trace,
      decode {} paddedRecordSample = .failed failure last trace ∧ failure.kind = .sizeMismatch :=
    ⟨_, _, _, rfl, rfl⟩
  have hguarded := (decode_guarded {} paddedRecordSample).1 hfailed
  exact ⟨failure, last, trace, hfailed, hkind, hguarded.stack (.inl hkind)⟩

end LuaDump
