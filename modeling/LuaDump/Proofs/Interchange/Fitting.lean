import LuaDump.Interchange.Read
import LuaDump.Proofs.Interchange.Codec
import LuaDump.Proofs.Tree

/-! # Dumps that fit the document format

The integers of MessagePack have sixty-four bits and its lengths thirty-two. A dump fits if its
integers and lengths stay within these bounds, and then its document has a canonical form.
-/

namespace LuaDump

open MessagePack

/-- The integers of the document format. -/
def IsWord (n : Int) : Prop :=
  -2 ^ 63 ≤ n ∧ n < 2 ^ 64

/-- The lengths of the document format. -/
def IsLength (n : Nat) : Prop :=
  n < 2 ^ 32

/-- A list that is not too long, each value of which has the property. -/
structure FitList {α : Type} (property : α → Prop) (values : List α) : Prop where
  length : IsLength values.length
  all : ∀ value ∈ values, property value

def Number.Fits : Number → Prop
  | .integer value => IsWord value
  | .float _ => True

inductive Constant.Fits : Constant → Prop
  | nil : Fits .nil
  | boolean (value : Bool) : Fits (.boolean value)
  | number {value : Number} (hvalue : value.Fits) : Fits (.number value)
  | string {value : Bytes} (hlength : IsLength value.length) : Fits (.string value)
  | proto {index : Int} (hindex : IsWord index) : Fits (.proto index)
  | table {array : List Constant} {hash : List (Constant × Constant)}
      (harrayLength : IsLength array.length) (hhashLength : IsLength hash.length)
      (harray : ∀ constant ∈ array, Fits constant) (hkeys : ∀ entry ∈ hash, Fits entry.1)
      (hvalues : ∀ entry ∈ hash, Fits entry.2) : Fits (.table array hash)
  | importPath {id : Int} (hid : IsWord id) : Fits (.importPath id)
  | vector {components : List Binary64} (hlength : IsLength components.length) :
      Fits (.vector components)
  | complex (re im : Binary64) : Fits (.complex re im)

structure Local.Fits (l : Local) : Prop where
  name : IsLength l.name.length
  startPc : IsWord l.startPc
  endPc : IsWord l.endPc
  register : IsWord l.register

structure Upvalue.Fits (u : Upvalue) : Prop where
  id : IsWord u.id
  kind : IsWord u.kind

structure Body.Fits (body : Body) : Prop where
  name : IsLength body.name.length
  lineDefined : IsWord body.lineDefined
  lastLineDefined : IsWord body.lastLineDefined
  numUpvalues : IsWord body.numUpvalues
  numParams : IsWord body.numParams
  maxStack : IsWord body.maxStack
  flags : IsWord body.flags
  instructions : FitList IsWord body.instructions
  constants : FitList Constant.Fits body.constants
  numConstants : FitList Number.Fits body.numConstants
  sourceLines : FitList (fun line => IsWord line.1 ∧ IsWord line.2) body.sourceLines
  lineInfo : FitList IsWord body.lineInfo
  locals : FitList Local.Fits body.locals
  upvalues : FitList Upvalue.Fits body.upvalues
  upvalueNames : FitList (fun name => IsLength name.length) body.upvalueNames
  typeInfo : IsLength body.typeInfo.length

/-- The function fits, apart from the functions nested in it. -/
structure Prototype.Fits (chunk : Prototype) : Prop where
  body : chunk.body.Fits
  children : IsLength chunk.children.length

structure Header.Fits (h : Header) : Prop where
  formatVersion : IsWord h.formatVersion
  intSize : IsWord h.intSize
  sizeTSize : IsWord h.sizeTSize
  instructionSize : IsWord h.instructionSize
  numberSize : IsWord h.numberSize
  integerSize : IsWord h.integerSize
  typesVersion : IsWord h.typesVersion

/-- The entries of a table fit one by one. -/
theorem Constant.fits_table {array : List Constant} {hash : List (Constant × Constant)}
    (harray : FitList Constant.Fits array)
    (hhash : FitList (fun entry => entry.1.Fits ∧ entry.2.Fits) hash) :
    (Constant.table array hash).Fits :=
  .table harray.length hhash.length harray.all (fun entry hentry => (hhash.all entry hentry).1)
    fun entry hentry => (hhash.all entry hentry).2

theorem FitList.nil {α : Type} {property : α → Prop} : FitList property [] :=
  ⟨by simp [IsLength], by simp⟩

theorem isWord_natCast {n : Nat} (hn : n < 2 ^ 64) : IsWord n :=
  ⟨by omega, by omega⟩

namespace Interchange

open Value (Encodable)

theorem encodable_integer {n : Int} (hn : IsWord n) : Encodable (.integer n) :=
  .integer hn.1 hn.2

theorem encodable_map_array {α : Type} {property : α → Prop} {write : α → Value}
    {values : List α} (hvalues : FitList property values)
    (hwrite : ∀ value, property value → Encodable (write value)) :
    Encodable (.array (values.map write)) := by
  refine .array (by rw [List.length_map]; exact hvalues.length) ?_
  exact List.forall_mem_map.mpr fun value hvalue => hwrite value (hvalues.all value hvalue)

/-- An array with the given number of items written out. -/
theorem encodable_small {items : List Value} (hlength : items.length < 16)
    (hitems : ∀ item ∈ items, Encodable item) : Encodable (.array items) :=
  .array (by omega) hitems

theorem encodable_kindPair (kind : ConstantKind) {payload : Value} (hpayload : Encodable payload) :
    Encodable (kindPair kind payload) := by
  have hcode : IsWord (kind.code : Int) := by
    cases kind <;> exact ⟨by decide, by decide⟩
  exact encodable_small (by simp) (by simp [encodable_integer hcode, hpayload])

theorem encodable_ofNumber {value : Number} (hvalue : value.Fits) : Encodable (ofNumber value) := by
  cases value with
  | integer value => exact encodable_integer hvalue
  | float value => exact .float value

theorem encodable_floats {values : List Binary64} (hlength : IsLength values.length) :
    Encodable (floats values) :=
  have hvalues : FitList (fun _ => True) values := ⟨hlength, fun _ _ => trivial⟩
  encodable_map_array hvalues fun value _ => .float value

theorem ofConstants_eq_map (constants : List Constant) :
    ofConstants constants = constants.map ofConstant := by
  induction constants with
  | nil => rfl
  | cons constant rest ih => rw [ofConstants, ih, List.map_cons]

theorem ofEntries_eq_map (hash : List (Constant × Constant)) :
    ofEntries hash = hash.map fun entry => .array [ofConstant entry.1, ofConstant entry.2] := by
  induction hash with
  | nil => rfl
  | cons entry rest ih => rw [ofEntries, ih, List.map_cons]

theorem ofPrototypes_eq_map (trees : List Prototype) :
    ofPrototypes trees = trees.map ofPrototype := by
  induction trees with
  | nil => rfl
  | cons tree rest ih => rw [ofPrototypes, ih, List.map_cons]

theorem encodable_ofConstant {constant : Constant} (hconstant : constant.Fits) :
    Encodable (ofConstant constant) := by
  induction hconstant with
  | nil => exact encodable_kindPair _ .nil
  | boolean value => exact encodable_kindPair _ (.boolean value)
  | number hvalue => exact encodable_kindPair _ (encodable_ofNumber hvalue)
  | string hlength => exact encodable_kindPair _ (.binary hlength)
  | proto hindex => exact encodable_kindPair _ (encodable_integer hindex)
  | importPath hid => exact encodable_kindPair _ (encodable_integer hid)
  | vector hlength => exact encodable_kindPair _ (encodable_floats hlength)
  | complex re im => exact encodable_kindPair _ (encodable_floats (by simp [IsLength]))
  | @table array hash harrayLength hhashLength _ _ _ harray hkeys hvalues =>
      have harrayPart : Encodable (.array (ofConstants array)) := by
        rw [ofConstants_eq_map]
        exact encodable_map_array ⟨harrayLength, harray⟩ fun _ hvalue => hvalue
      have hhashPart : Encodable (.array (ofEntries hash)) := by
        rw [ofEntries_eq_map]
        refine encodable_map_array ⟨hhashLength, fun entry hentry =>
          And.intro (hkeys entry hentry) (hvalues entry hentry)⟩ fun entry hentry => ?_
        exact encodable_small (by simp) (by simp [hentry.1, hentry.2])
      exact encodable_kindPair _ (encodable_small (by simp) (by simp [harrayPart, hhashPart]))

/-- Names that may be the keys of one map: different, well-formed and not too long. -/
def AreKeys (names : List String) : Prop :=
  names.length < 32 ∧ names.Nodup ∧
    ∀ name ∈ names, (Bytes.ofText name).length < 32 ∧
      Utf8.decode? (Bytes.ofText name) = some name

instance (names : List String) : Decidable (AreKeys names) :=
  inferInstanceAs (Decidable (_ ∧ _ ∧ _))

theorem encodable_map {names : List String} {entries : List (Value × Value)}
    (hnames : AreKeys names) (hkeys : entries.map (·.1) = names.map .text)
    (hvalues : ∀ entry ∈ entries, Encodable entry.2) : Encodable (.map entries) := by
  obtain ⟨hlength, hdistinct, hwritten⟩ := hnames
  have hkey : ∀ entry ∈ entries, ∃ name ∈ names, Value.text name = entry.1 := by
    intro entry hentry
    have hmem : entry.1 ∈ names.map Value.text := hkeys ▸ List.mem_map_of_mem hentry
    exact List.mem_map.mp hmem
  refine .map ?_ ?_ hvalues ?_ ?_
  · have hlengths := congrArg List.length hkeys
    rw [List.length_map, List.length_map] at hlengths
    omega
  · intro entry hentry
    obtain ⟨name, hname, hfound⟩ := hkey entry hentry
    obtain ⟨hshort, hread⟩ := hwritten name hname
    exact hfound ▸ .text (by omega) hread
  · intro entry hentry
    obtain ⟨name, -, hfound⟩ := hkey entry hentry
    rw [← hfound]
    rfl
  · have hpairs : (entries.map (·.1)).Pairwise fun first second =>
        sameKey first second = false := by
      rw [hkeys]
      exact List.pairwise_map.mpr (hdistinct.imp fun hne => beq_false_of_ne hne)
    exact List.pairwise_map.mp hpairs

theorem encodable_ofVararg (vararg : Option Vararg) : Encodable (ofVararg vararg) := by
  cases vararg with
  | none => exact .nil
  | some vararg => exact encodable_small (by simp) (by simp [Encodable.boolean])

theorem encodable_ofLocal {l : Local} (hl : l.Fits) : Encodable (ofLocal l) :=
  encodable_small (by simp) (by
    simp [Encodable.binary hl.name, encodable_integer hl.startPc, encodable_integer hl.endPc,
      encodable_integer hl.register])

theorem encodable_ofUpvalue {u : Upvalue} (hu : u.Fits) : Encodable (ofUpvalue u) :=
  encodable_small (by simp) (by
    simp [Encodable.boolean, encodable_integer hu.id, encodable_integer hu.kind])

theorem encodable_ofSourceLine {line : Int × Int} (hline : IsWord line.1 ∧ IsWord line.2) :
    Encodable (ofSourceLine line) :=
  encodable_small (by simp) (by simp [encodable_integer hline.1, encodable_integer hline.2])

/-- The keys of a function. -/
def functionKeys : List String :=
  ["name", "line_defined", "last_line_defined", "num_upvalues", "num_params", "max_stack", "flags",
    "is_vararg", "instructions", "constants", "num_constants", "prototypes", "source_lines",
    "line_info", "locals", "upvalue_infos", "upvalue_names", "type_info"]

theorem encodable_ofBody {body : Body} (hbody : body.Fits) {children : List Value}
    (hchildren : Encodable (.array children)) : Encodable (ofBody body children) := by
  have hconstants : Encodable (.array (ofConstants body.constants)) := by
    rw [ofConstants_eq_map]
    exact encodable_map_array hbody.constants fun _ => encodable_ofConstant
  have hinstructions : Encodable (integers body.instructions) :=
    encodable_map_array hbody.instructions fun _ => encodable_integer
  have hnumConstants := encodable_map_array hbody.numConstants fun _ => encodable_ofNumber
  have hsourceLines := encodable_map_array hbody.sourceLines fun _ => encodable_ofSourceLine
  have hlineInfo : Encodable (integers body.lineInfo) :=
    encodable_map_array hbody.lineInfo fun _ => encodable_integer
  have hlocals := encodable_map_array hbody.locals fun _ => encodable_ofLocal
  have hupvalues := encodable_map_array hbody.upvalues fun _ => encodable_ofUpvalue
  have hupvalueNames : Encodable (byteStrings body.upvalueNames) :=
    encodable_map_array hbody.upvalueNames fun _ => .binary
  have hkeys : AreKeys functionKeys := by decide
  refine encodable_map hkeys rfl ?_
  simp only [List.forall_mem_cons, entry]
  exact ⟨.binary hbody.name, encodable_integer hbody.lineDefined,
    encodable_integer hbody.lastLineDefined, encodable_integer hbody.numUpvalues,
    encodable_integer hbody.numParams, encodable_integer hbody.maxStack,
    encodable_integer hbody.flags, encodable_ofVararg body.vararg, hinstructions, hconstants,
    hnumConstants, hchildren, hsourceLines, hlineInfo, hlocals, hupvalues, hupvalueNames,
    .binary hbody.typeInfo, by simp⟩

mutual

theorem encodable_ofPrototype : (tree : Prototype) → tree.Everywhere Prototype.Fits →
    Encodable (ofPrototype tree)
  | ⟨body, children⟩, htree => by
      obtain ⟨hown, hchildren⟩ := Prototype.everywhere_iff.mp htree
      refine encodable_ofBody hown.body (.array ?_ (encodable_ofPrototypes children hchildren))
      rw [ofPrototypes_eq_map, List.length_map]
      exact hown.children

theorem encodable_ofPrototypes : (trees : List Prototype) →
    (∀ tree ∈ trees, tree.Everywhere Prototype.Fits) →
    ∀ item ∈ ofPrototypes trees, Encodable item
  | [], _ => by simp [ofPrototypes]
  | tree :: rest, htrees => by
      obtain ⟨htree, hrest⟩ := List.forall_mem_cons.mp htrees
      exact List.forall_mem_cons.mpr
        ⟨encodable_ofPrototype tree htree, encodable_ofPrototypes rest hrest⟩

end

theorem encodable_ofHeader {h : Header} (hh : h.Fits) : Encodable (ofHeader h) := by
  have hkeys : AreKeys headerKeys := by decide
  have hcode : IsWord h.dialect.code := by
    cases h.dialect <;> exact ⟨by decide, by decide⟩
  refine encodable_map hkeys rfl ?_
  simp only [List.forall_mem_cons, entry]
  exact ⟨encodable_integer hcode, encodable_integer hh.formatVersion, .boolean _,
    encodable_integer hh.intSize, encodable_integer hh.sizeTSize,
    encodable_integer hh.instructionSize, encodable_integer hh.numberSize, .boolean _,
    encodable_integer hh.integerSize, .boolean _, .boolean _, encodable_integer hh.typesVersion,
    by simp⟩

theorem encodable_ofBytecode {b : Bytecode} (hheader : b.header.Fits)
    (hmain : b.main.Everywhere Prototype.Fits) : Encodable (ofBytecode b) := by
  have hkeys : AreKeys ["version", "header", "main_chunk"] := by decide
  refine encodable_map hkeys rfl ?_
  simp only [List.forall_mem_cons, entry]
  exact ⟨encodable_integer ⟨by decide, by decide⟩, encodable_ofHeader hheader,
    encodable_ofPrototype b.main hmain, by simp⟩

end Interchange

end LuaDump
