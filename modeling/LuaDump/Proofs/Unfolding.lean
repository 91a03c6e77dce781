import Mathlib.Algebra.BigOperators.Ring.List
import Mathlib.Algebra.Order.BigOperators.Group.List
import Mathlib.Tactic.Ring
import LuaDump.Proofs.Extent

/-! # Tables written out

A key of a Luau table is the number of an earlier constant, and the table holds a copy of that
constant. Where tables are keys of tables, the copies multiply: the constants of a file, written
out, are bounded by a power of its size, and the exponent is how deep its tables nest.
-/

namespace LuaDump

open Decoder

namespace Constant

mutual

/-- A constant and all those in it, each of them wherever it stands. -/
def count : Constant → Nat
  | .table array hash => countAll array + countEntries hash + 1
  | _ => 1

def countAll : List Constant → Nat
  | [] => 0
  | constant :: rest => count constant + countAll rest

def countEntries : List (Constant × Constant) → Nat
  | [] => 0
  | (key, value) :: rest => count key + count value + countEntries rest

end

mutual

/-- How deep tables nest in a constant. -/
def nesting : Constant → Nat
  | .table array hash => max (nestingAll array) (nestingEntries hash) + 1
  | _ => 0

def nestingAll : List Constant → Nat
  | [] => 0
  | constant :: rest => max (nesting constant) (nestingAll rest)

def nestingEntries : List (Constant × Constant) → Nat
  | [] => 0
  | (key, value) :: rest => max (max (nesting key) (nesting value)) (nestingEntries rest)

end

variable {array : List Constant} {hash : List (Constant × Constant)} {constant : Constant}
  {known : List Constant}

theorem count_of_not_table (hconstant : ∀ array hash, constant ≠ .table array hash) :
    constant.count = 1 := by
  cases constant with
  | table array hash => exact absurd rfl (hconstant array hash)
  | _ => simp [count]

theorem nesting_eq_zero_iff :
    constant.nesting = 0 ↔ ∀ array hash, constant ≠ .table array hash := by
  cases constant <;> simp [nesting]

theorem countAll_of_scalars (harray : ∀ item ∈ array, item.IsScalar) :
    countAll array = array.length := by
  induction array with
  | nil => rfl
  | cons first rest ih =>
      obtain ⟨hfirst, hrest⟩ := List.forall_mem_cons.mp harray
      rw [countAll, count_of_not_table hfirst.not_table, ih hrest, List.length_cons, Nat.add_comm]

/-- Entries with scalar values are bounded by their keys. -/
theorem countEntries_le {bound : Nat}
    (hhash : ∀ entry ∈ hash, entry.1.count < bound ∧ entry.2.IsScalar) :
    countEntries hash ≤ hash.length * bound := by
  induction hash with
  | nil => exact Nat.zero_le _
  | cons first rest ih =>
      obtain ⟨⟨hkey, hvalue⟩, hrest⟩ := List.forall_mem_cons.mp hhash
      have hentries := ih hrest
      rw [countEntries, count_of_not_table hvalue.not_table, List.length_cons, Nat.succ_mul]
      omega

theorem nestingAll_le_iff {depth : Nat} :
    nestingAll array ≤ depth ↔ ∀ item ∈ array, item.nesting ≤ depth := by
  induction array with
  | nil => simp [nestingAll]
  | cons first rest ih => rw [nestingAll, Nat.max_le, ih, List.forall_mem_cons]

theorem nestingEntries_le_iff {depth : Nat} :
    nestingEntries hash ≤ depth ↔
      ∀ entry ∈ hash, entry.1.nesting ≤ depth ∧ entry.2.nesting ≤ depth := by
  induction hash with
  | nil => simp [nestingEntries]
  | cons first rest ih =>
      rw [nestingEntries, Nat.max_le, Nat.max_le, ih, List.forall_mem_cons]

theorem nesting_lt_of_entry {entry : Constant × Constant} (hentry : entry ∈ hash) :
    entry.1.nesting < (Constant.table array hash).nesting := by
  have hkey := (nestingEntries_le_iff.mp (Nat.le_refl _) entry hentry).1
  rw [nesting]
  omega

/-- A constant over others: it holds nothing, or it is a table of scalars, except that its keys
may be among the others. -/
inductive BuiltOver (known : List Constant) : Constant → Prop
  | plain {constant : Constant} (hconstant : ∀ array hash, constant ≠ .table array hash) :
      BuiltOver known constant
  | table {array : List Constant} {hash : List (Constant × Constant)}
      (harray : ∀ item ∈ array, item.IsScalar)
      (hhash : ∀ entry ∈ hash, (entry.1 ∈ known ∨ ∀ array hash, entry.1 ≠ .table array hash) ∧
        entry.2.IsScalar) : BuiltOver known (.table array hash)

namespace BuiltOver

theorem mono {known' : List Constant} (hconstant : BuiltOver known constant)
    (hsub : ∀ key ∈ known, key ∈ known') : BuiltOver known' constant := by
  cases hconstant with
  | plain hplain => exact .plain hplain
  | table harray hhash =>
      exact .table harray fun entry hentry =>
        ⟨(hhash entry hentry).1.imp_left (hsub entry.1), (hhash entry hentry).2⟩

theorem of_shallow (hconstant : constant.IsShallow) : BuiltOver known constant := by
  cases constant with
  | table array hash =>
      exact .table hconstant.1 fun entry hentry =>
        ⟨.inr (hconstant.2 entry hentry).1.not_table, (hconstant.2 entry hentry).2⟩
  | _ => exact .plain nofun

/-- Without other constants, tables do not nest. -/
theorem nesting_le (hconstant : BuiltOver [] constant) : constant.nesting ≤ 1 := by
  cases hconstant with
  | plain hplain =>
      rw [nesting_eq_zero_iff.mpr hplain]
      exact Nat.zero_le 1
  | table harray hhash =>
      have hitems : nestingAll _ ≤ 0 := nestingAll_le_iff.mpr fun item hitem =>
        Nat.le_of_eq (nesting_eq_zero_iff.mpr (harray item hitem).not_table)
      have hentries : nestingEntries _ ≤ 0 := nestingEntries_le_iff.mpr fun entry hentry => by
        obtain ⟨hkey, hvalue⟩ := hhash entry hentry
        have hplain := hkey.resolve_left List.not_mem_nil
        exact ⟨Nat.le_of_eq (nesting_eq_zero_iff.mpr hplain),
          Nat.le_of_eq (nesting_eq_zero_iff.mpr hvalue.not_table)⟩
      rw [nesting]
      omega

/-- A constant is bounded by its own entries and by the constants it is built over. -/
theorem count_lt {bound : Nat} (hconstant : BuiltOver known constant) (hbound : 0 < bound)
    (hkeys : ∀ key ∈ known, key.nesting < constant.nesting → key.count < 2 * bound) :
    constant.count < 2 * bound * constant.extent := by
  cases hconstant with
  | plain hplain =>
      rw [count_of_not_table hplain, extent_of_not_table hplain]
      omega
  | @table array hash harray hhash =>
      have hentries : countEntries hash ≤ hash.length * (2 * bound) := by
        refine countEntries_le fun entry hentry => ⟨?_, (hhash entry hentry).2⟩
        rcases (hhash entry hentry).1 with hknown | hplain
        · exact hkeys entry.1 hknown (nesting_lt_of_entry hentry)
        · rw [count_of_not_table hplain]
          omega
      have harrayLength : array.length ≤ array.length * (2 * bound) :=
        Nat.le_mul_of_pos_right _ (by omega)
      calc (Constant.table array hash).count
          = array.length + countEntries hash + 1 := by rw [count, countAll_of_scalars harray]
        _ < array.length * (2 * bound) + hash.length * (2 * bound) + 2 * bound := by omega
        _ = 2 * bound * (Constant.table array hash).extent := by
          simp only [extent, entryCount]
          ring

end BuiltOver

/-- Constants that are built over one another, with few entries each. -/
theorem count_lt_pow {limit : Nat} (hbuilt : ∀ constant ∈ known, BuiltOver known constant)
    (hextent : ∀ constant ∈ known, constant.extent ≤ limit) (depth : Nat) :
    ∀ constant ∈ known, constant.nesting ≤ depth → constant.count < 2 * limit ^ depth := by
  induction depth with
  | zero =>
      intro constant hmem hdepth
      rw [count_of_not_table (nesting_eq_zero_iff.mp (Nat.le_zero.mp hdepth)), Nat.pow_zero]
      decide
  | succ depth ih =>
      intro constant hmem hdepth
      have hlimit := hextent constant hmem
      have hpos : 0 < limit ^ depth := Nat.pow_pos (Nat.lt_of_lt_of_le (Nat.succ_pos _) hlimit)
      calc constant.count
          < 2 * limit ^ depth * constant.extent := (hbuilt constant hmem).count_lt hpos
            fun key hkey hless => ih key hkey (by omega)
        _ ≤ 2 * limit ^ depth * limit := Nat.mul_le_mul_left _ hlimit
        _ = 2 * limit ^ (depth + 1) := by ring

end Constant

/-- The constants of a function, those in its tables included. -/
def Body.constantCount (body : Body) : Nat :=
  (body.constants.map Constant.count).sum

/-- The same with the numeric constants, which hold nothing. -/
def Body.valueCount (body : Body) : Nat :=
  body.constantCount + body.numConstants.length

/-- The constants of a function are built over one another. -/
def Body.IsBuilt (body : Body) : Prop :=
  ∀ constant ∈ body.constants, Constant.BuiltOver body.constants constant

/-- The constants of a function are scalars, tables of scalars and functions. -/
def Body.IsFlat (body : Body) : Prop :=
  ∀ constant ∈ body.constants, Constant.BuiltOver [] constant

namespace Body

variable {body : Body}

theorem IsFlat.isBuilt (hbody : body.IsFlat) : body.IsBuilt :=
  fun constant hmem => (hbody constant hmem).mono (by simp)

theorem sum_extent_le (body : Body) :
    (body.constants.map Constant.extent).sum + body.numConstants.length ≤ body.extent := by
  rw [Constant.sum_map_extent, extent]
  omega

theorem valueCount_le {limit depth : Nat} (hbody : body.IsBuilt) (hlimit : body.extent ≤ limit)
    (hdepth : ∀ constant ∈ body.constants, constant.nesting ≤ depth + 1) :
    body.valueCount ≤ 2 * limit ^ depth * body.extent := by
  have hsum := body.sum_extent_le
  have hextent : ∀ constant ∈ body.constants, constant.extent ≤ limit := fun constant hmem =>
    (List.le_sum_of_mem (List.mem_map_of_mem hmem)).trans (by omega)
  have hpos : 0 < limit ^ depth :=
    Nat.pow_pos (Nat.lt_of_lt_of_le (by rw [extent]; omega) hlimit)
  have hcount : ∀ constant ∈ body.constants,
      constant.count ≤ 2 * limit ^ depth * constant.extent := by
    intro constant hmem
    refine Nat.le_of_lt ((hbody constant hmem).count_lt hpos fun key hkey hless => ?_)
    have hshallower := hdepth constant hmem
    exact Constant.count_lt_pow hbody hextent depth key hkey (by omega)
  have hconstants : body.constantCount ≤
      2 * limit ^ depth * (body.constants.map Constant.extent).sum :=
    (List.sum_le_sum hcount).trans (Nat.le_of_eq (List.sum_map_mul_left ..))
  have hnumbers : body.numConstants.length ≤ 2 * limit ^ depth * body.numConstants.length :=
    Nat.le_mul_of_pos_left _ (by omega)
  calc body.valueCount
      ≤ 2 * limit ^ depth * ((body.constants.map Constant.extent).sum +
          body.numConstants.length) := by
        rw [valueCount, Nat.mul_add]
        exact Nat.add_le_add hconstants hnumbers
    _ ≤ 2 * limit ^ depth * body.extent := Nat.mul_le_mul_left _ hsum

end Body

namespace Prototype

theorem le_total {measure : Body → Nat} {tree chunk : Prototype} (hchunk : chunk ∈ tree.postorder) :
    measure chunk.body ≤ tree.total measure :=
  List.le_sum_of_mem (List.mem_map_of_mem hchunk)

theorem total_le_mul {measure measure' : Body → Nat} {tree : Prototype} {factor : Nat}
    (hchunks : ∀ chunk ∈ tree.postorder, measure chunk.body ≤ factor * measure' chunk.body) :
    tree.total measure ≤ factor * tree.total measure' := by
  calc tree.total measure
      ≤ (tree.postorder.map fun chunk => factor * measure' chunk.body).sum :=
        List.sum_le_sum hchunks
    _ = factor * tree.total measure' := List.sum_map_mul_left ..

/-- The constants of a tree are bounded by a power of what the tree has in its lists. -/
theorem valueCount_le {tree : Prototype} {limit depth : Nat}
    (htree : tree.Everywhere fun chunk => chunk.body.IsBuilt)
    (hlimit : tree.total Body.extent ≤ limit)
    (hdepth : ∀ chunk ∈ tree.postorder, ∀ constant ∈ chunk.body.constants,
      constant.nesting ≤ depth + 1) :
    tree.total Body.valueCount ≤ 2 * limit ^ (depth + 1) := by
  have hchunks : ∀ chunk ∈ tree.postorder,
      chunk.body.valueCount ≤ 2 * limit ^ depth * chunk.body.extent := by
    intro chunk hchunk
    have hextent : chunk.body.extent ≤ limit := (le_total hchunk).trans hlimit
    exact Body.valueCount_le (htree chunk hchunk) hextent (hdepth chunk hchunk)
  calc tree.total Body.valueCount
      ≤ 2 * limit ^ depth * tree.total Body.extent := total_le_mul hchunks
    _ ≤ 2 * limit ^ depth * limit := Nat.mul_le_mul_left _ hlimit
    _ = 2 * limit ^ (depth + 1) := by ring

theorem IsShallow.isFlat {chunk : Prototype} (hchunk : chunk.IsShallow) : chunk.body.IsFlat := by
  intro constant hmem
  rcases hchunk constant hmem with ⟨index, rfl, -⟩ | hshallow
  · exact .plain nofun
  · exact .of_shallow hshallow

end Prototype

namespace Luau

variable {room : Nat} {h : Header}

/-- Linking leaves tables as they are. -/
theorem LinkedTo.eq_or_not_table {numbers : List Nat} {constant result : Constant}
    (hlinked : LinkedTo numbers constant result) :
    result = constant ∨ ∀ array hash, constant ≠ .table array hash := by
  cases hlinked with
  | proto => exact .inr nofun
  | other => exact .inl rfl

theorem RecordParts.From.isBuilt {strings : Array Bytes} {table : Table} {parts : RecordParts}
    (hparts : parts.From room h strings table) : parts.prototype.body.IsBuilt := by
  have hshaped := constants_shaped.of_gives hparts.raw
  have hlinks := (linkConstants_delivers _ _ _).of_gives hparts.linked
  intro constant hmem
  obtain ⟨raw, hraw, hlinked⟩ := hlinks.to_raw constant hmem
  cases hlinked with
  | proto => exact .plain nofun
  | other =>
      cases hshaped constant hraw with
      | plain hplain => exact .plain hplain
      | table hhash =>
          refine .table (by simp) fun entry hentry => ⟨?_, (hhash entry hentry).2⟩
          obtain ⟨result, hresult, hkey⟩ := hlinks.of_raw entry.1 (hhash entry hentry).1
          rcases hkey.eq_or_not_table with rfl | hplain
          · exact .inl hresult
          · exact .inr hplain

theorem main_built (maxDepth : Int) : (main h maxDepth).Delivers room
    (Prototype.Everywhere fun chunk => chunk.body.IsBuilt) :=
  main_delivers settles_stringTable.any fun _ hparts => hparts.isBuilt

end Luau

theorem mainFunction_built {room : Nat} (h : Header) (maxDepth : Int) :
    (mainFunction h maxDepth).Delivers room
      (Prototype.Everywhere fun chunk => chunk.body.IsBuilt) := by
  by_cases hdialect : h.dialect = .luau
  · rw [mainFunction, hdialect]
    exact Luau.main_built maxDepth
  · exact (mainFunction_shallow hdialect maxDepth).mono fun tree htree =>
      htree.mono fun chunk hchunk => hchunk.isFlat.isBuilt

/-- Written out, the constants of a file, numeric ones included, number at most twice its size to
the power of the depth to which its tables nest. Nothing but the file bounds that depth. No
dialect but Luau has tables in tables, so in every other one the constants are linear in the size
of the file. -/
theorem constants_bounded {options : Options} {data : Array UInt8} {bytecode : Bytecode}
    {last : Int} {trace : List Event} (hdecode : decode options data = .done bytecode last trace) :
    (∀ depth : Nat, (∀ chunk ∈ bytecode.main.postorder, ∀ constant ∈ chunk.body.constants,
      constant.nesting ≤ depth + 1) →
        bytecode.main.total Body.valueCount ≤ 2 * data.size ^ (depth + 1)) ∧
    (bytecode.header.dialect ≠ .luau →
      bytecode.main.total Body.valueCount ≤ 2 * data.size) := by
  obtain ⟨-, hmain⟩ := decode_gives hdecode
  obtain ⟨-, hinside, hpaid⟩ := spends_file options (.whole data) hdecode
  have hlimit : bytecode.main.total Body.extent ≤ data.size := by
    simp only [Window.whole] at hinside
    dsimp only at hpaid
    omega
  have hbound : ∀ depth : Nat, (∀ chunk ∈ bytecode.main.postorder,
      ∀ constant ∈ chunk.body.constants, constant.nesting ≤ depth + 1) →
        bytecode.main.total Body.valueCount ≤ 2 * data.size ^ (depth + 1) := fun depth =>
    Prototype.valueCount_le ((mainFunction_built _ _).of_gives hmain) hlimit
  refine ⟨hbound, fun hdialect => ?_⟩
  have hflat := (mainFunction_shallow hdialect _).of_gives hmain
  have hlinear := hbound 0 fun chunk hchunk constant hmem =>
    ((hflat chunk hchunk).isFlat constant hmem).nesting_le
  rwa [Nat.zero_add, Nat.pow_one] at hlinear

/-- A Luau dump of one function with three constants: nil, a table with nil as eight of its keys,
and a table with that table as eight of its keys. -/
def nestedTableSample : Array UInt8 :=
  #[3, 0, 1, 0, 0, 0, 0, 0, 3, 0,
    5, 8, 0, 0, 0, 0, 0, 0, 0, 0,
    5, 8, 1, 1, 1, 1, 1, 1, 1, 1,
    0, 0, 0, 0, 0, 0]

theorem decode_nestedTableSample : ∃ bytecode last trace,
    decode { origin := .luau } nestedTableSample = .done bytecode last trace ∧
      bytecode.main.total Body.constantCount = 163 ∧
        ∀ chunk ∈ bytecode.main.postorder, ∀ constant ∈ chunk.body.constants,
          constant.nesting ≤ 2 :=
  ⟨_, _, _, rfl, rfl, by decide⟩

theorem constants_bounded_nestedTableSample : ∃ bytecode last trace,
    decode { origin := .luau } nestedTableSample = .done bytecode last trace ∧
      bytecode.main.total Body.constantCount = 163 ∧
        bytecode.main.total Body.valueCount ≤ 2 * nestedTableSample.size ^ 2 := by
  obtain ⟨bytecode, last, trace, hdecode, hcount, hdepth⟩ := decode_nestedTableSample
  exact ⟨bytecode, last, trace, hdecode, hcount, (constants_bounded hdecode).1 1 hdepth⟩

/-- Where tables are keys of tables, four constants for each byte are not enough. -/
theorem not_forall_linear : ¬ ∀ (options : Options) (data : Array UInt8) (bytecode : Bytecode)
    (last : Int) (trace : List Event), decode options data = .done bytecode last trace →
      bytecode.main.total Body.constantCount ≤ 4 * data.size := by
  intro hall
  obtain ⟨bytecode, last, trace, hdecode, hcount, -⟩ := decode_nestedTableSample
  have hbound := hall _ _ _ _ _ hdecode
  rw [hcount] at hbound
  exact absurd hbound (by decide)

end LuaDump
