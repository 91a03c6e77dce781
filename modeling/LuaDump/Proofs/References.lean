import LuaDump.Proofs.Luau.Listing
import LuaDump.Proofs.Shape

/-! # References to nested functions

A function constant refers to one of the children of the function that owns it. It does so by
the index of the child, except for function constants in a table of a Luau dump: these keep
the number that the child has in the file.
-/

namespace LuaDump

open Decoder

namespace Constant

/-- A constant occurs in another one: it is that constant, or occurs in an item, a key or a
value of that table. -/
inductive OccursIn (inner : Constant) : Constant → Prop
  | self : OccursIn inner inner
  | item {array : List Constant} {hash : List (Constant × Constant)} {item : Constant}
      (hmem : item ∈ array) (hitem : OccursIn inner item) : OccursIn inner (.table array hash)
  | key {array : List Constant} {hash : List (Constant × Constant)} {entry : Constant × Constant}
      (hmem : entry ∈ hash) (hkey : OccursIn inner entry.1) : OccursIn inner (.table array hash)
  | value {array : List Constant} {hash : List (Constant × Constant)}
      {entry : Constant × Constant} (hmem : entry ∈ hash) (hvalue : OccursIn inner entry.2) :
      OccursIn inner (.table array hash)

/-- No function constant occurs in the constant. -/
def IsClosed (constant : Constant) : Prop :=
  ∀ index, ¬ OccursIn (.proto index) constant

theorem OccursIn.eq_of_not_table {inner constant : Constant} (hoccurs : OccursIn inner constant)
    (hconstant : ∀ array hash, constant ≠ .table array hash) : inner = constant := by
  cases hoccurs with
  | self => rfl
  | item => exact absurd rfl (hconstant _ _)
  | key => exact absurd rfl (hconstant _ _)
  | value => exact absurd rfl (hconstant _ _)

theorem IsScalar.isClosed {constant : Constant} (hconstant : constant.IsScalar) :
    constant.IsClosed := by
  intro index hoccurs
  cases hoccurs <;> exact hconstant

theorem IsShallow.isClosed {constant : Constant} (hconstant : constant.IsShallow) :
    constant.IsClosed := by
  intro index hoccurs
  cases hoccurs with
  | self => exact hconstant
  | item hmem hitem => exact (hconstant.1 _ hmem).isClosed index hitem
  | key hmem hkey => exact (hconstant.2 _ hmem).1.isClosed index hkey
  | value hmem hvalue => exact (hconstant.2 _ hmem).2.isClosed index hvalue

end Constant

namespace Prototype

/-- Every function constant, wherever it occurs, is the index of a child. -/
def Intact (chunk : Prototype) : Prop :=
  ∀ constant ∈ chunk.body.constants, ∀ index : Int, Constant.OccursIn (.proto index) constant →
    0 ≤ index ∧ index < chunk.children.length

/-- What function constants refer to, where the functions of the file are given in their order:
one that is a constant of its own is the index of a child, and one in a table is the number of
a child in the file, to which a constant of its own refers as well. -/
structure Resolves (functions : List Prototype) (chunk : Prototype) : Prop where
  own : ∀ index : Int, .proto index ∈ chunk.body.constants →
    0 ≤ index ∧ index < chunk.children.length
  nested : ∀ {array hash}, .table array hash ∈ chunk.body.constants → ∀ index : Int,
    Constant.OccursIn (.proto index) (.table array hash) →
      ∃ number place : Nat, index = number ∧ place < chunk.children.length ∧
        functions[number]? = chunk.children[place]? ∧ .proto place ∈ chunk.body.constants

/-- Every function constant in a table is below the number of children. -/
def NestedBelow (chunk : Prototype) : Prop :=
  ∀ {array hash}, .table array hash ∈ chunk.body.constants → ∀ index : Int,
    Constant.OccursIn (.proto index) (.table array hash) → index < chunk.children.length

/-- All references are indices of children exactly if the children that tables refer to have
such small numbers in the file. -/
theorem Resolves.intact_iff {functions : List Prototype} {chunk : Prototype}
    (hchunk : chunk.Resolves functions) : chunk.Intact ↔ chunk.NestedBelow := by
  constructor
  · intro hintact array hash htable index hoccurs
    exact (hintact _ htable index hoccurs).2
  · intro hbelow constant hconstant index hoccurs
    by_cases htable : ∃ array hash, constant = .table array hash
    · obtain ⟨array, hash, rfl⟩ := htable
      obtain ⟨number, -, rfl, -⟩ := hchunk.nested hconstant index hoccurs
      exact ⟨Int.natCast_nonneg number, hbelow hconstant _ hoccurs⟩
    · obtain rfl := hoccurs.eq_of_not_table fun array hash heq => htable ⟨array, hash, heq⟩
      exact hchunk.own index hconstant

/-- Where no table holds a function constant, all references are indices of children. -/
theorem resolves_of_intact {chunk : Prototype}
    (hconstants : ∀ constant ∈ chunk.body.constants,
      (∃ index : Int, constant = .proto index ∧ 0 ≤ index ∧ index < chunk.children.length) ∨
        constant.IsClosed) : Intact chunk ∧ Resolves [] chunk := by
  have hintact : Intact chunk := by
    intro constant hconstant index hoccurs
    rcases hconstants constant hconstant with ⟨found, rfl, hfound⟩ | hclosed
    · obtain ⟨rfl⟩ := hoccurs.eq_of_not_table (by simp)
      exact hfound
    · exact absurd hoccurs (hclosed index)
  refine ⟨hintact, fun index hindex => hintact _ hindex index .self, ?_⟩
  intro array hash htable index hoccurs
  rcases hconstants _ htable with ⟨found, heq, -⟩ | hclosed
  · exact absurd heq (by simp)
  · exact absurd hoccurs (hclosed index)

end Prototype

namespace Luau

variable {room : Nat} {strings : Array Bytes}

/-- A function constant in a table is also among the constants. -/
def NestedListed (constants : List Constant) : Prop :=
  ∀ constant ∈ constants, ∀ index, Constant.OccursIn (.proto index) constant →
    .proto index ∈ constants

/-- The keys of a table are constants in turn, so what occurs in them is listed too. -/
theorem nestedListed_of_shaped {values : List Constant}
    (hvalues : ∀ constant ∈ values, ShapedOver values constant) : NestedListed values := by
  intro constant hmem index hoccurs
  induction hoccurs with
  | self => exact hmem
  | item hitem =>
      cases hvalues _ hmem with
      | plain hplain => exact absurd rfl (hplain _ _)
      | table => exact absurd hitem List.not_mem_nil
  | key hentry hkey ih =>
      cases hvalues _ hmem with
      | plain hplain => exact absurd rfl (hplain _ _)
      | table hhash => exact ih (hhash _ hentry).1
  | value hentry hvalue =>
      cases hvalues _ hmem with
      | plain hplain => exact absurd rfl (hplain _ _)
      | table hhash => exact absurd hvalue ((hhash _ hentry).2.isClosed index)

/-- What the function constants of a record refer to: one that is a constant of its own is the
index of a child, and one in a table is the number that the record names for a child, to which a
constant of its own refers as well. -/
structure FlatRecord.Resolves (flat : FlatRecord) : Prop where
  own : ∀ index : Int, .proto index ∈ flat.body.constants →
    0 ≤ index ∧ index < flat.children.length
  nested : ∀ {array hash}, .table array hash ∈ flat.body.constants → ∀ index : Int,
    Constant.OccursIn (.proto index) (.table array hash) →
      ∃ number place : Nat, index = number ∧ flat.children[place]? = some number ∧
        .proto place ∈ flat.body.constants

theorem FlatRecord.resolves_of_links {flat : FlatRecord} {raw : List Constant}
    (hlisted : NestedListed raw) (hlinks : Links flat.children raw flat.body.constants) :
    flat.Resolves where
  own := by
    intro index hindex
    obtain ⟨constant, -, hlinked⟩ := hlinks.to_raw _ hindex
    cases hlinked with
    | proto hplace =>
        obtain ⟨number, hget, -⟩ := getElem?_of_childIndex? hplace
        have hlt := (List.getElem?_eq_some_iff.mp hget).1
        omega
    | other hconstant => exact absurd rfl (hconstant index)
  nested := by
    intro array hash hmem index hoccurs
    -- The table is as it was read, and the function constant is listed beside it.
    obtain ⟨constant, hconstant, hlinked⟩ := hlinks.to_raw _ hmem
    cases hlinked with
    | other hplain =>
        obtain ⟨result, hresult, hlinked⟩ := hlinks.of_raw _ (hlisted _ hconstant index hoccurs)
        cases hlinked with
        | @proto _ place hplace =>
            obtain ⟨number, hget, rfl⟩ := getElem?_of_childIndex? hplace
            exact ⟨number, place, rfl, hget, hresult⟩
        | other hconstant => exact absurd rfl (hconstant index)

theorem flatRecord_resolves {h : Header} :
    (flatRecord h strings).Delivers room FlatRecord.Resolves := by
  refine .skip settles_byte fun maxStack => .skip settles_byte fun numParams => ?_
  refine .skip settles_byte fun numUpvalues => .skip settles_nextByte fun variadic => ?_
  refine .skip (settles_typeBlock h) fun types => ?_
  refine .skip (settles_counted _ settles_count settles_instruction) fun instructions => ?_
  refine constants_shaped.bind fun raw hraw => .skip settles_childNumbers fun children => ?_
  refine (linkConstants_delivers _ _ _).bind fun linked hlinked => ?_
  refine .skip settles_count fun line => .skip (settles_stringRef strings) fun name => ?_
  refine .skip (settles_optionalPart _ (settles_lineTable _)) fun lines => ?_
  refine .skip (settles_optionalPart _ (settles_debugTable strings)) fun names => .pure ?_
  exact FlatRecord.resolves_of_links (nestedListed_of_shaped hraw) hlinked

theorem fileListing_resolves : fileListing.Delivers room fun found =>
    ∀ flat ∈ found.records, flat.Resolves := by
  refine .skip (settles_header .luau) fun header => .skip settles_stringTable fun strings => ?_
  refine .skip (settles_userdataTypes header strings) fun _ => ?_
  refine .skip settles_varint fun count => (delivers_checkCount count).bind fun _ _ => ?_
  refine (delivers_collect (fun _ => flatRecord_resolves) count 0).bind fun records hrecords => ?_
  exact .skip settles_varint fun main => .pure hrecords.2

/-- The table holds the functions of a file by their numbers, as far as they have no parent
yet. -/
structure Numbers (table : Table) (functions : List Prototype) : Prop where
  length_eq : functions.length = table.size
  get : ∀ {number entry}, table.get? number = some entry →
    functions[number]? = some entry.prototype

theorem Numbers.push {table : Table} {functions : List Prototype} (entry : Entry)
    (htable : Numbers table functions) :
    Numbers (table.push (some entry)) (functions ++ [entry.prototype]) where
  length_eq := by simp [htable.length_eq]
  get := by
    intro number found hget
    rcases get?_push hget with ⟨rfl, rfl⟩ | hold
    · rw [← htable.length_eq, List.getElem?_concat_length]
    · have hfound := htable.get hold
      rw [List.getElem?_append_left (List.getElem?_eq_some_iff.mp hfound).1, hfound]

/-- Functions as records describe them: each has the fields of its record, and its children are
the functions with the numbers that the record names. -/
structure Describes (records : List FlatRecord) (functions : List Prototype) : Prop where
  length_eq : functions.length = records.length
  get : ∀ {number : Nat} {record : FlatRecord} {function : Prototype},
    records[number]? = some record → functions[number]? = some function →
      function.body = record.body ∧
        function.children.map some = record.children.map (functions[·]?)

namespace Describes

variable {records : List FlatRecord} {functions : List Prototype} {number : Nat}
  {chunk : Prototype}

theorem exists_record (hdescribes : Describes records functions)
    (hchunk : functions[number]? = some chunk) :
    ∃ record ∈ records, chunk.body = record.body ∧
      chunk.children.map some = record.children.map (functions[·]?) := by
  have hlt := (List.getElem?_eq_some_iff.mp hchunk).1
  rw [hdescribes.length_eq] at hlt
  exact ⟨_, List.getElem_mem hlt, hdescribes.get (List.getElem?_eq_getElem hlt) hchunk⟩

/-- A function resolves its references as its record does. -/
theorem resolves (hdescribes : Describes records functions)
    (hrecords : ∀ flat ∈ records, flat.Resolves) (hchunk : functions[number]? = some chunk) :
    chunk.Resolves functions := by
  obtain ⟨record, hrecord, hbody, hchildren⟩ := hdescribes.exists_record hchunk
  have hlength : chunk.children.length = record.children.length := by
    simpa using congrArg List.length hchildren
  have hplaces : ∀ place : Nat, chunk.children[place]?.map some =
      record.children[place]?.map (functions[·]?) := by
    intro place
    simpa using congrArg (·[place]?) hchildren
  obtain ⟨hown, hnested⟩ := hrecords record hrecord
  rw [← hbody] at hown hnested
  refine ⟨fun index hindex => hlength ▸ hown index hindex, ?_⟩
  intro array hash htable index hoccurs
  obtain ⟨number, place, rfl, hnumber, hmem⟩ := hnested htable index hoccurs
  have hlt : place < chunk.children.length :=
    hlength ▸ (List.getElem?_eq_some_iff.mp hnumber).1
  have hplace := hplaces place
  rw [hnumber, List.getElem?_eq_getElem hlt, Option.map_some, Option.map_some] at hplace
  exact ⟨number, place, rfl, hlt, by rw [List.getElem?_eq_getElem hlt, Option.some.inj hplace],
    hmem⟩

/-- All functions of a tree are among the functions of the file if its root is. -/
theorem everywhere (hdescribes : Describes records functions)
    (hchunk : functions[number]? = some chunk) :
    chunk.Everywhere fun function => ∃ number : Nat, functions[number]? = some function := by
  induction chunk using Prototype.induct generalizing number with
  | hnode chunk ih =>
      refine Prototype.everywhere_iff.mpr ⟨⟨number, hchunk⟩, fun child hchild => ?_⟩
      obtain ⟨record, -, -, hchildren⟩ := hdescribes.exists_record hchunk
      have hmem := hchildren ▸ List.mem_map_of_mem (f := some) hchild
      obtain ⟨other, -, hother⟩ := List.mem_map.mp hmem
      exact ih child hchild hother

/-- One more record describes one more function. -/
theorem push (hdescribes : Describes records functions) {table rest : Table} {entry : Entry}
    {flat : FlatRecord} (hnumbers : Numbers table functions)
    (hread : ReadAs table (entry, rest) flat) :
    Describes (records ++ [flat]) (functions ++ [entry.prototype]) := by
  have hkept : ∀ {number : Nat} {function : Prototype}, functions[number]? = some function →
      (functions ++ [entry.prototype])[number]? = some function := by
    intro number function hfunction
    rwa [List.getElem?_append_left (List.getElem?_eq_some_iff.mp hfunction).1]
  refine ⟨by simp [hdescribes.length_eq], ?_⟩
  intro number record function hrecord hfunction
  rcases Nat.lt_trichotomy number records.length with hold | rfl | hbeyond
  · rw [List.getElem?_append_left hold] at hrecord
    rw [List.getElem?_append_left (hdescribes.length_eq ▸ hold)] at hfunction
    obtain ⟨hbody, hchildren⟩ := hdescribes.get hrecord hfunction
    refine ⟨hbody, hchildren.trans (List.map_congr_left fun child hchild => ?_)⟩
    have hmem : functions[child]? ∈ function.children.map some :=
      hchildren ▸ List.mem_map_of_mem hchild
    obtain ⟨found, -, hfound⟩ := List.mem_map.mp hmem
    rw [hkept hfound.symm, hfound]
  · obtain ⟨children, hclaims, hflat, hentry⟩ := hread
    rw [List.getElem?_concat_length] at hrecord
    rw [← hdescribes.length_eq, List.getElem?_concat_length] at hfunction
    obtain rfl := Option.some.inj hrecord
    obtain rfl := Option.some.inj hfunction
    dsimp only at hentry
    refine ⟨by rw [hentry], ?_⟩
    rw [hentry, hflat, List.map_map, List.map_map]
    refine List.map_congr_left fun child hchild => ?_
    rw [hentry] at hkept
    exact (hkept (hnumbers.get (hclaims.children child hchild))).symm
  · have hlt := (List.getElem?_eq_some_iff.mp hrecord).1
    rw [List.length_append, List.length_singleton] at hlt
    omega

end Describes

theorem exists_describes_push {table rest : Table} {records : List FlatRecord} {entry : Entry}
    {flat : FlatRecord}
    (hdescribes : ∃ functions, Numbers table functions ∧ Describes records functions)
    (hread : ReadAs table (entry, rest) flat) :
    ∃ functions, Numbers (rest.push (some entry)) functions ∧
      Describes (records ++ [flat]) functions := by
  obtain ⟨functions, hnumbers, hdescribes⟩ := hdescribes
  obtain ⟨children, hclaims, -⟩ := id hread
  have hrest : Numbers rest functions :=
    ⟨by rw [hclaims.size_eq, hnumbers.length_eq], fun hget => hnumbers.get (hclaims.rest hget)⟩
  exact ⟨_, hrest.push entry, hdescribes.push hnumbers hread⟩

/-- The functions that are read are those that the listing describes. -/
theorem main_described (h : Header) (maxDepth : Int) : (main h maxDepth).MirroredBy
    (fun tree found => ∃ functions, Describes found.records functions ∧
      functions[found.main]? = some tree) (listing h) := by
  have hempty : ∃ functions, Numbers #[] functions ∧ Describes [] functions :=
    ⟨[], ⟨rfl, fun hget => by simp [Table.get?] at hget⟩, ⟨rfl, fun hrecord => by simp at hrecord⟩⟩
  intro w pos tree last trace hdone
  obtain ⟨found, trace', hfound, table, height, ⟨functions, hnumbers, hdescribes⟩, hget⟩ :=
    main_mirrored (fun table records => ∃ functions,
      Numbers table functions ∧ Describes records functions) hempty
      (fun _ _ _ _ _ => exists_describes_push) hdone
  exact ⟨found, trace', hfound, functions, hdescribes, hnumbers.get hget⟩

end Luau

theorem Prototype.IsShallow.resolves {chunk : Prototype} (hchunk : chunk.IsShallow) :
    chunk.Intact ∧ chunk.Resolves [] :=
  resolves_of_intact fun constant hmem =>
    (hchunk constant hmem).imp_right Constant.IsShallow.isClosed

theorem mainFunction_resolves {room : Nat} {h : Header} (hdialect : h.dialect ≠ .luau)
    (maxDepth : Int) : (mainFunction h maxDepth).Delivers room
      (Prototype.Everywhere fun chunk => chunk.Intact ∧ chunk.Resolves []) :=
  (mainFunction_shallow hdialect maxDepth).mono fun _ htree =>
    htree.mono fun _ hchunk => hchunk.resolves

/-- Whatever is decoded, a function constant is the index of a child of the function that owns
it, also in a table unless the dump is a Luau dump. There a function constant in a table is the
number that a child has among the functions of the file, which are those that its listing
describes, so it is an index of a child exactly if that number is small enough. -/
theorem proto_references {options : Options} {data : Array UInt8} {bytecode : Bytecode}
    {last : Int} {trace : List Event} (hdecode : decode options data = .done bytecode last trace) :
    (bytecode.header.dialect ≠ .luau → ∀ chunk ∈ bytecode.main.postorder, chunk.Intact) ∧
      ∃ functions,
        (∀ chunk ∈ bytecode.main.postorder,
          chunk.Resolves functions ∧ (chunk.Intact ↔ chunk.NestedBelow)) ∧
        (bytecode.header.dialect = .luau → ∃ found trace',
          Luau.fileListing (Window.whole data) 0 = .done found last trace' ∧
            Luau.Describes found.records functions ∧
            functions[found.main]? = some bytecode.main) := by
  obtain ⟨⟨w, pos, last', trace', -, hheader⟩, hmain⟩ := decode_gives hdecode
  by_cases hdialect : bytecode.header.dialect = .luau
  · have horigin := (Header.header_readable options.origin hheader).2.mp hdialect
    obtain ⟨found, trace', hfound, functions, hdescribes, htree⟩ :=
      Luau.exists_fileListing_of_decode Luau.main_described horigin hdecode
    have hrecords := (Luau.fileListing_resolves (.whole data) hfound).2.2
    refine ⟨fun hother => absurd hdialect hother, functions, fun chunk hchunk => ?_,
      fun _ => ⟨found, trace', hfound, hdescribes, htree⟩⟩
    obtain ⟨number, hnumber⟩ := hdescribes.everywhere htree chunk hchunk
    have hresolves := hdescribes.resolves hrecords hnumber
    exact ⟨hresolves, hresolves.intact_iff⟩
  · have htree := (mainFunction_resolves hdialect _).of_gives hmain
    exact ⟨fun _ chunk hchunk => (htree chunk hchunk).1, [],
      fun chunk hchunk => ⟨(htree chunk hchunk).2, (htree chunk hchunk).2.intact_iff⟩,
      fun hluau => absurd hluau hdialect⟩

/-- A Luau dump of three functions. The last one is the main function: it has the second one
as its only child, a function constant for it, and a table with this constant as its key. -/
def nestedKeySample : Array UInt8 :=
  #[3, 0, 3,
    0, 0, 0, 0, 0, 0, 0, 0, 0, 0, 0,
    0, 0, 0, 0, 0, 0, 0, 0, 0, 0, 0,
    0, 0, 0, 0, 0, 2, 6, 1, 5, 1, 0, 1, 1, 0, 0, 0, 0, 2]

theorem decode_nestedKeySample : ∃ bytecode last trace,
    decode { origin := .luau } nestedKeySample = .done bytecode last trace ∧
      bytecode.main.body.constants = [.proto 0, .table [] [(.proto 1, .integer 0)]] ∧
        bytecode.main.children.length = 1 :=
  ⟨_, _, _, rfl, rfl, rfl⟩

/-- In the sample, the function constant in the table is the number of a child. -/
theorem proto_references_nestedKeySample : ∃ bytecode last trace functions found trace',
    decode { origin := .luau } nestedKeySample = .done bytecode last trace ∧
      (∀ chunk ∈ bytecode.main.postorder,
        chunk.Resolves functions ∧ (chunk.Intact ↔ chunk.NestedBelow)) ∧
      Luau.fileListing (Window.whole nestedKeySample) 0 = .done found last trace' ∧
      Luau.Describes found.records functions ∧ functions[found.main]? = some bytecode.main := by
  obtain ⟨bytecode, last, trace, hdecode, hdialect⟩ : ∃ bytecode last trace,
      decode { origin := .luau } nestedKeySample = .done bytecode last trace ∧
        bytecode.header.dialect = .luau := ⟨_, _, _, rfl, rfl⟩
  obtain ⟨-, functions, hresolves, hlisting⟩ := proto_references hdecode
  obtain ⟨found, trace', hfound⟩ := hlisting hdialect
  exact ⟨bytecode, last, trace, functions, found, trace', hdecode, hresolves, hfound⟩

/-- A function constant in a table of a Luau dump may be no index of a child. -/
theorem not_forall_intact : ¬ ∀ (options : Options) (data : Array UInt8) (bytecode : Bytecode)
    (last : Int) (trace : List Event), decode options data = .done bytecode last trace →
      ∀ chunk ∈ bytecode.main.postorder, chunk.Intact := by
  intro hall
  obtain ⟨bytecode, last, trace, hdecode, hconstants, hchildren⟩ := decode_nestedKeySample
  have hroot : bytecode.main ∈ bytecode.main.postorder := bytecode.main.mem_postorder_self
  have hintact := hall _ _ _ _ _ hdecode _ hroot
  have hbound := hintact (.table [] [(.proto 1, .integer 0)]) (by simp [hconstants]) 1
    (.key (List.mem_singleton_self _) .self)
  omega

end LuaDump
