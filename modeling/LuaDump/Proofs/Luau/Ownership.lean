import Mathlib.Data.List.Induction
import LuaDump.Proofs.Luau.Listing

/-! # Owners of functions

A child leaves the table when its parent takes it, so in a file that is decoded no number is
written twice as that of a child, a child stands before its parent, and the main function is
nobody's child. The functions of the tree then have a number each, found by following the
children that the records name from the main function on.
-/

namespace LuaDump

namespace Luau

open Decoder

/-- The numbers of all children, record by record. -/
def references (records : List FlatRecord) : List Nat :=
  records.flatMap (·.children)

/-- Children stand before their parents. -/
def ChildrenFirst (records : List FlatRecord) : Prop :=
  ∀ ⦃index : Nat⦄ ⦃record : FlatRecord⦄, records[index]? = some record →
    ∀ number ∈ record.children, number < index

/-- The number of a child by its index. -/
def childNumber? (records : List FlatRecord) (number index : Nat) : Option Nat :=
  records[number]?.bind fun record => record.children[index]?

/-- The number that is reached by going from child to child. -/
def follow (records : List FlatRecord) (number : Nat) (path : List Nat) : Option Nat :=
  path.foldlM (childNumber? records) number

/-- What keeps a listing from being that of a tree. -/
inductive Listing.Defect (listing : Listing) : Prop
  /-- Two references name the same child. -/
  | shared (hshared : ¬ (references listing.records).Nodup)
  /-- A child is not there yet when its parent names it. -/
  | missing (hmissing : ¬ ChildrenFirst listing.records)
  /-- The main function is a child. -/
  | claimed (hclaimed : listing.main ∈ references listing.records)

/-- Numbers for the functions of a tree, which go by their paths. -/
structure Numbering (listing : Listing) (tree : Prototype) (number : List Nat → Nat) : Prop where
  root : number [] = listing.main
  /-- A function has the fields of its record, and its children the numbers in it. -/
  record : ∀ {path chunk}, tree.descend path = some chunk →
    listing.records[number path]? = some
      ⟨chunk.body, (List.range chunk.children.length).map fun index => number (path ++ [index])⟩
  distinct : ∀ {path other chunk chunk'}, tree.descend path = some chunk →
    tree.descend other = some chunk' → number path = number other → path = other
  child_lt : ∀ {path index child}, tree.descend (path ++ [index]) = some child →
    number (path ++ [index]) < number path

section Paths

variable {records : List FlatRecord}

theorem childNumber?_eq_some_iff {number index child : Nat} :
    childNumber? records number index = some child ↔
      ∃ record, records[number]? = some record ∧ record.children[index]? = some child := by
  simp [childNumber?, Option.bind_eq_some_iff]

theorem children_eq_map {number : Nat} {record : FlatRecord}
    (hrecord : records[number]? = some record) :
    record.children = (List.range record.children.length).map fun index =>
      (childNumber? records number index).getD 0 := by
  refine List.ext_getElem (by simp) fun index hindex _ => ?_
  simp [childNumber?, hrecord, hindex]

theorem follow_cons (number index : Nat) (path : List Nat) :
    follow records number (index :: path) =
      (childNumber? records number index).bind fun child => follow records child path := by
  simp [follow, List.foldlM_cons]

theorem follow_concat (number : Nat) (path : List Nat) (index : Nat) :
    follow records number (path ++ [index]) =
      (follow records number path).bind fun reached => childNumber? records reached index := by
  simp [follow, List.foldlM_append]

theorem mem_references {number index child : Nat}
    (hchild : childNumber? records number index = some child) : child ∈ references records := by
  obtain ⟨record, hrecord, hmem⟩ := childNumber?_eq_some_iff.mp hchild
  exact List.mem_flatMap.mpr ⟨record, List.mem_of_getElem? hrecord, List.mem_of_getElem? hmem⟩

/-- Without shared children, a child has one parent and one place there. -/
theorem childNumber?_inj (hnodup : (references records).Nodup)
    {number number' index index' child : Nat}
    (hchild : childNumber? records number index = some child)
    (hchild' : childNumber? records number' index' = some child) :
    number = number' ∧ index = index' := by
  obtain ⟨record, hrecord, hplace⟩ := childNumber?_eq_some_iff.mp hchild
  obtain ⟨record', hrecord', hplace'⟩ := childNumber?_eq_some_iff.mp hchild'
  obtain ⟨hinside, hbetween⟩ := List.pairwise_flatMap.mp hnodup
  have hapart := List.pairwise_iff_getElem.mp hbetween
  obtain ⟨hlt, rfl⟩ := List.getElem?_eq_some_iff.mp hrecord
  obtain ⟨hlt', rfl⟩ := List.getElem?_eq_some_iff.mp hrecord'
  have hmem := List.mem_of_getElem? hplace
  have hmem' := List.mem_of_getElem? hplace'
  rcases Nat.lt_trichotomy number number' with hbefore | rfl | hbehind
  · exact absurd rfl (hapart number number' hlt hlt' hbefore child hmem child hmem')
  · refine ⟨rfl, ?_⟩
    have hbound := (List.getElem?_eq_some_iff.mp hplace).1
    have hdistinct := hinside _ (List.getElem_mem hlt)
    exact (List.getElem?_inj hbound hdistinct).mp (hplace.trans hplace'.symm)
  · exact absurd rfl (hapart number' number hlt' hlt hbehind child hmem' child hmem)

/-- Where no child is shared, no two paths from a function that is no child reach the same
number. -/
theorem follow_inj (hnodup : (references records).Nodup) {start : Nat}
    (hstart : start ∉ references records) {path other : List Nat} {reached : Nat}
    (hpath : follow records start path = some reached)
    (hother : follow records start other = some reached) : path = other := by
  have hchild : ∀ {path index}, follow records start (path ++ [index]) ≠ some start := by
    intro path index hback
    rw [follow_concat, Option.bind_eq_some_iff] at hback
    obtain ⟨parent, -, hparent⟩ := hback
    exact hstart (mem_references hparent)
  -- The last steps of the paths are compared: they lead to the same child.
  induction path using List.reverseRecOn generalizing other reached with
  | nil =>
      obtain rfl : start = reached := Option.some.inj hpath
      cases other using List.reverseRecOn with
      | nil => rfl
      | append_singleton front index _ => exact absurd hother hchild
  | append_singleton path index ih =>
      cases other using List.reverseRecOn with
      | nil =>
          obtain rfl : start = reached := Option.some.inj hother
          exact absurd hpath hchild
      | append_singleton front index' _ =>
          rw [follow_concat, Option.bind_eq_some_iff] at hpath hother
          obtain ⟨parent, hparent, hlast⟩ := hpath
          obtain ⟨parent', hparent', hlast'⟩ := hother
          obtain ⟨rfl, rfl⟩ := childNumber?_inj hnodup hlast hlast'
          rw [ih hparent hparent']

/-- What is reached in some records is reached when more records follow. -/
theorem follow_append {number reached : Nat} {path : List Nat} (more : List FlatRecord)
    (hpath : follow records number path = some reached) :
    follow (records ++ more) number path = some reached := by
  induction path generalizing number with
  | nil => exact hpath
  | cons index path ih =>
      rw [follow_cons, Option.bind_eq_some_iff] at hpath ⊢
      obtain ⟨child, hchild, hrest⟩ := hpath
      refine ⟨child, ?_, ih hrest⟩
      obtain ⟨record, hrecord, hplace⟩ := childNumber?_eq_some_iff.mp hchild
      refine childNumber?_eq_some_iff.mpr ⟨record, ?_, hplace⟩
      rwa [List.getElem?_append_left (List.getElem?_eq_some_iff.mp hrecord).1]

end Paths

/-- A tree is what the records describe from the given number on: every function of the tree has
the fields of the record that its path leads to, and as many children. -/
def Unfolds (records : List FlatRecord) (number : Nat) (tree : Prototype) : Prop :=
  ∀ ⦃path chunk⦄, tree.descend path = some chunk → ∃ reached record,
    follow records number path = some reached ∧ records[reached]? = some record ∧
      record.body = chunk.body ∧ record.children.length = chunk.children.length

namespace Unfolds

variable {records : List FlatRecord} {number : Nat} {tree : Prototype}

theorem append (htree : Unfolds records number tree) (more : List FlatRecord) :
    Unfolds (records ++ more) number tree := by
  intro path chunk hchunk
  obtain ⟨reached, record, hreached, hrecord, hfields⟩ := htree hchunk
  refine ⟨reached, record, follow_append more hreached, ?_, hfields⟩
  rwa [List.getElem?_append_left (List.getElem?_eq_some_iff.mp hrecord).1]

/-- A function over trees that the records describe. -/
theorem node {record : FlatRecord} (hrecord : records[number]? = some record)
    (hbody : record.body = tree.body) (hlength : record.children.length = tree.children.length)
    (hchildren : ∀ {index child : Nat} {found}, record.children[index]? = some child →
      tree.children[index]? = some found → Unfolds records child found) :
    Unfolds records number tree := by
  rintro (_ | ⟨index, path⟩) chunk hchunk
  · obtain rfl : tree = chunk := Option.some.inj hchunk
    exact ⟨number, record, rfl, hrecord, hbody, hlength⟩
  · rw [Prototype.descend_cons, Option.bind_eq_some_iff] at hchunk
    obtain ⟨found, hfound, hrest⟩ := hchunk
    have hindex : index < record.children.length :=
      hlength ▸ (List.getElem?_eq_some_iff.mp hfound).1
    have hplace := List.getElem?_eq_getElem hindex
    obtain ⟨reached, hreached⟩ := hchildren hplace hfound hrest
    refine ⟨reached, ?_⟩
    rwa [follow_cons, childNumber?_eq_some_iff.mpr ⟨record, hrecord, hplace⟩, Option.bind_some]

end Unfolds

/-- How the table and the records so far belong together: a child is named once, behind its own
record, its place in the table is empty from then on, and the other places hold the trees that
the records describe. -/
structure Accounts (table : Table) (records : List FlatRecord) : Prop where
  size_eq : table.size = records.length
  childrenFirst : ChildrenFirst records
  nodup : (references records).Nodup
  claimed : ∀ number ∈ references records, table.get? number = none
  unfolds : ∀ {number entry}, table.get? number = some entry →
    Unfolds records number entry.prototype

theorem references_concat (records : List FlatRecord) (flat : FlatRecord) :
    references (records ++ [flat]) = references records ++ flat.children := by
  simp [references]

theorem ChildrenFirst.concat {records : List FlatRecord} {flat : FlatRecord}
    (hrecords : ChildrenFirst records) (hflat : ∀ number ∈ flat.children, number < records.length) :
    ChildrenFirst (records ++ [flat]) := by
  intro index record hrecord number hnumber
  rcases Nat.lt_trichotomy index records.length with hold | rfl | hbeyond
  · rw [List.getElem?_append_left hold] at hrecord
    exact hrecords hrecord number hnumber
  · rw [List.getElem?_concat_length] at hrecord
    obtain rfl := Option.some.inj hrecord
    exact hflat number hnumber
  · have hindex := (List.getElem?_eq_some_iff.mp hrecord).1
    rw [List.length_append, List.length_singleton] at hindex
    omega

namespace Accounts

theorem empty : Accounts #[] [] where
  size_eq := rfl
  childrenFirst := by simp [ChildrenFirst]
  nodup := List.nodup_nil
  claimed := by simp [references]
  unfolds hget := by simp [Table.get?] at hget

variable {table rest : Table} {records : List FlatRecord} {entry : Entry} {flat : FlatRecord}

theorem references_lt (haccounts : Accounts table records) {number : Nat}
    (hnumber : number ∈ references records) : number < records.length := by
  obtain ⟨record, hrecord, hchild⟩ := List.mem_flatMap.mp hnumber
  obtain ⟨index, hindex⟩ := List.mem_iff_getElem?.mp hrecord
  have hbefore := haccounts.childrenFirst hindex number hchild
  exact Nat.lt_trans hbefore (List.getElem?_eq_some_iff.mp hindex).1

/-- What a function takes out of the table has been read, and no function before took it. -/
theorem of_claims (haccounts : Accounts table records) {children : List Child}
    (hclaims : Claims table (rest, children)) {child : Child} (hchild : child ∈ children) :
    child.number < records.length ∧ child.number ∉ references records := by
  have hget := hclaims.children child hchild
  constructor
  · rw [← haccounts.size_eq]
    by_contra hbeyond
    simp [Table.get?, hbeyond] at hget
  · intro hclaimed
    simp [haccounts.claimed _ hclaimed] at hget

theorem unfolds_last (haccounts : Accounts table records)
    (hread : ReadAs table (entry, rest) flat) :
    Unfolds (records ++ [flat]) records.length entry.prototype := by
  obtain ⟨children, hclaims, hnumbers, hentry⟩ := hread
  refine .node List.getElem?_concat_length (by rw [hentry]) ?_ ?_
  · rw [hnumbers, hentry, List.length_map, List.length_map]
  · intro index number tree hnumber htree
    rw [hnumbers, List.getElem?_map, Option.map_eq_some_iff] at hnumber
    obtain ⟨child, hchild, rfl⟩ := hnumber
    rw [hentry, List.getElem?_map, hchild] at htree
    obtain rfl := Option.some.inj htree
    exact (haccounts.unfolds (hclaims.children child (List.mem_of_getElem? hchild))).append _

/-- One more record is accounted for. -/
theorem push (haccounts : Accounts table records) (hread : ReadAs table (entry, rest) flat) :
    Accounts (rest.push (some entry)) (records ++ [flat]) := by
  have hunfolds := haccounts.unfolds_last hread
  obtain ⟨children, hclaims, hnumbers, -⟩ := hread
  have hsize : rest.size = records.length := hclaims.size_eq.trans haccounts.size_eq
  have hnew : ∀ number ∈ flat.children,
      number < records.length ∧ number ∉ references records := by
    rw [hnumbers]
    exact List.forall_mem_map.mpr fun child => haccounts.of_claims hclaims
  have hfirst : ChildrenFirst (records ++ [flat]) :=
    haccounts.childrenFirst.concat fun number hnumber => (hnew number hnumber).1
  refine ⟨by simp [hsize], hfirst, ?_, ?_, ?_⟩
  · rw [references_concat]
    refine List.nodup_append.mpr ⟨haccounts.nodup, hnumbers ▸ hclaims.nodup, ?_⟩
    rintro number hold _ hchild rfl
    exact (hnew number hchild).2 hold
  · rw [references_concat]
    refine List.forall_mem_append.mpr ⟨fun number hold => ?_, fun number hchild => ?_⟩
    · rw [get?_push_of_lt (by rw [hsize]; exact haccounts.references_lt hold)]
      exact hclaims.get?_eq_none (haccounts.claimed number hold)
    · rw [get?_push_of_lt (by rw [hsize]; exact (hnew number hchild).1)]
      obtain ⟨child, hmem, rfl⟩ := List.mem_map.mp (hnumbers ▸ hchild)
      exact hclaims.empty child hmem
  · intro number found hget
    rcases get?_push hget with ⟨rfl, rfl⟩ | hold
    · rwa [hsize]
    · exact (haccounts.unfolds (hclaims.rest hold)).append _

end Accounts

/-- A listing in which every child has one parent and stands before it, and the main function
has none. -/
structure Listing.Sound (listing : Listing) : Prop where
  childrenFirst : ChildrenFirst listing.records
  nodup : (references listing.records).Nodup
  main : listing.main ∉ references listing.records

theorem Listing.Sound.not_defect {listing : Listing} (hsound : listing.Sound) :
    ¬ listing.Defect := by
  rintro (hshared | hmissing | hclaimed)
  · exact hshared hsound.nodup
  · exact hmissing hsound.childrenFirst
  · exact hsound.main hclaimed

/-- The numbers that the records of a sound listing give. -/
theorem Listing.Sound.numbering {listing : Listing} {tree : Prototype} (hsound : listing.Sound)
    (htree : Unfolds listing.records listing.main tree) :
    Numbering listing tree fun path => (follow listing.records listing.main path).getD 0 where
  root := rfl
  record := by
    intro path chunk hchunk
    obtain ⟨reached, record, hreached, hrecord, hbody, hlength⟩ := htree hchunk
    simp only [hreached, Option.getD_some, follow_concat, Option.bind_some]
    rw [hrecord, ← hbody, ← hlength, ← children_eq_map hrecord]
  distinct := by
    intro path other chunk chunk' hchunk hchunk' heq
    obtain ⟨reached, record, hreached, -⟩ := htree hchunk
    obtain ⟨reached', record', hreached', -⟩ := htree hchunk'
    rw [hreached, hreached'] at heq
    obtain rfl : reached = reached' := heq
    exact follow_inj hsound.nodup hsound.main hreached hreached'
  child_lt := by
    intro path index child hchild
    obtain ⟨reached, record, hreached, -⟩ := htree hchild
    have hstep := hreached
    rw [follow_concat, Option.bind_eq_some_iff] at hstep
    obtain ⟨parent, hparent, hnumber⟩ := hstep
    obtain ⟨owner, howner, hmem⟩ := childNumber?_eq_some_iff.mp hnumber
    rw [hreached, hparent]
    exact hsound.childrenFirst howner reached (List.mem_of_getElem? hmem)

theorem sound_of_decode {options : Options} {data : Array UInt8} {bytecode : Bytecode}
    {last : Int} {trace : List Event} (horigin : options.origin = .luau)
    (hdecode : decode options data = .done bytecode last trace) :
    ∃ found trace', fileListing (Window.whole data) 0 = .done found last trace' ∧
      found.Sound ∧ Unfolds found.records found.main bytecode.main := by
  obtain ⟨found, trace', hlisting, table, height, haccounts, hget⟩ := exists_fileListing_of_decode
    (fun _ _ => main_mirrored Accounts .empty fun _ _ _ _ _ => Accounts.push) horigin hdecode
  refine ⟨found, trace', hlisting, ?_, haccounts.unfolds hget⟩
  refine ⟨haccounts.childrenFirst, haccounts.nodup, fun hclaimed => ?_⟩
  simp [haccounts.claimed _ hclaimed] at hget

/-- In a file that is decoded, functions are owned once and acyclically. The functions of the
tree have different numbers, the root that of the main function; each has the fields of its
record, and its children, whose numbers are less than its own, have the numbers that the record
names. A file whose listing has a defect is not decoded. -/
theorem owned_once {options : Options} (horigin : options.origin = .luau) (data : Array UInt8) :
    (∀ bytecode last trace, decode options data = .done bytecode last trace →
      ∃ found trace', fileListing (Window.whole data) 0 = .done found last trace' ∧
        ∃ number, Numbering found bytecode.main number) ∧
    ∀ found last trace, fileListing (Window.whole data) 0 = .done found last trace →
      found.Defect → ∀ bytecode last' trace',
        decode options data ≠ .done bytecode last' trace' := by
  constructor
  · intro bytecode last trace hdecode
    obtain ⟨found, trace', hfound, hsound, htree⟩ := sound_of_decode horigin hdecode
    exact ⟨found, trace', hfound, _, hsound.numbering htree⟩
  · intro found last trace hfound hdefect bytecode last' trace' hdecode
    obtain ⟨found', trace'', hfound', hsound, -⟩ := sound_of_decode horigin hdecode
    obtain ⟨rfl, -, -⟩ := Outcome.done.inj (hfound.symm.trans hfound')
    exact hsound.not_defect hdefect

/-- Four functions without fields. The main one, number 3, has the child 1, and that one has the
child 0. Number 2 has the given children. -/
def sampleOwning (owned : List UInt8) : Array UInt8 :=
  ([3, 0, 4] ++ [0, 0, 0, 0, 0, 0, 0, 0, 0, 0, 0] ++ [0, 0, 0, 0, 0, 0, 1, 0, 0, 0, 0, 0] ++
    [0, 0, 0, 0, 0, 0, UInt8.ofNat owned.length] ++ owned ++ [0, 0, 0, 0] ++
    [0, 0, 0, 0, 0, 0, 1, 1, 0, 0, 0, 0] ++ [3]).toArray

/-- A function that nobody owns does no harm, and one that has two owners does. -/
theorem owned_once_sampleOwning :
    (∃ bytecode last trace,
      decode { origin := .luau } (sampleOwning []) = .done bytecode last trace ∧
        ∃ found number, Numbering found bytecode.main number) ∧
    (∃ found last trace,
      fileListing (Window.whole (sampleOwning [0])) 0 = .done found last trace ∧ found.Defect) ∧
    ∀ bytecode last trace,
      decode { origin := .luau } (sampleOwning [0]) ≠ .done bytecode last trace := by
  have hdecode : ∃ bytecode last trace,
      decode { origin := .luau } (sampleOwning []) = .done bytecode last trace :=
    ⟨_, _, _, rfl⟩
  have hshared : ∃ found last trace,
      fileListing (Window.whole (sampleOwning [0])) 0 = .done found last trace ∧ found.Defect :=
    ⟨_, _, _, rfl, .shared (by decide)⟩
  refine ⟨?_, hshared, ?_⟩
  · obtain ⟨bytecode, last, trace, hdone⟩ := hdecode
    obtain ⟨found, -, -, numbering⟩ := (owned_once rfl _).1 bytecode last trace hdone
    exact ⟨bytecode, last, trace, hdone, found, numbering⟩
  · obtain ⟨found, last, trace, hfound, hdefect⟩ := hshared
    exact (owned_once rfl _).2 found last trace hfound hdefect

end Luau

end LuaDump
