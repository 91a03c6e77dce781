import LuaDump.Proofs.Jit.Fields
import LuaDump.Proofs.Reading.File

/-! # LuaJIT dumps are read back

A record completes its function with children from the stack, so the records of a tree leave
the tree on the stack, and a written file is decoded to its header and its tree.
-/

namespace LuaDump.Jit

open Decoder

section Tree

variable {h : Header} {w : Window} {maxDepth : Int}

/-- A tree on the stack. -/
def Completed.of (tree : Prototype) : Completed :=
  ⟨tree, tree.height⟩

theorem measured_of (stack : List Prototype) : Measured (stack.map Completed.of) := by
  intro completed hcompleted
  obtain ⟨tree, -, rfl⟩ := List.mem_map.mp hcompleted
  rfl

/-- A function whose children are on top of the stack takes exactly these. -/
theorem complete?_of_children {body : Body} {children : List Prototype}
    (hchildren : RefersToChildren ⟨body, children⟩) (stack : List Completed) :
    complete? body (children.map Completed.of ++ stack) =
      some (Completed.of ⟨body, children⟩, stack) := by
  have hcount : childCount body = (children.map Completed.of).length := by
    have hlength := congrArg List.length hchildren
    rwa [length_countdown, ← List.length_map (f := Completed.of)] at hlength
  refine complete?_eq_some_iff.mpr ⟨by simp [hcount], ?_, by rw [hcount, List.drop_left]⟩
  have htrees : trees (children.map Completed.of) = children := by
    rw [trees, List.map_map]
    exact List.map_id children
  rw [hcount, List.take_left, Completed.over, heightOver_eq (measured_of children), ← trees, htrees]
  simp [Completed.of, Prototype.height]

/-- The record of a function whose children are on top of the stack puts it in their place,
without a name. -/
theorem recordStep_of_holds (hw : w.Sound) {body : Body} {children : List Prototype}
    (hbody : Recordable h body) (hchildren : RefersToChildren ⟨body, children⟩) {pos : Int}
    (hholds : w.Holds pos (recordBytes h body))
    (hdepth : (Prototype.heightAll children : Int) ≤ maxDepth) (index : Nat)
    (stack : List Completed) :
    ∃ trace, recordStep h maxDepth (index, children.map Completed.of ++ stack) w pos =
      .done (.inl (index + 1, Completed.of ⟨{ body with name := [] }, children⟩ :: stack))
        (pos + (recordBytes h body).length) trace := by
  -- Only the constants tell how many children a function has.
  have hunnamed : RefersToChildren ⟨{ body with name := [] }, children⟩ := hchildren
  have hcomplete := complete?_of_children hunnamed stack
  obtain ⟨-, hover, -⟩ := complete?_eq_some_iff.mp hcomplete
  have hheight : Prototype.heightAll children =
      heightOver ((children.map Completed.of ++ stack).take (childCount body)) :=
    congrArg Completed.height hover
  have hnumbers : NumbersChildren body := by
    rw [NumbersChildren, childCount, hchildren, length_countdown]
  obtain ⟨trace, hserves⟩ := record_serves_of_holds h hbody hnumbers hw hholds (hheight ▸ hdepth)
  rw [hcomplete] at hserves
  exact ⟨trace, recordStep_serves index hserves⟩

/-- A function without a name that a record can hold, over the children it refers to. -/
structure Plain (h : Header) (chunk : Prototype) : Prop where
  record : Recordable h chunk.body
  children : RefersToChildren chunk
  name : chunk.body.name = []

theorem recordsBytes_postorder (h : Header) (body : Body) (children : List Prototype) :
    recordsBytes h (Prototype.postorder ⟨body, children⟩) =
      recordsBytes h (Prototype.postorderAll children) ++ recordBytes h body := by
  simp [recordsBytes, Prototype.postorder]

theorem recordsBytes_postorderAll (h : Header) (child : Prototype) (rest : List Prototype) :
    recordsBytes h (Prototype.postorderAll (child :: rest)) =
      recordsBytes h (Prototype.postorderAll rest) ++ recordsBytes h child.postorder := by
  simp [recordsBytes, Prototype.postorderAll]

mutual

/-- The records of a tree put the tree on the stack. -/
theorem visits_tree (hw : w.Sound) : ∀ (tree : Prototype) {pos : Int} (index : Nat)
    (stack : List Completed), (∀ chunk ∈ tree.postorder, Plain h chunk) →
    (tree.height : Int) ≤ maxDepth → w.Holds pos (recordsBytes h tree.postorder) →
    ∃ index', Visits (recordStep h maxDepth) w (index, stack) pos
      (index', Completed.of tree :: stack) (pos + (recordsBytes h tree.postorder).length)
  | ⟨body, children⟩, pos, index, stack, hchunks, hdepth, hholds => by
      rw [Prototype.postorder, List.forall_mem_append, List.forall_mem_singleton] at hchunks
      rw [Prototype.height] at hdepth
      rw [recordsBytes_postorder] at hholds ⊢
      obtain ⟨index', hvisits⟩ := visits_trees hw children index stack hchunks.1 hdepth hholds.left
      obtain ⟨hbody, hchildren, hname⟩ := hchunks.2
      obtain ⟨trace, hstep⟩ :=
        recordStep_of_holds hw hbody hchildren hholds.right hdepth index' stack
      have hkept : { body with name := [] } = body := by rw [← hname]
      rw [hkept] at hstep
      rw [List.length_append, Int.natCast_add, ← Int.add_assoc]
      exact ⟨index' + 1, hvisits.step hstep⟩

/-- The records of several trees put them on the stack, the first one on top. -/
theorem visits_trees (hw : w.Sound) : ∀ (children : List Prototype) {pos : Int} (index : Nat)
    (stack : List Completed), (∀ chunk ∈ Prototype.postorderAll children, Plain h chunk) →
    (Prototype.heightAll children : Int) ≤ maxDepth →
    w.Holds pos (recordsBytes h (Prototype.postorderAll children)) →
    ∃ index', Visits (recordStep h maxDepth) w (index, stack) pos
      (index', children.map Completed.of ++ stack)
      (pos + (recordsBytes h (Prototype.postorderAll children)).length)
  | [], pos, index, stack, _, _, _ => by
      refine ⟨index, ?_⟩
      simpa [recordsBytes, Prototype.postorderAll] using Visits.start
  | child :: rest, pos, index, stack, hchunks, hdepth, hholds => by
      rw [Prototype.postorderAll, List.forall_mem_append] at hchunks
      rw [Prototype.heightAll] at hdepth
      rw [recordsBytes_postorderAll] at hholds ⊢
      -- The last child comes first in the file, so it lies below the others.
      obtain ⟨index', hrest⟩ :=
        visits_trees hw rest index stack hchunks.1 (by omega) hholds.left
      obtain ⟨index'', hchild⟩ :=
        visits_tree hw child index' (rest.map Completed.of ++ stack) hchunks.2 (by omega)
          hholds.right
      rw [List.length_append, Int.natCast_add, ← Int.add_assoc]
      exact ⟨index'', hrest.trans hchild⟩

end

theorem reads_chunkName {name : Bytes} (hname : h.stripped = true → name = [])
    (hsize : name.length < 2 ^ 32) : (chunkName h).Reads (chunkNameBytes h name) name := by
  unfold chunkName chunkNameBytes
  split
  next hstripped =>
    rw [hname hstripped]
    exact .pure []
  next => exact ((reads_varint hsize).bind (reads_take rfl)).named _

/-- The records of a representable tree are read as the tree. -/
theorem reads_main {tree : Prototype} (htree : Representable h tree)
    (hdepth : (tree.height : Int) ≤ maxDepth) :
    (main h maxDepth).Reads (chunkNameBytes h tree.body.name ++
      (recordsBytes h tree.postorder ++ Bytes.lowGroups 0)) tree := by
  intro w pos hw hholds
  obtain ⟨body, children⟩ := tree
  have hrecords := htree.records
  have hrefers := htree.children
  rw [Prototype.postorder, List.forall_mem_append, List.forall_mem_singleton] at hrecords hrefers
  have hplain : ∀ chunk ∈ Prototype.postorderAll children, Plain h chunk := fun chunk hchunk =>
    ⟨hrecords.1 chunk hchunk, hrefers.1 chunk hchunk, htree.names chunk hchunk⟩
  rw [Prototype.height] at hdepth
  rw [recordsBytes_postorder, List.append_assoc] at hholds
  obtain ⟨nameTrace, hname⟩ := reads_chunkName htree.name.1 htree.name.2 w pos hw hholds.left
  have hchildren := hholds.right
  have hroot := hchildren.right
  have hend := hroot.right
  -- The root is the last record and the only one with a name, which it gets afterwards.
  obtain ⟨index, hvisits⟩ := visits_trees hw children 0 [] hplain hdepth hchildren.left
  obtain ⟨trace, hstep⟩ := recordStep_of_holds hw hrecords.2 hrefers.2 hroot.left hdepth index []
  obtain ⟨endTrace, hzero⟩ := reads_varint (by decide : 0 < 2 ^ 32) w _ hw hend
  have hvisits := hvisits.step hstep
  obtain ⟨hle, hstop, loopTrace, heq⟩ := hvisits.iterate_eq (settles_recordStep h maxDepth) hw
    hchildren.nonneg (by have := hchildren.inside; omega)
  have hends : EndsAt w _ _ := ⟨endTrace, hzero⟩
  obtain ⟨lastTrace, hlast⟩ := iterate_of_endsAt hw hend.nonneg hstop hends (index + 1) _
  rw [hlast] at heq
  have hlength : pos + ((chunkNameBytes h body.name ++
      (recordsBytes h (Prototype.postorder ⟨body, children⟩) ++ Bytes.lowGroups 0)).length : Int) =
      pos + (chunkNameBytes h body.name).length +
        (recordsBytes h (Prototype.postorderAll children)).length +
        (recordBytes h body).length + (Bytes.lowGroups 0).length := by
    rw [recordsBytes_postorder]
    simp only [List.length_append]
    omega
  exact ⟨_, hlength ▸ main_of_sole hname heq⟩

end Tree

/-- A written header is recognized and read back. -/
theorem reads_header {version : UInt8} (hversion : version = 1 ∨ version = 2) (flags : UInt8) :
    Header.sniff.Reads (Header.luaJitSignature ++ [version, flags]) (headerOf version flags) := by
  have hrest : ∀ dialect, (Header.restJit dialect).Reads [flags]
      { headerOf version flags with dialect } := fun dialect => (reads_nextByte flags).map
  have hafter : Header.afterLuaJit.Reads [version, flags] (headerOf version flags) := by
    refine .position_bind fun offset => ?_
    rcases hversion with rfl | rfl
    · exact (reads_nextByte 1).bind (hrest .luaJit1)
    · exact (reads_nextByte 2).bind (hrest .luaJit2)
  refine Reads.bind_nil (.named "header" ?_) (.emit_bind (.pure _))
  have hdiffers : (Header.luaJitSignature ++ [version, flags]).take 4 ≠ Header.luaSignature := by
    simp [Header.luaSignature, Header.luaJitSignature]
  refine Header.reads_matchSignature_bind (Nat.le_succ 4) hdiffers ?_
  exact (Header.reads_matchSignature Header.luaJitSignature).bind hafter

end LuaDump.Jit
