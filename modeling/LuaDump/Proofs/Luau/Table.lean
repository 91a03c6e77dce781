import LuaDump.Proofs.Luau.Writer
import LuaDump.Proofs.Tree

/-! # The table of functions

While functions are read, the table holds those that have no parent so far. In an ordered
list of the functions of a tree every function is the child of one other function at most,
so a function finds its children in the table, and the main function is left at the end.
-/

namespace LuaDump.Luau

namespace Node

theorem prototypes_eq_map (trees : List Node) : prototypes trees = trees.map prototype := by
  induction trees with
  | nil => rfl
  | cons tree rest ih => rw [prototypes, ih, List.map_cons]

theorem prototype_eq (node : Node) :
    node.prototype =
      ⟨node.source.body node.childNumbers, node.children.map Node.prototype⟩ := by
  obtain ⟨number, source, children⟩ := node
  rw [prototype, prototypes_eq_map]
  rfl

theorem mem_nodes_self (node : Node) : node ∈ node.nodes := by
  obtain ⟨number, source, children⟩ := node
  rw [nodes]
  exact List.mem_cons_self ..

theorem mem_nodesAll {tree : Node} {trees : List Node} (htree : tree ∈ trees) :
    tree ∈ nodesAll trees := by
  induction trees with
  | nil => simp at htree
  | cons first rest ih =>
      rw [nodesAll]
      rcases List.mem_cons.mp htree with rfl | hrest
      · exact List.mem_append_left _ (mem_nodes_self tree)
      · exact List.mem_append_right _ (ih hrest)

mutual

theorem child_mem_nodes {node child : Node} (hchild : child ∈ node.children) :
    ∀ tree : Node, node ∈ tree.nodes → child ∈ tree.nodes
  | ⟨number, source, children⟩, hnode => by
      rw [nodes] at hnode ⊢
      rcases List.mem_cons.mp hnode with rfl | hnested
      · exact List.mem_cons_of_mem _ (mem_nodesAll hchild)
      · exact List.mem_cons_of_mem _ (child_mem_nodesAll hchild children hnested)

theorem child_mem_nodesAll {node child : Node} (hchild : child ∈ node.children) :
    ∀ trees : List Node, node ∈ nodesAll trees → child ∈ nodesAll trees
  | [], hnode => by simp [nodesAll] at hnode
  | tree :: rest, hnode => by
      rw [nodesAll] at hnode ⊢
      rcases List.mem_append.mp hnode with htree | hrest
      · exact List.mem_append_left _ (child_mem_nodes hchild tree htree)
      · exact List.mem_append_right _ (child_mem_nodesAll hchild rest hrest)

end

mutual

/-- Every function but the root is the child of one function. -/
theorem childNumbers_perm : ∀ tree : Node,
    (tree.number :: tree.nodes.flatMap childNumbers).Perm (tree.nodes.map (·.number))
  | ⟨number, source, children⟩ => by
      rw [nodes, List.flatMap_cons, List.map_cons]
      exact (childNumbers_perm_all children).cons number

theorem childNumbers_perm_all : ∀ trees : List Node,
    (trees.map (·.number) ++ (nodesAll trees).flatMap childNumbers).Perm
      ((nodesAll trees).map (·.number))
  | [] => by simp [nodesAll]
  | tree :: rest => by
      rw [nodesAll, List.flatMap_append, List.map_append, List.map_cons, List.cons_append]
      -- The roots of the other trees change places with the children inside the first tree.
      exact ((List.perm_append_comm_assoc ..).cons _).trans
        ((childNumbers_perm tree).append (childNumbers_perm_all rest))

end

mutual

theorem height_le_of_mem_nodes {node : Node} : ∀ tree : Node, node ∈ tree.nodes →
    node.prototype.height ≤ tree.prototype.height
  | ⟨number, source, children⟩, hnode => by
      rw [nodes] at hnode
      rcases List.mem_cons.mp hnode with rfl | hnested
      · exact Nat.le_refl _
      · have hlt := height_lt_of_mem_nodesAll children hnested
        rw [prototype, Prototype.height]
        exact Nat.le_of_lt hlt

theorem height_lt_of_mem_nodesAll {node : Node} : ∀ trees : List Node, node ∈ nodesAll trees →
    node.prototype.height < Prototype.heightAll (prototypes trees)
  | [], hnode => by simp [nodesAll] at hnode
  | tree :: rest, hnode => by
      rw [prototypes, Prototype.heightAll]
      rw [nodesAll] at hnode
      rcases List.mem_append.mp hnode with htree | hrest
      · have := height_le_of_mem_nodes tree htree
        omega
      · have := height_lt_of_mem_nodesAll rest hrest
        omega

end

end Node

namespace Ordered

variable {order : List Node} {main : Node} (hordered : Ordered order main)

include hordered

theorem number_of_getElem? {index : Nat} {node : Node} (hnode : order[index]? = some node) :
    node.number = index := by
  have hnumbers := congrArg (·[index]?) hordered.numbers
  have hindex : index < order.length := (List.getElem?_eq_some_iff.mp hnode).1
  simpa [hnode, List.getElem?_range hindex] using hnumbers

theorem getElem?_number {node : Node} (hnode : node ∈ order) :
    order[node.number]? = some node := by
  obtain ⟨index, hindex⟩ := List.mem_iff_getElem?.mp hnode
  rwa [hordered.number_of_getElem? hindex]

theorem perm_range :
    (main.number :: order.flatMap Node.childNumbers).Perm (List.range order.length) := by
  rw [← hordered.numbers]
  exact ((hordered.perm.flatMap_right _).cons _).trans
    (main.childNumbers_perm.trans (hordered.perm.map _).symm)

/-- No function has two parents, and the main function has none. -/
theorem nodup : (main.number :: order.flatMap Node.childNumbers).Nodup :=
  hordered.perm_range.nodup_iff.mpr List.nodup_range

variable {earlier later : List Node} {node : Node}

theorem number_eq (hsplit : order = earlier ++ node :: later) : node.number = earlier.length :=
  hordered.number_of_getElem? (by simp [hsplit])

theorem number_of_earlier (hsplit : order = earlier ++ node :: later) {index : Nat} {other : Node}
    (hother : earlier[index]? = some other) : other.number = index := by
  have hindex := (List.getElem?_eq_some_iff.mp hother).1
  exact hordered.number_of_getElem? (by rw [hsplit, List.getElem?_append_left hindex, hother])

theorem length_children_lt (hsplit : order = earlier ++ node :: later) :
    node.children.length < order.length := by
  have hlength := hordered.perm_range.length_eq
  have hchildren : node.childNumbers.length = node.children.length := List.length_map _
  have hall := congrArg (fun nodes => (nodes.flatMap Node.childNumbers).length) hsplit
  simp only [List.flatMap_append, List.flatMap_cons, List.length_append] at hall
  rw [List.length_cons, List.length_range] at hlength
  omega

/-- A child stands in the table before its parent. -/
theorem getElem?_child (hsplit : order = earlier ++ node :: later) {child : Node}
    (hchild : child ∈ node.children) : earlier[child.number]? = some child := by
  have hnode : node ∈ order := by simp [hsplit]
  have hmem : child ∈ order :=
    hordered.perm.mem_iff.mpr (Node.child_mem_nodes hchild main (hordered.perm.mem_iff.mp hnode))
  have hbefore := hordered.children node hnode child hchild
  have hget := hordered.getElem?_number hmem
  rw [hordered.number_eq hsplit] at hbefore
  rwa [hsplit, List.getElem?_append_left hbefore] at hget

theorem childNumber_lt (hsplit : order = earlier ++ node :: later) {number : Nat}
    (hnumber : number ∈ node.childNumbers) : number < earlier.length := by
  obtain ⟨child, hchild, rfl⟩ := List.mem_map.mp hnumber
  exact (List.getElem?_eq_some_iff.mp (hordered.getElem?_child hsplit hchild)).1

/-- The children of a function have distinct numbers, and no earlier function is their
parent. -/
theorem unclaimed (hsplit : order = earlier ++ node :: later) :
    node.childNumbers.Nodup ∧
      ∀ number ∈ node.childNumbers, number ∉ earlier.flatMap Node.childNumbers := by
  have hnodup := (List.nodup_cons.mp hordered.nodup).2
  rw [hsplit, List.flatMap_append, List.flatMap_cons] at hnodup
  obtain ⟨-, hrest, hdistinct⟩ := List.nodup_append.mp hnodup
  refine ⟨(List.nodup_append.mp hrest).1, fun number hnumber hclaimed => ?_⟩
  exact hdistinct number hclaimed number (List.mem_append_left _ hnumber) rfl

/-- A function has no parent as long as the functions behind it have not been read. -/
theorem number_not_mem (hsplit : order = earlier ++ node :: later) :
    node.number ∉ (earlier ++ [node]).flatMap Node.childNumbers := by
  intro hclaimed
  obtain ⟨parent, hparent, hnumber⟩ := List.mem_flatMap.mp hclaimed
  obtain ⟨child, hchild, heq⟩ := List.mem_map.mp hnumber
  obtain ⟨index, hindex⟩ := List.mem_iff_getElem?.mp hparent
  have hbound := (List.getElem?_eq_some_iff.mp hindex).1
  have hplace : order[index]? = some parent := by
    rw [hsplit, ← List.singleton_append, ← List.append_assoc, List.getElem?_append_left hbound,
      hindex]
  -- A parent stands behind its child, and no parent so far stands behind the function itself.
  have hbefore := hordered.children parent (List.mem_of_getElem? hplace) child hchild
  rw [heq, hordered.number_of_getElem? hplace, hordered.number_eq hsplit] at hbefore
  rw [List.length_append, List.length_singleton] at hbound
  omega

theorem main_mem : main ∈ order :=
  hordered.perm.mem_iff.mpr (Node.mem_nodes_self main)

end Ordered

/-- A function as the table keeps it. -/
def Entry.of (node : Node) : Entry :=
  ⟨node.prototype, node.prototype.height⟩

def Child.of (node : Node) : Child :=
  ⟨node.number, .of node⟩

/-- The table behind the given functions when those with the given numbers have a parent. -/
def tableOf (earlier : List Node) (claimed : List Nat) : Table :=
  (earlier.map fun node => if node.number ∈ claimed then none else some (Entry.of node)).toArray

section Table

variable {earlier : List Node} {claimed : List Nat}

theorem get?_tableOf {node : Node} (hnode : earlier[node.number]? = some node)
    (hfree : node.number ∉ claimed) :
    (tableOf earlier claimed).get? node.number = some (.of node) := by
  simp [tableOf, Table.get?, hnode, hfree]

theorem setIfInBounds_tableOf {number : Nat}
    (hnumbers : ∀ (index : Nat) (node : Node), earlier[index]? = some node → node.number = index) :
    (tableOf earlier claimed).setIfInBounds number none =
      tableOf earlier (claimed ++ [number]) := by
  rw [tableOf, tableOf, List.setIfInBounds_toArray]
  congr 1
  ext1 index
  rw [List.getElem?_set, List.getElem?_map, List.getElem?_map, List.length_map]
  cases hnode : earlier[index]? with
  | none =>
      have hlength := List.getElem?_eq_none_iff.mp hnode
      by_cases hindex : number = index <;> simp [hindex]
      omega
  | some node =>
      have hlength := (List.getElem?_eq_some_iff.mp hnode).1
      have hnumber := hnumbers index node hnode
      by_cases hindex : number = index
      · simp [hindex, hnumber, hlength]
      · simp [hindex, hnumber, Ne.symm hindex]

theorem push_tableOf {node : Node} (hfree : node.number ∉ claimed) :
    (tableOf earlier claimed).push (some (.of node)) = tableOf (earlier ++ [node]) claimed := by
  simp [tableOf, hfree]

theorem heightOver_of (children : List Node) :
    heightOver (children.map Child.of) = Prototype.heightAll (children.map Node.prototype) := by
  have hmeasured : ∀ child ∈ children.map Child.of,
      child.entry.height = child.entry.prototype.height := by
    intro child hchild
    obtain ⟨node, -, rfl⟩ := List.mem_map.mp hchild
    rfl
  rw [heightOver, Prototype.foldl_height _ 0 hmeasured, Nat.zero_max, List.map_map]
  rfl

end Table

end LuaDump.Luau
