import LuaDump.Prototype

/-! # Trees of functions

The functions of a tree by their paths and listed with the children first, and the height and
the size of a tree.
-/

namespace LuaDump

namespace Prototype

/-- What holds of a tree whenever it holds of the trees below holds of every tree. -/
theorem induct {motive : Prototype → Prop}
    (hnode : ∀ tree : Prototype, (∀ child ∈ tree.children, motive child) → motive tree)
    (tree : Prototype) : motive tree := by
  cases tree with
  | mk body children => exact hnode _ fun child _ => induct hnode child

/-- The function that is reached by going from child to child. -/
def descend (tree : Prototype) (path : List Nat) : Option Prototype :=
  path.foldlM (fun chunk index => chunk.children[index]?) tree

theorem descend_cons (tree : Prototype) (index : Nat) (path : List Nat) :
    tree.descend (index :: path) = tree.children[index]?.bind fun child => child.descend path := by
  simp [descend, List.foldlM_cons]

mutual

/-- The functions of a tree, every function after its children and the children from last
to first. -/
def postorder : Prototype → List Prototype
  | ⟨body, children⟩ => postorderAll children ++ [⟨body, children⟩]

/-- The functions of several trees, from the last tree to the first. -/
def postorderAll : List Prototype → List Prototype
  | [] => []
  | child :: rest => postorderAll rest ++ postorder child

end

theorem postorderAll_append (trees others : List Prototype) :
    postorderAll (trees ++ others) = postorderAll others ++ postorderAll trees := by
  induction trees with
  | nil => simp [postorderAll]
  | cons tree rest ih => simp [postorderAll, ih]

theorem postorderAll_eq_flatMap (trees : List Prototype) :
    postorderAll trees = trees.reverse.flatMap postorder := by
  induction trees with
  | nil => simp [postorderAll]
  | cons tree rest ih => simp [postorderAll, ih]

theorem mem_postorder_self (tree : Prototype) : tree ∈ tree.postorder := by
  cases tree
  simp [postorder]

/-- Every function of a tree is reached from its root. -/
theorem exists_descend_of_mem_postorder {tree chunk : Prototype} (hchunk : chunk ∈ tree.postorder) :
    ∃ path, tree.descend path = some chunk := by
  induction tree using induct with
  | hnode tree ih =>
      obtain ⟨body, children⟩ := tree
      rw [postorder, postorderAll_eq_flatMap, List.mem_append, List.mem_singleton,
        List.mem_flatMap] at hchunk
      rcases hchunk with ⟨child, hchild, hbelow⟩ | rfl
      · have hmem := List.mem_reverse.mp hchild
        obtain ⟨index, hindex⟩ := List.mem_iff_getElem?.mp hmem
        obtain ⟨path, hpath⟩ := ih child hmem hbelow
        exact ⟨index :: path, by rw [descend_cons, hindex, Option.bind_some, hpath]⟩
      · exact ⟨[], rfl⟩

mutual

theorem length_postorder : ∀ tree : Prototype, tree.postorder.length = tree.count
  | ⟨body, children⟩ => by
      simp [postorder, count, length_postorderAll children]

theorem length_postorderAll : ∀ trees : List Prototype,
    (postorderAll trees).length = countAll trees
  | [] => rfl
  | child :: rest => by
      simp [postorderAll, countAll, length_postorder child, length_postorderAll rest, Nat.add_comm]

end

mutual

theorem height_lt_count : ∀ tree : Prototype, tree.height < tree.count
  | ⟨body, children⟩ => by
      have hchildren := heightAll_le_countAll children
      simp only [height, count]
      omega

theorem heightAll_le_countAll : ∀ trees : List Prototype, heightAll trees ≤ countAll trees
  | [] => Nat.le_refl _
  | child :: rest => by
      have hchild := height_lt_count child
      have hrest := heightAll_le_countAll rest
      simp only [heightAll, countAll]
      omega

end

theorem heightAll_le_iff {trees : List Prototype} {bound : Nat} :
    heightAll trees ≤ bound ↔ ∀ tree ∈ trees, tree.height < bound := by
  induction trees with
  | nil => simp [heightAll]
  | cons first rest ih =>
      rw [heightAll, Nat.max_le, ih, List.forall_mem_cons]
      rfl

/-- A child is lower than a function with these children. -/
theorem height_lt_heightAll {tree : Prototype} {trees : List Prototype} (htree : tree ∈ trees) :
    tree.height < heightAll trees :=
  heightAll_le_iff.mp (Nat.le_refl _) tree htree

theorem countAll_append (trees others : List Prototype) :
    countAll (trees ++ others) = countAll trees + countAll others := by
  induction trees with
  | nil => simp [countAll]
  | cons tree rest ih => simp [countAll, ih, Nat.add_assoc]

/-- What holds of every function of a tree. -/
def Everywhere (holds : Prototype → Prop) (tree : Prototype) : Prop :=
  ∀ chunk ∈ tree.postorder, holds chunk

theorem everywhere_iff {holds : Prototype → Prop} {tree : Prototype} :
    tree.Everywhere holds ↔
      holds tree ∧ ∀ child ∈ tree.children, child.Everywhere holds := by
  cases tree
  simp only [Everywhere, postorder, postorderAll_eq_flatMap, List.mem_append, List.mem_flatMap,
    List.mem_reverse, List.mem_singleton]
  constructor
  · intro hall
    exact ⟨hall _ (.inr rfl), fun child hchild chunk hchunk =>
      hall chunk (.inl ⟨child, hchild, hchunk⟩)⟩
  · rintro ⟨hown, hchildren⟩ chunk (⟨child, hchild, hchunk⟩ | rfl)
    · exact hchildren child hchild chunk hchunk
    · exact hown

theorem Everywhere.mono {holds holds' : Prototype → Prop} {tree : Prototype}
    (htree : tree.Everywhere holds) (himp : ∀ chunk, holds chunk → holds' chunk) :
    tree.Everywhere holds' :=
  fun chunk hchunk => himp chunk (htree chunk hchunk)

theorem foldl_height_le_iff {γ : Type} {measure : γ → Nat} {items : List γ} {bound start : Nat} :
    items.foldl (fun height item => max height (measure item + 1)) start ≤ bound ↔
      start ≤ bound ∧ ∀ item ∈ items, measure item < bound := by
  induction items generalizing start with
  | nil => simp
  | cons first rest ih =>
      rw [List.foldl_cons, ih, Nat.max_le, List.forall_mem_cons, and_assoc]
      rfl

/-- Measuring trees one after the other gives the height of a function with these children. -/
theorem foldl_height {γ : Type} {tree : γ → Prototype} {measure : γ → Nat} (items : List γ)
    (start : Nat) (hitems : ∀ item ∈ items, measure item = (tree item).height) :
    items.foldl (fun height item => max height (measure item + 1)) start =
      max start (heightAll (items.map tree)) := by
  induction items generalizing start with
  | nil => simp [heightAll]
  | cons first rest ih =>
      obtain ⟨hfirst, hrest⟩ := List.forall_mem_cons.mp hitems
      rw [List.foldl_cons, ih _ hrest, hfirst, List.map_cons, heightAll, Nat.max_assoc]

end Prototype

end LuaDump
