import Mathlib.Data.List.Basic
import LuaDump.Listing
import LuaDump.Proofs.Depth
import LuaDump.Proofs.Tree

/-! # The walk over a tree

A walk takes the next function from a stack of pending ones and puts the children of that
function in its place. It comes to an end, and it visits a function before its children and
one child with all that is below it before the next child. A function stands at the address
that leads to it from child to child, so the walk goes through the addresses in their
lexicographic order, each with the level that is the length of the address.
-/

namespace LuaDump

namespace Prototype

/-- What the loop over pending functions visits until no function is pending. -/
inductive Walks : List (Int × Prototype) → List (Int × Prototype) → Prop
  | done : Walks [] []
  | visit {level : Int} {tree : Prototype} {rest visited : List (Int × Prototype)}
      (hrest : Walks (atLevel (level + 1) tree.children ++ rest) visited) :
      Walks ((level, tree) :: rest) ((level, tree) :: visited)

theorem walks_iff {pending visited : List (Int × Prototype)} :
    Walks pending visited ↔ visited = walkFrom pending := by
  constructor
  · intro hwalks
    induction hwalks with
    | done => rw [walkFrom]
    | visit _ ih => rw [walkFrom, ih]
  · rintro rfl
    fun_induction walkFrom pending with
    | case1 => exact .done
    | case2 level tree rest ih => exact .visit ih

theorem walkFrom_append (pending later : List (Int × Prototype)) :
    walkFrom (pending ++ later) = walkFrom pending ++ walkFrom later := by
  fun_induction walkFrom pending with
  | case1 => rfl
  | case2 level tree rest ih =>
      rw [List.cons_append, walkFrom, ← List.append_assoc, ih, List.cons_append]

theorem walkFrom_atLevel (level : Int) (trees : List Prototype) :
    walkFrom (atLevel level trees) = trees.flatMap (·.walk level) := by
  induction trees with
  | nil => rw [atLevel, walkFrom, List.flatMap_nil]
  | cons tree rest ih =>
      rw [atLevel, List.flatMap_cons, ← ih, walk, ← walkFrom_append, List.singleton_append]

/-- A walk visits the root and then walks over the children, one after the other. -/
theorem walk_eq (tree : Prototype) (level : Int) :
    tree.walk level = (level, tree) :: tree.children.flatMap (·.walk (level + 1)) := by
  rw [walk, walkFrom, List.append_nil, walkFrom_atLevel]

theorem length_walk (tree : Prototype) (level : Int) : (tree.walk level).length = tree.count := by
  induction tree using induct generalizing level with
  | hnode tree ih =>
      have hchildren : ∀ trees : List Prototype, (∀ child ∈ trees, child ∈ tree.children) →
          (trees.flatMap (·.walk (level + 1))).length = countAll trees := by
        intro trees hmem
        induction trees with
        | nil => rfl
        | cons child rest ihrest =>
            obtain ⟨hchild, hrest⟩ := List.forall_mem_cons.mp hmem
            rw [List.flatMap_cons, List.length_append, ih child hchild, ihrest hrest, countAll]
      rw [walk_eq, List.length_cons, hchildren _ fun _ => id, count_eq]

/-- The levels of a walk do not change what it visits. -/
theorem map_snd_walk (tree : Prototype) (level level' : Int) :
    (tree.walk level).map (·.2) = (tree.walk level').map (·.2) := by
  induction tree using induct generalizing level level' with
  | hnode tree ih =>
      rw [walk_eq, walk_eq, List.map_cons, List.map_cons, List.map_flatMap, List.map_flatMap]
      exact congrArg _ (List.flatMap_congr fun child hchild => ih child hchild _ _)

/-- The functions of a tree, parents first. -/
def preorder (tree : Prototype) : List Prototype :=
  (tree.walk 0).map (·.2)

theorem preorder_eq (tree : Prototype) :
    tree.preorder = tree :: tree.children.flatMap preorder := by
  rw [preorder, walk_eq, List.map_cons, List.map_flatMap]
  exact congrArg _ (List.flatMap_congr fun child _ => map_snd_walk child _ _)

section Addresses

mutual

/-- The addresses of the functions of a tree, as a recursion over the tree finds them. -/
def addresses : Prototype → List (List Nat)
  | ⟨_, children⟩ => [] :: addressesFrom 0 children

/-- The addresses below a function, from the child with the given index on. -/
def addressesFrom : (index : Nat) → List Prototype → List (List Nat)
  | _, [] => []
  | index, child :: rest => (addresses child).map (index :: ·) ++ addressesFrom (index + 1) rest

end

theorem addresses_eq (tree : Prototype) :
    tree.addresses = [] :: addressesFrom 0 tree.children := by
  cases tree
  rw [addresses]

/-- The function at an address, with its level. -/
def standing (tree : Prototype) (level : Int) (path : List Nat) : Option (Int × Prototype) :=
  (tree.descend path).map fun chunk => (level + path.length, chunk)

theorem standing_nil (tree : Prototype) (level : Int) :
    tree.standing level [] = some (level, tree) := by
  simp [standing, descend]

theorem standing_cons {tree child : Prototype} {index : Nat}
    (hchild : tree.children[index]? = some child) (level : Int) (path : List Nat) :
    tree.standing level (index :: path) = child.standing (level + 1) path := by
  have hlevel : level + ((index :: path).length : Nat) = level + 1 + path.length := by
    rw [List.length_cons]
    omega
  rw [standing, standing, descend_cons, hchild, Option.bind_some, hlevel]

/-- The walk visits the functions at the addresses. -/
theorem map_some_walk (tree : Prototype) (level : Int) :
    (tree.walk level).map some = tree.addresses.map (tree.standing level) := by
  induction tree using induct generalizing level with
  | hnode tree ih =>
      have hbelow : ∀ (trees : List Prototype) (first : Nat), tree.children.drop first = trees →
          (trees.flatMap (·.walk (level + 1))).map some =
            (addressesFrom first trees).map (tree.standing level) := by
        intro trees
        induction trees with
        | nil => intro _ _; rw [addressesFrom, List.flatMap_nil, List.map_nil, List.map_nil]
        | cons child rest ihrest =>
            intro first hdrop
            have hchild : tree.children[first]? = some child := by
              rw [← List.head?_drop, hdrop, List.head?_cons]
            have hrest : tree.children.drop (first + 1) = rest := by
              rw [← List.tail_drop, hdrop, List.tail_cons]
            rw [List.flatMap_cons, List.map_append, ih child (List.mem_of_getElem? hchild),
              ihrest (first + 1) hrest, addressesFrom, List.map_append, List.map_map]
            refine congrArg (· ++ _) (List.map_congr_left fun path _ => ?_)
            exact (standing_cons hchild level path).symm
      rw [walk_eq, addresses_eq, List.map_cons, List.map_cons, standing_nil,
        hbelow tree.children 0 List.drop_zero]

/-- The walk is at an address when the addresses are. -/
theorem getElem?_walk {tree chunk : Prototype} {rank : Nat} {path : List Nat}
    (hpath : tree.addresses[rank]? = some path) (hchunk : tree.descend path = some chunk)
    (level : Int) : (tree.walk level)[rank]? = some (level + path.length, chunk) := by
  have hplace := congrArg (·[rank]?) (map_some_walk tree level)
  rw [List.getElem?_map, List.getElem?_map, hpath, Option.map_some, standing, hchunk,
    Option.map_some, Option.map_eq_some_iff] at hplace
  obtain ⟨entry, hentry, heq⟩ := hplace
  rw [hentry, heq]

theorem mem_addressesFrom {trees : List Prototype} {first : Nat} {path : List Nat} :
    path ∈ addressesFrom first trees ↔ ∃ index child below,
      trees[index]? = some child ∧ below ∈ child.addresses ∧ path = (first + index) :: below := by
  induction trees generalizing first with
  | nil => simp [addressesFrom]
  | cons child rest ih =>
      rw [addressesFrom, List.mem_append, List.mem_map, ih]
      constructor
      · rintro (⟨below, hbelow, rfl⟩ | ⟨index, found, below, hfound, hbelow, rfl⟩)
        · exact ⟨0, child, below, rfl, hbelow, rfl⟩
        · exact ⟨index + 1, found, below, hfound, hbelow, by rw [Nat.add_right_comm]; rfl⟩
      · rintro ⟨_ | index, found, below, hfound, hbelow, rfl⟩
        · obtain rfl := Option.some.inj hfound
          exact .inl ⟨below, hbelow, rfl⟩
        · exact .inr ⟨index, found, below, hfound, hbelow, by rw [Nat.add_right_comm]; rfl⟩

theorem mem_addresses_iff {tree : Prototype} {path : List Nat} :
    path ∈ tree.addresses ↔ ∃ chunk, tree.descend path = some chunk := by
  induction tree using induct generalizing path with
  | hnode tree ih =>
      rw [addresses_eq, List.mem_cons, mem_addressesFrom]
      cases path with
      | nil => exact ⟨fun _ => ⟨tree, rfl⟩, fun _ => .inl rfl⟩
      | cons index path =>
          simp only [descend_cons, Option.bind_eq_some_iff]
          constructor
          · rintro (hnil | ⟨place, child, below, hchild, hbelow, hpath⟩)
            · exact absurd hnil (List.cons_ne_nil _ _)
            · obtain ⟨rfl, rfl⟩ := List.cons.inj hpath
              rw [Nat.zero_add]
              obtain ⟨chunk, hchunk⟩ := (ih child (List.mem_of_getElem? hchild)).mp hbelow
              exact ⟨chunk, child, hchild, hchunk⟩
          · rintro ⟨chunk, child, hchild, hchunk⟩
            have hbelow := (ih child (List.mem_of_getElem? hchild)).mpr ⟨chunk, hchunk⟩
            exact .inr ⟨index, child, path, hchild, hbelow, by rw [Nat.zero_add]⟩

/-- The addresses stand in their lexicographic order, so none of them stands there twice. -/
theorem addresses_sorted (tree : Prototype) :
    tree.addresses.Pairwise (List.Lex (· < ·)) := by
  induction tree using induct with
  | hnode tree ih =>
      have hbelow : ∀ (trees : List Prototype) (first : Nat),
          (∀ child ∈ trees, child.addresses.Pairwise (List.Lex (· < ·))) →
            (addressesFrom first trees).Pairwise (List.Lex (· < ·)) := by
        intro trees
        induction trees with
        | nil => intro _ _; exact .nil
        | cons child rest ihrest =>
            intro first hsorted
            obtain ⟨hchild, hrest⟩ := List.forall_mem_cons.mp hsorted
            rw [addressesFrom, List.pairwise_append]
            refine ⟨List.pairwise_map.mpr (hchild.imp .cons), ihrest (first + 1) hrest, ?_⟩
            intro path hpath other hother
            obtain ⟨below, -, rfl⟩ := List.mem_map.mp hpath
            obtain ⟨index, found, below', -, -, rfl⟩ := mem_addressesFrom.mp hother
            exact .rel (by omega)
      rw [addresses_eq]
      refine .cons (fun path hpath => ?_) (hbelow tree.children 0 ih)
      obtain ⟨index, child, below, -, -, rfl⟩ := mem_addressesFrom.mp hpath
      exact .nil

end Addresses

section Levels

theorem length_le_height {tree chunk : Prototype} {path : List Nat}
    (hchunk : tree.descend path = some chunk) : path.length ≤ tree.height := by
  induction path generalizing tree with
  | nil => exact Nat.zero_le _
  | cons index path ih =>
      rw [descend_cons, Option.bind_eq_some_iff] at hchunk
      obtain ⟨child, hchild, hbelow⟩ := hchunk
      have hheight := height_lt_heightAll (List.mem_of_getElem? hchild)
      have hlength := ih hbelow
      cases tree
      rw [height, List.length_cons]
      exact Nat.lt_of_le_of_lt hlength hheight

theorem exists_heightAll_eq {trees : List Prototype} (htrees : trees ≠ []) :
    ∃ tree ∈ trees, heightAll trees = tree.height + 1 := by
  induction trees with
  | nil => exact absurd rfl htrees
  | cons tree rest ih =>
      rw [heightAll]
      by_cases hbelow : heightAll rest ≤ tree.height + 1
      · exact ⟨tree, List.mem_cons_self .., Nat.max_eq_left hbelow⟩
      · have hrest : rest ≠ [] := by
          rintro rfl
          exact hbelow (Nat.zero_le _)
        obtain ⟨other, hother, hheight⟩ := ih hrest
        exact ⟨other, List.mem_cons_of_mem _ hother, by omega⟩

/-- Some function stands as deep as the tree is high. -/
theorem exists_descend_height (tree : Prototype) :
    ∃ path chunk, tree.descend path = some chunk ∧ path.length = tree.height := by
  induction tree using induct with
  | hnode tree ih =>
      obtain ⟨body, children⟩ := tree
      by_cases hchildren : children = []
      · subst hchildren
        exact ⟨[], _, rfl, rfl⟩
      · obtain ⟨child, hchild, hheight⟩ := exists_heightAll_eq hchildren
        obtain ⟨path, chunk, hchunk, hlength⟩ := ih child hchild
        obtain ⟨index, hindex⟩ := List.mem_iff_getElem?.mp hchild
        refine ⟨index :: path, chunk, ?_, ?_⟩
        · rw [descend_cons, hindex, Option.bind_some, hchunk]
        · rw [height, hheight, List.length_cons, hlength]

theorem mem_walk_iff {tree : Prototype} {level : Int} {entry : Int × Prototype} :
    entry ∈ tree.walk level ↔
      ∃ path, tree.descend path = some entry.2 ∧ entry.1 = level + path.length := by
  have hsome : entry ∈ tree.walk level ↔ some entry ∈ (tree.walk level).map some := by simp
  obtain ⟨found, chunk⟩ := entry
  rw [hsome, map_some_walk, List.mem_map]
  constructor
  · rintro ⟨path, -, hpath⟩
    obtain ⟨reached, hreached, hentry⟩ := Option.map_eq_some_iff.mp hpath
    cases hentry
    exact ⟨path, hreached, rfl⟩
  · rintro ⟨path, hchunk, hlevel⟩
    dsimp only at hchunk hlevel
    exact ⟨path, mem_addresses_iff.mpr ⟨chunk, hchunk⟩, by rw [standing, hchunk, hlevel]; rfl⟩

end Levels

end Prototype

namespace Listing

/-- What a listing has for a function: the title, the counts, and a text for each constant and
for each number, all behind four blanks for each level. The title has the rank in three digits at
least, and a question mark if there is no name. -/
def bodyLayout (rank : Nat) (level : Int) (body : Body) : List String :=
  (["--< Proto->" ++ String.ofList ((Nat.toDigits 10 rank).leftpad 3 '0') ++ " " ++
        (if body.displayName = "" then "?" else body.displayName) ++
        s!" | Line {body.lineDefined}-{body.lastLineDefined} >--",
      s!"  params: {body.numParams}, upvalues: {body.numUpvalues}" ++
        s!", stack: {body.maxStack}, vararg: " ++
        (if body.vararg.isSome then "True" else "False") ++
        s!", instructions: {body.instructions.length}"] ++
    body.constants.mapIdx (fun slot constant => s!"  [{slot}] = " ++ constant.literal) ++
    body.numConstants.mapIdx (fun slot number => s!"  #{slot} = " ++ number.text)).map
      (String.ofList (List.replicate (4 * level.toNat) ' ') ++ ·)

/-- The texts for the functions, in the order of the walk and with their places in it as ranks. -/
def blocks (tree : Prototype) : List (List String) :=
  (tree.walk 0).zipIdx.map fun ranked => bodyLayout ranked.2 ranked.1.1 ranked.1.2.body

/-- Items numbered one after the other have their places as numbers. -/
theorem numbered_eq_mapIdx {α : Type} {numbered : Nat → List α → List String}
    {line : Nat → α → String} (hnil : ∀ slot, numbered slot [] = [])
    (hcons : ∀ slot item rest,
      numbered slot (item :: rest) = line slot item :: numbered (slot + 1) rest)
    (items : List α) : numbered 0 items = items.mapIdx line := by
  have hfrom : ∀ slot, numbered slot items = items.mapIdx fun i item => line (slot + i) item := by
    induction items with
    | nil => exact hnil
    | cons item rest ih =>
        intro slot
        rw [hcons, ih, List.mapIdx_cons]
        simp only [Nat.add_zero, Nat.add_assoc, Nat.add_comm 1]
  simpa only [Nat.zero_add] using hfrom 0

theorem constantLines_eq (constants : List Constant) : constantLines 0 constants =
    constants.mapIdx fun slot constant => s!"  [{slot}] = " ++ constant.literal :=
  numbered_eq_mapIdx (fun _ => rfl) (fun _ _ _ => rfl) constants

theorem numberLines_eq (numbers : List Number) : numberLines 0 numbers =
    numbers.mapIdx fun slot number => s!"  #{slot} = " ++ number.text :=
  numbered_eq_mapIdx (fun _ => rfl) (fun _ _ _ => rfl) numbers

theorem paddedRank_eq (rank : Nat) :
    paddedRank rank = String.ofList ((Nat.toDigits 10 rank).leftpad 3 '0') := by
  have hdigits : toString rank = String.ofList (Nat.toDigits 10 rank) := rfl
  rw [paddedRank, hdigits, String.length_ofList, ← String.ofList_append, List.leftpad]

theorem titleLine_eq (rank : Nat) (body : Body) : titleLine rank body =
    "--< Proto->" ++ String.ofList ((Nat.toDigits 10 rank).leftpad 3 '0') ++ " " ++
      (if body.displayName = "" then "?" else body.displayName) ++
      s!" | Line {body.lineDefined}-{body.lastLineDefined} >--" := by
  unfold titleLine
  simp only [paddedRank_eq, String.isEmpty_iff]

theorem countsLine_eq (body : Body) : countsLine body =
    s!"  params: {body.numParams}, upvalues: {body.numUpvalues}" ++
      s!", stack: {body.maxStack}, vararg: " ++
      (if body.vararg.isSome then "True" else "False") ++
      s!", instructions: {body.instructions.length}" := by
  unfold countsLine
  simp only [String.append_assoc]

theorem map_functionLines (rank : Nat) (level : Int) (body : Body) :
    (functionLines rank body).map (indent level ++ ·) = bodyLayout rank level body := by
  unfold functionLines bodyLayout indent
  simp only [titleLine_eq, countsLine_eq, constantLines_eq, numberLines_eq, List.cons_append,
    List.nil_append]

/-- Functions are ranked in the order of the walk. -/
theorem walkLines_eq (rank : Nat) (visited : List (Int × Prototype)) :
    walkLines rank visited = ((visited.zipIdx rank).map fun ranked =>
      bodyLayout ranked.2 ranked.1.1 ranked.1.2.body).flatten := by
  induction visited generalizing rank with
  | nil => rfl
  | cons entry rest ih =>
      rw [walkLines, ih, List.zipIdx_cons, List.map_cons, List.flatten_cons, map_functionLines]

theorem render_eq (header : Header) (tree : Prototype) :
    render ⟨header, tree⟩ = String.intercalate "\n"
      (headerLine header :: (blocks tree).flatten ++ [s!"--<@ Protos: {tree.count} @>--"]) := by
  rw [render, lines, walkLines_eq, Prototype.length_walk, blocks]

/-- The rank of a function is the place of its address, and its level the length. -/
theorem getElem?_blocks {tree chunk : Prototype} {rank : Nat} {path : List Nat}
    (hpath : tree.addresses[rank]? = some path) (hchunk : tree.descend path = some chunk) :
    (blocks tree)[rank]? = some (bodyLayout rank path.length chunk.body) := by
  have hvisited := Prototype.getElem?_walk hpath hchunk 0
  rw [blocks, List.getElem?_map, List.getElem?_zipIdx, hvisited, Option.map_some, Option.map_some,
    Nat.zero_add, Int.zero_add]

end Listing

namespace Prototype

/-- A walk is a recursion over the tree, parents first. The loop ends after it has visited the
root and then walked over the children in their order. It goes through the addresses of the
functions in lexicographic order, each once, and the level of a function is the length of its
address more than that of the root. The greatest level is the height of the tree, which the
depth limit bounds when the tree is decoded. A listing ranks the functions in the order of the
walk, indents them by their levels, and ends with their number: what it has for a function stands
where the address of the function stands among the addresses. -/
theorem walk_preorder (tree : Prototype) (level : Int) :
    (∀ visited, Walks [(level, tree)] visited ↔ visited = tree.walk level) ∧
    tree.walk level = (level, tree) :: tree.children.flatMap (·.walk (level + 1)) ∧
    ((tree.walk level).map some = tree.addresses.map (tree.standing level) ∧
      tree.addresses.Pairwise (List.Lex (· < ·)) ∧
      ∀ path, path ∈ tree.addresses ↔ ∃ chunk, tree.descend path = some chunk) ∧
    ((∀ entry ∈ tree.walk 0, entry.1 ≤ tree.height) ∧
      (∃ entry ∈ tree.walk 0, entry.1 = tree.height) ∧
      ∀ options data header last trace,
        decode options data = .done ⟨header, tree⟩ last trace → tree.height ≤ options.maxDepth) ∧
    tree.addresses.length = tree.count ∧
    ∀ header : Header, ∃ blocks : List (List String),
      Listing.render ⟨header, tree⟩ = String.intercalate "\n"
        ((s!"--<@ {header.dialect.name} | format {header.formatVersion} | " ++
            (if header.bigEndian then "big" else "little") ++ " endian @>--") ::
          blocks.flatten ++ [s!"--<@ Protos: {tree.count} @>--"]) ∧
      blocks.length = tree.count ∧
      ∀ rank path chunk, tree.addresses[rank]? = some path → tree.descend path = some chunk →
        blocks[rank]? = some (Listing.bodyLayout rank path.length chunk.body) := by
  refine ⟨fun visited => walks_iff, walk_eq tree level, ?_, ⟨?_, ?_, ?_⟩, ?_,
    fun header => ⟨Listing.blocks tree, Listing.render_eq header tree, ?_, ?_⟩⟩
  · exact ⟨map_some_walk tree level, addresses_sorted tree, fun path => mem_addresses_iff⟩
  · intro entry hentry
    obtain ⟨path, hchunk, hlevel⟩ := mem_walk_iff.mp hentry
    have hlength := length_le_height hchunk
    omega
  · obtain ⟨path, chunk, hchunk, hlength⟩ := exists_descend_height tree
    exact ⟨(tree.height, chunk), mem_walk_iff.mpr ⟨path, hchunk, by simp [hlength]⟩, rfl⟩
  · exact fun options data header last trace hdecode => decode_height_le hdecode
  · have hlength := congrArg List.length (map_some_walk tree level)
    rwa [List.length_map, List.length_map, length_walk, eq_comm] at hlength
  · rw [Listing.blocks, List.length_map, List.length_zipIdx, length_walk]
  · exact fun rank path chunk hpath hchunk => Listing.getElem?_blocks hpath hchunk

/-- Two functions, of which the second is a child of the first and is listed behind four
blanks. -/
theorem walk_preorder_nestedSample : ∃ header tree last trace, ∃ blocks : List (List String),
    decode { maxDepth := 1 } nestedSample = .done ⟨header, tree⟩ last trace ∧
      tree.addresses = [[], [0]] ∧ tree.height ≤ 1 ∧
      (tree.walk 0).map some = [[], [0]].map (tree.standing 0) ∧
      Listing.render ⟨header, tree⟩ = String.intercalate "\n"
        ("--<@ LUAJ2 | format 0 | little endian @>--" :: blocks.flatten ++
          ["--<@ Protos: 2 @>--"]) ∧
      blocks[0]?.bind List.head? = some "--< Proto->000 ? | Line 0-0 >--" ∧
      blocks[1]?.bind List.head? = some "    --< Proto->001 ? | Line 0-0 >--" := by
  obtain ⟨header, tree, child, last, trace, hdecode, hheading, haddresses, hcount, hchild, htitle,
      htitle'⟩ : ∃ (header : Header) (tree child : Prototype) (last : Int) (trace : List Event),
        decode { maxDepth := 1 } nestedSample = .done ⟨header, tree⟩ last trace ∧
          Listing.headerLine header = "--<@ LUAJ2 | format 0 | little endian @>--" ∧
          tree.addresses = [[], [0]] ∧ tree.count = 2 ∧ tree.descend [0] = some child ∧
          (Listing.bodyLayout 0 0 tree.body).head? = some "--< Proto->000 ? | Line 0-0 >--" ∧
          (Listing.bodyLayout 1 1 child.body).head? =
            some "    --< Proto->001 ? | Line 0-0 >--" :=
    ⟨_, _, _, _, _, rfl, rfl, rfl, rfl, rfl, rfl, rfl⟩
  obtain ⟨-, -, ⟨hvisited, -⟩, ⟨-, -, hbound⟩, -, hlisting⟩ := walk_preorder tree 0
  obtain ⟨blocks, hrender, -, hblock⟩ := hlisting header
  rw [haddresses] at hvisited hblock
  rw [← Listing.headerLine, hheading, hcount] at hrender
  have hheight := hbound _ _ _ _ _ hdecode
  dsimp only at hheight
  have hfirst := hblock 0 [] tree rfl rfl
  have hsecond := hblock 1 [0] child rfl hchild
  refine ⟨header, tree, last, trace, blocks, hdecode, haddresses, by omega, hvisited, hrender, ?_,
    ?_⟩
  · rw [hfirst, Option.bind_some]
    exact htitle
  · rw [hsecond, Option.bind_some]
    exact htitle'

end Prototype

end LuaDump
