import Mathlib.Algebra.Order.Ring.Int
import LuaDump.Proofs.Literal.Printable
import LuaDump.Proofs.Walk

/-! # The lines of a listing

A listing is put together from texts that are meant as its lines. All of them are printable but
the titles, which hold the names of the functions as they are. So the lines are the texts as long
as no name has a line feed, and each line feed of a name adds a line.
-/

namespace LuaDump

namespace Utf8

theorem ofNat_ne_newline {n : Nat} (hn : 128 ≤ n) : Char.ofNat n ≠ '\n' := by
  intro hnewline
  rcases toNat_ofNat_or n with hcode | hzero
  · rw [hnewline] at hcode
    have hten : '\n'.toNat = 10 := rfl
    omega
  · rw [hnewline] at hzero
    exact absurd hzero (by decide)

theorem ofNat_eq_newline_iff {b : UInt8} (hb : b.toNat < 128) :
    Char.ofNat b.toNat = '\n' ↔ b = 10 := by
  constructor
  · intro hnewline
    have hcode := Literal.toNat_ofNat_toNat b
    rw [hnewline] at hcode
    exact UInt8.toNat_inj.mp hcode.symm
  · rintro rfl
    rfl

theorem ne_newline_of_le {b : UInt8} (hb : 128 ≤ b.toNat) : b ≠ 10 := by
  rintro rfl
  exact absurd hb (by decide)

/-- Reading keeps each line feed and makes none. -/
theorem count_newline_decodeLossy (bytes : Bytes) :
    (decodeLossy bytes).toList.count '\n' = bytes.count 10 := by
  rw [decodeLossy, String.toList_ofList]
  -- The induction is on the length, since a unit can take several bytes.
  induction hlength : bytes.length using Nat.strongRecOn generalizing bytes with
  | ind length ih =>
      cases bytes with
      | nil => rw [units, List.map_nil, List.count_nil, List.count_nil]
      | cons b rest =>
          by_cases hb : b.toNat < 128
          · have hrest := ih rest.length (by simp [← hlength]) rest rfl
            rw [units_cons_of_lt hb, List.map_cons, List.count_cons, List.count_cons, hrest]
            simp [ofNat_eq_newline_iff hb]
          · have hb := Nat.le_of_not_lt hb
            obtain ⟨unit, skipped, later, heq, rfl, hskipped, hunit⟩ := wideFirst_units hb rest
            have hshorter : later.length < length := by
              rw [← hlength, List.length_cons, List.length_append]
              omega
            have hlater := ih later.length hshorter later rfl
            have hfirst : unit.getD replacement ≠ '\n' := by
              cases unit with
              | none => decide
              | some c =>
                  obtain ⟨n, hn, rfl⟩ := hunit c rfl
                  exact ofNat_ne_newline hn
            have hnone : skipped.count 10 = 0 :=
              List.count_eq_zero.mpr fun hmem => ne_newline_of_le (hskipped 10 hmem) rfl
            rw [heq, List.map_cons, List.count_cons_of_ne hfirst, hlater,
              List.count_cons_of_ne (ne_newline_of_le hb), List.count_append, hnone, Nat.zero_add]

end Utf8

namespace Listing

section Breaks

/-- The lines of a text: what stands before, between and behind its line feeds. -/
def linesOf (text : String) : List String :=
  (text.toList.splitOn '\n').map String.ofList

/-- The number of line feeds in texts. -/
def breaks (texts : List String) : Nat :=
  (texts.flatMap String.toList).count '\n'

variable {texts : List String}

@[simp]
theorem breaks_nil : breaks [] = 0 :=
  rfl

@[simp]
theorem breaks_cons (text : String) (texts : List String) :
    breaks (text :: texts) = text.toList.count '\n' + breaks texts := by
  rw [breaks, List.flatMap_cons, List.count_append, breaks]

@[simp]
theorem breaks_append (texts more : List String) :
    breaks (texts ++ more) = breaks texts + breaks more := by
  rw [breaks, List.flatMap_append, List.count_append, breaks, breaks]

theorem count_newline_eq_zero {text : String} (htext : Printable text) :
    text.toList.count '\n' = 0 :=
  List.count_eq_zero.mpr fun hmem => absurd (htext _ hmem) (by decide)

theorem breaks_eq_zero (htexts : ∀ text ∈ texts, Printable text) : breaks texts = 0 := by
  refine List.count_eq_zero.mpr fun hmem => ?_
  obtain ⟨text, htext, hnewline⟩ := List.mem_flatMap.mp hmem
  exact List.count_eq_zero.mp (count_newline_eq_zero (htexts text htext)) hnewline

theorem count_newline_intercalate (hne : texts ≠ []) :
    (String.intercalate "\n" texts).toList.count '\n' + 1 = breaks texts + texts.length := by
  induction texts with
  | nil => exact absurd rfl hne
  | cons text rest ih =>
      cases rest with
      | nil => simp
      | cons next rest =>
          have hrest := ih (List.cons_ne_nil _ _)
          rw [String.intercalate_cons_cons, breaks_cons, List.length_cons]
          simp only [String.toList_append, List.count_append]
          have hone : "\n".toList.count '\n' = 1 := by decide
          omega

theorem length_splitOn {α : Type} [BEq α] (a : α) (l : List α) :
    (l.splitOn a).length = l.count a + 1 := by
  induction l with
  | nil => rfl
  | cons b l ih =>
      rw [List.splitOn, List.splitOnP_cons_eq_if_modifyHead, List.count_cons]
      by_cases hb : b == a
      · rw [if_pos hb, if_pos hb, List.length_cons, ← List.splitOn, ih]
      · rw [if_neg hb, if_neg hb, List.length_modifyHead, ← List.splitOn, ih]

theorem length_linesOf_intercalate (hne : texts ≠ []) :
    (linesOf (String.intercalate "\n" texts)).length = texts.length + breaks texts := by
  rw [linesOf, List.length_map, length_splitOn, count_newline_intercalate hne, Nat.add_comm]

theorem linesOf_intercalate (hne : texts ≠ []) (hbreaks : breaks texts = 0) :
    linesOf (String.intercalate "\n" texts) = texts := by
  have hfree : ∀ chars ∈ texts.map String.toList, '\n' ∉ chars := by
    intro chars hchars hmem
    obtain ⟨text, htext, rfl⟩ := List.mem_map.mp hchars
    exact List.count_eq_zero.mp hbreaks (List.mem_flatMap.mpr ⟨text, htext, hmem⟩)
  have hfeed : "\n".toList = ['\n'] := by decide
  rw [linesOf, String.toList_intercalate, hfeed,
    List.splitOn_intercalate '\n' hfree (by simpa using hne), List.map_map]
  simp [Function.comp_def]

end Breaks

section Layout

/-- What a listing is put together from: a text for the header, those for each function in the
order of the walk, and one for the number of functions. -/
def layout (bytecode : Bytecode) : List String :=
  headerLine bytecode.header :: (blocks bytecode.main).flatten ++
    [s!"--<@ Protos: {bytecode.main.count} @>--"]

theorem render_eq_layout (bytecode : Bytecode) :
    render bytecode = String.intercalate "\n" (layout bytecode) :=
  render_eq bytecode.header bytecode.main

theorem length_bodyLayout (rank : Nat) (level : Int) (body : Body) :
    (bodyLayout rank level body).length =
      2 + body.constants.length + body.numConstants.length := by
  unfold bodyLayout
  simp only [List.length_map, List.length_append, List.length_mapIdx, List.length_cons,
    List.length_nil]

theorem length_layout (bytecode : Bytecode) : (layout bytecode).length =
    2 + ((bytecode.main.walk 0).map fun entry =>
      2 + entry.2.body.constants.length + entry.2.body.numConstants.length).sum := by
  have hfunctions : (bytecode.main.walk 0).zipIdx.map (fun ranked =>
        2 + ranked.1.2.body.constants.length + ranked.1.2.body.numConstants.length) =
      (bytecode.main.walk 0).map fun entry =>
        2 + entry.2.body.constants.length + entry.2.body.numConstants.length := by
    conv_rhs => rw [← List.zipIdx_map_fst 0 (bytecode.main.walk 0), List.map_map]
    rfl
  rw [layout, blocks, List.length_append, List.length_cons, ← List.flatMap_def,
    List.length_flatMap]
  simp only [length_bodyLayout, hfunctions, List.length_singleton]
  omega

end Layout

section Printing

theorem printable_indent (level : Int) : Printable (indent level) := by
  rw [indent, printable_ofList]
  intro c hc
  rw [List.eq_of_mem_replicate hc]
  decide

theorem printable_paddedRank (rank : Nat) : Printable (paddedRank rank) := by
  rw [paddedRank, printable_append, printable_ofList]
  exact ⟨Decimal.isPrintable_of_mem_zeros, printable_repr_nat rank⟩

theorem printable_headerLine (header : Header) : Printable (headerLine header) := by
  have hname : Printable header.dialect.name := by
    cases header.dialect <;> decide
  have hend : Printable (if header.bigEndian then "big" else "little") :=
    printable_ite (by decide) (by decide)
  unfold headerLine
  simp +decide [hname, hend]

theorem printable_countsLine (body : Body) : Printable (countsLine body) := by
  have hvararg : Printable (if body.vararg.isSome then "True" else "False") :=
    printable_ite (by decide) (by decide)
  unfold countsLine
  simp +decide [hvararg]

/-- A title has the line feeds of the name. -/
theorem count_newline_titleLine (rank : Nat) (body : Body) :
    (titleLine rank body).toList.count '\n' = body.name.count 10 := by
  have hname : (if body.displayName.isEmpty then "?" else body.displayName).toList.count '\n' =
      body.name.count 10 := by
    rw [← Utf8.count_newline_decodeLossy, ← Body.displayName]
    split
    next hempty =>
      rw [String.isEmpty_iff.mp hempty]
      decide
    next => rfl
  have hbefore : Printable ("--< Proto->" ++ paddedRank rank ++ " ") := by
    simp +decide [printable_paddedRank]
  have hafter : Printable s!" | Line {body.lineDefined}-{body.lastLineDefined} >--" := by
    simp +decide
  unfold titleLine
  rw [String.toList_append, String.toList_append, List.count_append, List.count_append,
    hname, count_newline_eq_zero hbefore, count_newline_eq_zero hafter, Nat.zero_add, Nat.add_zero]

theorem printable_constantText (slot : Nat) (constant : Constant) :
    Printable (s!"  [{slot}] = " ++ constant.literal) := by
  simp +decide [constant.printable_literal]

theorem printable_numberText (slot : Nat) (number : Number) :
    Printable (s!"  #{slot} = " ++ number.text) := by
  simp +decide [number.printable_text]

/-- Only the title of a function can have line feeds. -/
theorem breaks_bodyLayout (rank : Nat) (level : Int) (body : Body) :
    breaks (bodyLayout rank level body) = body.name.count 10 := by
  have hindent := printable_indent level
  have hrest : ∀ text ∈ countsLine body ::
      (body.constants.mapIdx (fun slot constant => s!"  [{slot}] = " ++ constant.literal) ++
        body.numConstants.mapIdx (fun slot number => s!"  #{slot} = " ++ number.text)),
      Printable (indent level ++ text) := by
    intro text htext
    refine printable_append.mpr ⟨hindent, ?_⟩
    rcases List.mem_cons.mp htext with rfl | htext
    · exact printable_countsLine body
    · rcases List.mem_append.mp htext with hconstant | hnumber
      · obtain ⟨slot, _, rfl⟩ := List.mem_mapIdx.mp hconstant
        exact printable_constantText slot _
      · obtain ⟨slot, _, rfl⟩ := List.mem_mapIdx.mp hnumber
        exact printable_numberText slot _
  rw [← map_functionLines, functionLines, constantLines_eq, numberLines_eq, List.map_cons,
    breaks_cons, breaks_eq_zero (List.forall_mem_map.mpr hrest), Nat.add_zero,
    String.toList_append, List.count_append, count_newline_eq_zero hindent, Nat.zero_add,
    count_newline_titleLine]

theorem breaks_layout (bytecode : Bytecode) :
    breaks (layout bytecode) = ((bytecode.main.walk 0).flatMap (·.2.body.name)).count 10 := by
  have hvisited : ∀ (visited : List (Int × Prototype)) (rank : Nat),
      breaks ((visited.zipIdx rank).map
        fun ranked => bodyLayout ranked.2 ranked.1.1 ranked.1.2.body).flatten =
      (visited.flatMap (·.2.body.name)).count 10 := by
    intro visited
    induction visited with
    | nil => exact fun _ => rfl
    | cons entry rest ih =>
        intro rank
        rw [List.zipIdx_cons, List.map_cons, List.flatten_cons, breaks_append, breaks_bodyLayout,
          ih, List.flatMap_cons, List.count_append]
  have hlast : Printable s!"--<@ Protos: {bytecode.main.count} @>--" := by
    simp +decide
  rw [layout, blocks, breaks_append, breaks_cons, count_newline_eq_zero (printable_headerLine _),
    hvisited, Nat.zero_add, breaks_cons, count_newline_eq_zero hlast, breaks_nil, Nat.add_zero]

end Printing

theorem layout_ne_nil (bytecode : Bytecode) : layout bytecode ≠ [] :=
  List.cons_ne_nil _ _

theorem length_linesOf_render (bytecode : Bytecode) :
    (linesOf (render bytecode)).length = (layout bytecode).length +
      ((bytecode.main.walk 0).flatMap (·.2.body.name)).count 10 := by
  rw [render_eq_layout, length_linesOf_intercalate (layout_ne_nil bytecode), breaks_layout]

/-- The lines of a listing are a line for the header, for each function in the order of the walk
its title, its counts and a line for each constant and each number, and a line for the number of
functions, exactly if no name has a line feed. Each line feed of a name adds a line, so the number
of the lines alone tells whether there is one. -/
theorem render_lines (bytecode : Bytecode) :
    (layout bytecode).length = 2 + ((bytecode.main.walk 0).map fun entry =>
      2 + entry.2.body.constants.length + entry.2.body.numConstants.length).sum ∧
    (linesOf (render bytecode)).length = (layout bytecode).length +
      ((bytecode.main.walk 0).flatMap (·.2.body.name)).count 10 ∧
    (linesOf (render bytecode) = layout bytecode ↔
      ∀ entry ∈ bytecode.main.walk 0, 10 ∉ entry.2.body.name) ∧
    ((linesOf (render bytecode)).length = 2 + ((bytecode.main.walk 0).map fun entry =>
        2 + entry.2.body.constants.length + entry.2.body.numConstants.length).sum ↔
      ∀ entry ∈ bytecode.main.walk 0, 10 ∉ entry.2.body.name) := by
  have hlength := length_linesOf_render bytecode
  have hfree : ((bytecode.main.walk 0).flatMap (·.2.body.name)).count 10 = 0 ↔
      ∀ entry ∈ bytecode.main.walk 0, 10 ∉ entry.2.body.name := by
    rw [List.count_eq_zero, List.mem_flatMap]
    simp only [not_exists, not_and]
  refine ⟨length_layout bytecode, hlength, ⟨fun heq => ?_, fun hnames => ?_⟩, ?_⟩
  · rw [heq] at hlength
    exact hfree.mp (by omega)
  · rw [render_eq_layout]
    exact linesOf_intercalate (layout_ne_nil bytecode)
      ((breaks_layout bytecode).trans (hfree.mpr hnames))
  · rw [← length_layout, hlength, ← hfree]
    omega

/-- A dump of one function with a line feed as its only constant. The name of the function is `a`
and `b` with the given byte between them. -/
def titledSample (separator : UInt8) : Array UInt8 :=
  #[0x1B, 0x4C, 0x75, 0x61, 0x51, 0, 1, 1, 1, 1, 8, 0, 4, 0x61, separator, 0x62, 0, 0, 0, 0, 0, 0,
    0, 0, 1, 4, 2, 10, 0, 0, 0, 0, 0]

theorem decode_titledSample {separator : UInt8} (hseparator : separator = 10 ∨ separator = 46) :
    ∃ header body trace, decode {} (titledSample separator) = .done ⟨header, ⟨body, []⟩⟩ 33 trace ∧
      body.name = [0x61, separator, 0x62] ∧ body.constants = [.string [10]] ∧
        body.numConstants = [] := by
  rcases hseparator with rfl | rfl
  · exact ⟨_, _, _, rfl, rfl, rfl, rfl⟩
  · exact ⟨_, _, _, rfl, rfl, rfl, rfl⟩

theorem walk_childless (body : Body) (level : Int) :
    (⟨body, []⟩ : Prototype).walk level = [(level, ⟨body, []⟩)] := by
  rw [Prototype.walk_eq, List.flatMap_nil]

/-- With a point in the name there are five lines, one of them for the constant. -/
theorem render_lines_titledSample : ∃ bytecode trace,
    decode {} (titledSample 46) = .done bytecode 33 trace ∧
      linesOf (render bytecode) = layout bytecode ∧ (linesOf (render bytecode)).length = 5 := by
  obtain ⟨header, body, trace, hdecode, hname, hconstants, hnumbers⟩ :=
    decode_titledSample (.inr rfl)
  obtain ⟨hlength, -, hlines, -⟩ := render_lines ⟨header, ⟨body, []⟩⟩
  have hmeant := hlines.mpr (by simp [walk_childless, hname])
  refine ⟨_, trace, hdecode, hmeant, ?_⟩
  rw [hmeant, hlength]
  simp [walk_childless, hconstants, hnumbers]

/-- With a line feed in the name the title takes two lines. -/
theorem not_forall_unbroken : ¬ ∀ (options : Options) (data : Array UInt8) (bytecode : Bytecode)
    (last : Int) (trace : List Event), decode options data = .done bytecode last trace →
      (linesOf (render bytecode)).length = 2 + ((bytecode.main.walk 0).map fun entry =>
        2 + entry.2.body.constants.length + entry.2.body.numConstants.length).sum := by
  intro hunbroken
  obtain ⟨header, body, trace, hdecode, hname, -, -⟩ := decode_titledSample (.inl rfl)
  have hlength := hunbroken _ _ _ _ _ hdecode
  rw [length_linesOf_render, length_layout] at hlength
  simp [walk_childless, hname] at hlength

end Listing

end LuaDump
