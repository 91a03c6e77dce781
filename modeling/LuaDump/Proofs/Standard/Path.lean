import LuaDump.Proofs.Standard.Labels

/-! # The path to a failure

The context of a failure in a standard dump spells the way from the main function down to the
function that was being read: for every level the labels of a function, of its list of nested
functions and of the one that is entered, by its index.
-/

namespace LuaDump

open Decoder

namespace Decoder

variable {α β : Type} {w : Window} {pos : Int}

/-- A label on a sequence is a label on each of its parts. -/
theorem within_bind (label : Label) (d : Decoder α) (next : α → Decoder β) :
    within label (d >>= next) = within label d >>= fun value => within label (next value) := by
  funext w pos
  simp only [within, bind_apply]
  cases d w pos with
  | failed failure last trace => rfl
  | done value last trace =>
      dsimp only
      cases next value w last <;> rfl

theorem named_bind (name : String) (d : Decoder α) (next : α → Decoder β) :
    named name (d >>= next) = named name d >>= fun value => named name (next value) :=
  within_bind _ d next

theorem named_pure (name : String) (value : α) :
    named name (pure value : Decoder α) = pure value :=
  rfl

/-- Items fail with the first one that does, and those before it are read. -/
theorem collect_eq_failed {item : Nat → Decoder α} {count index : Nat} {failure : Failure}
    {last : Int} {trace : List Event}
    (hfailed : collect item count index w pos = .failed failure last trace) :
    ∃ (earlier : List α) (mid : Int) (first second : List Event), earlier.length < count ∧
      collect item earlier.length index w pos = .done earlier mid first ∧
        item (index + earlier.length) w mid = .failed failure last second := by
  induction count generalizing index pos trace with
  | zero => simp [collect, pure_apply] at hfailed
  | succ count ih =>
      rcases bind_eq_failed_iff.mp hfailed with
        hitem | ⟨value, mid, first, second, hitem, hrest, -⟩
      · exact ⟨[], pos, [], trace, Nat.succ_pos count, rfl, hitem⟩
      · rcases bind_eq_failed_iff.mp hrest with
          hcollect | ⟨values, mid', first', second', -, hpure, -⟩
        · obtain ⟨earlier, mid', first', second', hlength, hdone, hfailed'⟩ := ih hcollect
          refine ⟨value :: earlier, mid', first ++ first', second', Nat.succ_lt_succ hlength,
            ?_, ?_⟩
          · exact bind_eq_done_iff.mpr ⟨value, mid, first, first', hitem, bind_eq_done_iff.mpr
              ⟨earlier, mid', first', [], hdone, rfl, (List.append_nil _).symm⟩, rfl⟩
          · rwa [List.length_cons, Nat.add_comm earlier.length, ← Nat.add_assoc]
        · simp [pure_apply] at hpure

/-- Labels on the items do not matter where all of them are read. -/
theorem collect_within_eq_done_iff {item : Decoder α} {label : Nat → Label} {count index : Nat}
    {values : List α} {last : Int} {trace : List Event} :
    collect (fun index => within (label index) item) count index w pos =
        .done values last trace ↔
      collect (fun _ => item) count index w pos = .done values last trace := by
  induction count generalizing index pos values last trace with
  | zero => rfl
  | succ count ih =>
      simp only [collect, bind_eq_done_iff, within_eq_done_iff, ih]

end Decoder

namespace Standard

/-- What a function has before its nested functions, and how many of those it declares. -/
structure Opening where
  head : Head
  instructions : List Int
  constants : List Constant
  upvalues : List Upvalue
  declared : Int

/-- The labels from the start of a function to the start of its nested function of an index. -/
def frame (index : Nat) : List Label :=
  [.named "chunk", .named "count prototypes", .item "prototype" index]

/-- How these labels are written. -/
def frameTexts (index : Nat) : List String :=
  ["chunk", "count prototypes", "prototype " ++ toString index]

theorem map_text_frames (path : List Nat) :
    (path.flatMap frame).map Label.text = path.flatMap frameTexts := by
  rw [List.map_flatMap]
  rfl

namespace Grammar

variable {g : Grammar} {maxDepth : Int} {w : Window} {levels : Nat} {pos : Int}
  {failure : Failure} {last : Int} {trace : List Event}

/-- Read a function as far as to its nested functions. -/
def opening (g : Grammar) : Decoder Opening := do
  let head ← g.head
  emit (.chunk (g.tracedName head) head.lineDefined head.lastLineDefined)
  let instructions ← counted "count instruction" g.count g.instruction
  let constants ← countedLabelled "count constants" "constant" g.count g.constant
  let upvalues ← g.upvalues
  let declared ← named "count prototypes" do
    let declared ← g.count
    checkCount declared
    pure declared
  pure { head, instructions, constants, upvalues, declared }

/-- Read the rest of a function. -/
def closing (g : Grammar) (maxDepth : Int) (levels : Nat) (opening : Opening) :
    Decoder Prototype := do
  let children ← named "count prototypes"
    (collect (fun index => within (.item "prototype" index) (g.chunk maxDepth levels))
      opening.declared.toNat 0)
  let tail ← g.tail
  pure ⟨assemble opening.head opening.instructions opening.constants opening.upvalues tail,
    children⟩

theorem chunk_succ (g : Grammar) (maxDepth : Int) (levels : Nat) :
    g.chunk maxDepth (levels + 1) = named "chunk" (g.opening >>= g.closing maxDepth levels) := by
  simp only [chunk, opening, closing, countedLabelled, labelledItems, named_bind, named_pure,
    bind_assoc, pure_bind]

/-- From a function at a position, a path leads down to another one. On every level as many
nested functions have been read as the index says, and the next one starts there. -/
inductive Reaches (g : Grammar) (maxDepth : Int) (w : Window) :
    (levels : Nat) → (pos : Int) → (path : List Nat) → (levels' : Nat) → (pos' : Int) → Prop
  | here {levels : Nat} {pos : Int} : Reaches g maxDepth w levels pos [] levels pos
  | child {levels levels' : Nat} {pos start mid pos' : Int} {opening : Opening}
      {siblings : List Prototype} {path : List Nat} {first second : List Event}
      (hopening : g.opening w pos = .done opening start first)
      (hsiblings : collect (fun _ => g.chunk maxDepth levels) siblings.length 0 w start =
        .done siblings mid second)
      (hdeclared : siblings.length < opening.declared)
      (hreaches : Reaches g maxDepth w levels mid path levels' pos') :
      Reaches g maxDepth w (levels + 1) pos (siblings.length :: path) levels' pos'

/-- A function fails by itself: before its nested functions, or behind all of them. -/
inductive FailsInPart (g : Grammar) (maxDepth : Int) (w : Window) (levels : Nat) (pos : Int)
    (failure : Failure) : Prop
  | opening {last : Int} {trace : List Event}
      (hfailed : g.opening w pos = .failed failure last trace)
  | tail {opening : Opening} {start mid last : Int} {children : List Prototype}
      {first second third : List Event} (hopening : g.opening w pos = .done opening start first)
      (hchildren : collect (fun _ => g.chunk maxDepth levels) opening.declared.toNat 0 w start =
        .done children mid second)
      (hfailed : g.tail w mid = .failed failure last third)

/-- Every level of the path uses up one level of the function. -/
theorem Reaches.levels_eq {levels' : Nat} {pos' : Int} {path : List Nat}
    (hreaches : g.Reaches maxDepth w levels pos path levels' pos') :
    levels = path.length + levels' := by
  induction hreaches with
  | here => simp
  | child _ _ _ _ ih =>
      rw [List.length_cons]
      omega

/-- How a function fails in its nested functions or behind them. -/
theorem closing_eq_failed {opening : Opening}
    (hfailed : g.closing maxDepth levels opening w pos = .failed failure last trace) :
    (∃ siblings mid inner reached first second, (siblings.length : Int) < opening.declared ∧
      collect (fun _ => g.chunk maxDepth levels) siblings.length 0 w pos =
        .done siblings mid first ∧
      g.chunk maxDepth levels w mid = .failed inner reached second ∧
      failure = (inner.push (.item "prototype" siblings.length)).push (.named "count prototypes")) ∨
    ∃ children mid first second,
      collect (fun _ => g.chunk maxDepth levels) opening.declared.toNat 0 w pos =
        .done children mid first ∧
      g.tail w mid = .failed failure last second := by
  rcases bind_eq_failed_iff.mp hfailed with
    hchildren | ⟨children, mid, first, second, hchildren, hrest, -⟩
  · obtain ⟨labelled, hcollect, rfl⟩ := within_eq_failed_iff.mp hchildren
    obtain ⟨siblings, mid, first, second, hlength, hsiblings, hchild⟩ := collect_eq_failed hcollect
    rw [Nat.zero_add] at hchild
    obtain ⟨inner, hinner, rfl⟩ := within_eq_failed_iff.mp hchild
    exact .inl ⟨siblings, mid, inner, last, first, second, by omega,
      collect_within_eq_done_iff.mp hsiblings, hinner, rfl⟩
  · have hdone := collect_within_eq_done_iff.mp (within_eq_done_iff.mp hchildren)
    rcases bind_eq_failed_iff.mp hrest with htail | ⟨tail, mid', first', second', -, hpure, -⟩
    · exact .inr ⟨children, mid, first, second, hdone, htail⟩
    · simp [pure_apply] at hpure

/-- A failure of a function is the failure of one of the functions below it, or its own, with
the labels of the path in front. -/
theorem exists_path_of_failed
    (hfailed : g.chunk maxDepth levels w pos = .failed failure last trace) :
    ∃ path : List Nat,
      (∃ pos', g.Reaches maxDepth w levels pos path 0 pos' ∧
        failure = ⟨.tooDeep maxDepth, pos', path.flatMap frame⟩) ∨
      ∃ levels' pos' inner, g.Reaches maxDepth w levels pos path (levels' + 1) pos' ∧
        g.FailsInPart maxDepth w levels' pos' inner ∧
        failure = ⟨inner.cause, inner.offset,
          path.flatMap frame ++ .named "chunk" :: inner.context⟩ := by
  induction levels generalizing pos failure last trace with
  | zero =>
      obtain ⟨rfl, -, -⟩ := Outcome.failed.inj hfailed
      exact ⟨[], .inl ⟨pos, .here, rfl⟩⟩
  | succ levels ih =>
      rw [chunk_succ] at hfailed
      obtain ⟨inner, hinner, rfl⟩ := within_eq_failed_iff.mp hfailed
      rcases bind_eq_failed_iff.mp hinner with
        hopening | ⟨opening, start, first, second, hopening, hclosing, -⟩
      · exact ⟨[], .inr ⟨levels, pos, inner, .here, .opening hopening, rfl⟩⟩
      rcases closing_eq_failed hclosing with
        ⟨siblings, mid, child, reached, first', second', hdeclared, hsiblings, hchild, rfl⟩ |
          ⟨children, mid, first', second', hchildren, htail⟩
      · obtain ⟨path, hpath⟩ := ih hchild
        refine ⟨siblings.length :: path, ?_⟩
        rcases hpath with ⟨pos', hreaches, rfl⟩ | ⟨levels', pos', own, hreaches, hown, rfl⟩
        · exact .inl ⟨pos', .child hopening hsiblings hdeclared hreaches, rfl⟩
        · exact .inr ⟨levels', pos', own, .child hopening hsiblings hdeclared hreaches, hown, rfl⟩
      · exact ⟨[], .inr ⟨levels, pos, inner, .here, .tail hopening hchildren htail, rfl⟩⟩

theorem Speaks.opening {vocabulary : Label → Prop} (hg : g.Speaks vocabulary) :
    g.opening.Speaks vocabulary := by
  refine hg.head.bind fun head => (Speaks.emit _).bind fun _ => ?_
  refine (speaks_counted (hg.common _ (by decide)) hg.count hg.instruction).bind
    fun instructions => ?_
  refine (speaks_countedLabelled (hg.common _ (by decide)) hg.item hg.count hg.constant).bind
    fun constants => ?_
  refine hg.upvalues.bind fun upvalues => Decoder.Speaks.bind ?_ fun declared => .pure _
  exact .named (hg.common _ (by decide)) (hg.count.bind fun declared =>
    (speaks_checkCount declared).bind fun _ => .pure _)

/-- What a function does by itself is labelled as its parts are. -/
theorem Speaks.failsInPart {vocabulary : Label → Prop} (hg : g.Speaks vocabulary)
    (hfails : g.FailsInPart maxDepth w levels pos failure) :
    failure.kind ≠ .depthExceeded ∧ ∀ label ∈ failure.context, vocabulary label := by
  cases hfails with
  | opening hfailed => exact hg.opening hfailed
  | tail hopening hchildren hfailed => exact hg.tail hfailed

end Grammar

/-- The grammar of a dump of the standard interpreter. -/
def grammar? (h : Header) : Option Grammar :=
  match h.dialect with
  | .lua51 => some (grammar51 h)
  | .lua52 => some (grammar52 h)
  | .lua53 => some (grammar53 h)
  | .lua54 => some (grammar54 h)
  | .luaJit1 | .luaJit2 | .luau => none

variable {h : Header} {g : Grammar} {maxDepth start : Int} {w : Window} {path : List Nat}
  {failure : Failure}

theorem mainFunction_of_grammar (hgrammar : grammar? h = some g) (maxDepth : Int) :
    mainFunction h maxDepth = g.main maxDepth := by
  unfold grammar? at hgrammar
  unfold mainFunction
  split at hgrammar <;> simp_all

theorem speaks_of_grammar (hgrammar : grammar? h = some g) :
    g.Speaks (IsPartLabel h.dialect) := by
  unfold grammar? at hgrammar
  split at hgrammar
  all_goals simp only [Option.some.injEq, reduceCtorEq] at hgrammar
  all_goals subst hgrammar
  next hdialect => exact hdialect ▸ grammar51_speaks
  next hdialect => exact hdialect ▸ grammar52_speaks
  next hdialect => exact hdialect ▸ grammar53_speaks
  next hdialect => exact hdialect ▸ grammar54_speaks

/-- Where a failure comes from in a main function that starts at a position: the function it
leaves is found along a path, and its context spells that path, in its labels and in the texts
that are made of them. -/
inductive Located (h : Header) (g : Grammar) (maxDepth : Int) (w : Window) (start : Int)
    (path : List Nat) (failure : Failure) : Prop
  | tooDeep {pos : Int}
      (hreaches : g.Reaches maxDepth w (maxDepth + 1).toNat start path 0 pos)
      (hkind : failure.kind = .depthExceeded) (hcontext : failure.context = path.flatMap frame)
      (htexts : failure.context.map Label.text = path.flatMap frameTexts)
      (hlength : path.length = max 0 (maxDepth + 1))
  | part {levels : Nat} {pos : Int} {tail : List Label}
      (hreaches : g.Reaches maxDepth w (maxDepth + 1).toNat start path (levels + 1) pos)
      (hfails : g.FailsInPart maxDepth w levels pos ⟨failure.cause, failure.offset, tail⟩)
      (hkind : failure.kind ≠ .depthExceeded)
      (hcontext : failure.context = path.flatMap frame ++ .named "chunk" :: tail)
      (htail : ∀ label ∈ tail, IsPartLabel h.dialect label ∧ label ≠ .named "chunk" ∧
        ∀ index, label ≠ .item "prototype" index)
      (htexts : failure.context.map Label.text =
        path.flatMap frameTexts ++ "chunk" :: tail.map Label.text)
      (htailTexts : ∀ text ∈ tail.map Label.text, IsPartText h.dialect text ∧ text ≠ "chunk" ∧
        ∀ index : Nat, text ≠ "prototype " ++ toString index)
      (hlength : path.length ≤ maxDepth)

theorem exists_located_of_failed {last : Int} {trace : List Event}
    (hg : g.Speaks (IsPartLabel h.dialect))
    (hfailed : g.main maxDepth w start = .failed failure last trace) :
    ∃ path, Located h g maxDepth w start path failure := by
  obtain ⟨path, ⟨pos, hreaches, rfl⟩ | ⟨levels, pos, inner, hreaches, hfails, rfl⟩⟩ :=
    Grammar.exists_path_of_failed hfailed
  · have hlevels := hreaches.levels_eq
    exact ⟨path, .tooDeep hreaches rfl rfl (map_text_frames path) (by omega)⟩
  · have hlevels := hreaches.levels_eq
    obtain ⟨hkind, hcontext⟩ := hg.failsInPart hfails
    refine ⟨path, .part hreaches hfails hkind rfl (fun label hlabel => ?_) ?_
      (List.forall_mem_map.mpr fun label hlabel => ?_) (by omega)⟩
    · have hpart := hcontext label hlabel
      exact ⟨hpart, hpart.ne_chunk, hpart.ne_prototype⟩
    · rw [List.map_append, map_text_frames, List.map_cons, Label.text]
    · have htext := (hcontext label hlabel).isPartText
      exact ⟨htext, htext.ne_chunk, htext.ne_prototype⟩

end Standard

/-- Behind a header that is accepted, a file fails with its main function. -/
theorem mainFunction_failed_of_decode {options : Options} {data : Array UInt8} {h : Header}
    {start last : Int} {earlier trace : List Event} {failure : Failure}
    (hheader : options.origin.header (Window.whole data) 0 = .done h start earlier)
    (henabled : h.dialect ∉ options.disabled)
    (hfailed : decode options data = .failed failure last trace) :
    ∃ later, mainFunction h options.maxDepth (Window.whole data) start =
      .failed failure last later := by
  rcases bind_eq_failed_iff.mp hfailed with hnone | ⟨h', mid, first, second, hsome, hrest, -⟩
  · exact absurd (hheader.symm.trans hnone) (by simp)
  obtain ⟨rfl, rfl, -⟩ := Outcome.done.inj (hheader.symm.trans hsome)
  rw [if_neg henabled] at hrest
  rcases bind_eq_failed_iff.mp hrest with hmain | ⟨main, mid, first', second', -, hdone, -⟩
  · exact ⟨second, hmain⟩
  · cases hdone

/-- Behind the header of a standard dump, the context of every failure spells the path of the
nested functions that were being read, by their indices. It ends there if the functions nest too
deep, and else with the labels of one part of the last of them. -/
theorem context_spells_path {options : Options} {data : Array UInt8} {h : Header}
    {g : Standard.Grammar} {start last : Int} {earlier trace : List Event} {failure : Failure}
    (hheader : options.origin.header (Window.whole data) 0 = .done h start earlier)
    (hgrammar : Standard.grammar? h = some g) (henabled : h.dialect ∉ options.disabled)
    (hfailed : decode options data = .failed failure last trace) :
    ∃ path, Standard.Located h g options.maxDepth (Window.whole data) start path failure := by
  obtain ⟨later, hmain⟩ := mainFunction_failed_of_decode hheader henabled hfailed
  rw [Standard.mainFunction_of_grammar hgrammar] at hmain
  exact Standard.exists_located_of_failed (Standard.speaks_of_grammar hgrammar) hmain

/-- A dump with two nested functions, the second of which has a constant with an unknown tag. -/
def strangeTagSample : Array UInt8 :=
  #[0x1B, 0x4C, 0x75, 0x61, 0x51, 0, 1, 1, 1, 1, 8, 0,
    0, 0, 0, 0, 0, 0, 0, 0, 0, 2,
    0, 0, 0, 0, 0, 0, 0, 0, 0, 0, 0, 0, 0,
    0, 0, 0, 0, 0, 0, 0, 0, 1, 9]

theorem context_spells_path_strangeTagSample :
    ∃ h g start earlier failure last trace path,
      ({} : Options).origin.header (Window.whole strangeTagSample) 0 = .done h start earlier ∧
      Standard.grammar? h = some g ∧
      decode {} strangeTagSample = .failed failure last trace ∧
      failure.context.map Label.text = ["chunk", "count prototypes", "prototype 1", "chunk",
        "count constants", "constant 0"] ∧
      Standard.Located h g ({} : Options).maxDepth (Window.whole strangeTagSample) start path
        failure := by
  obtain ⟨h, start, earlier, hheader, hdialect⟩ : ∃ h start earlier,
      ({} : Options).origin.header (Window.whole strangeTagSample) 0 = .done h start earlier ∧
        h.dialect = .lua51 := ⟨_, _, _, rfl, rfl⟩
  obtain ⟨failure, last, trace, hfailed, hcontext⟩ : ∃ failure last trace,
      decode {} strangeTagSample = .failed failure last trace ∧
        failure.context.map Label.text = ["chunk", "count prototypes", "prototype 1", "chunk",
          "count constants", "constant 0"] := ⟨_, _, _, rfl, rfl⟩
  have hgrammar : Standard.grammar? h = some (Standard.grammar51 h) := by
    rw [Standard.grammar?, hdialect]
  obtain ⟨path, hlocated⟩ := context_spells_path hheader hgrammar (by simp) hfailed
  exact ⟨h, _, start, earlier, failure, last, trace, path, hheader, hgrammar, hfailed, hcontext,
    hlocated⟩

end LuaDump
