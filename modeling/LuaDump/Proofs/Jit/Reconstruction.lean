import Mathlib.Algebra.Order.Ring.Int
import LuaDump.Proofs.Jit.Stack
import LuaDump.Proofs.Loop
import LuaDump.Proofs.Settling.Function
import LuaDump.Proofs.Tree

/-! # Reconstruction of the tree

Records are written children first, and a record takes its children from the stack, the
last completed one first. Listing each tree on the stack children first, from the last
child to the first, and the trees from the bottom of the stack to its top, gives back the
records in the order of the file. So the tree that is left at the end holds every record
exactly once. Whether one tree is left depends on the numbers of children alone.
-/

namespace LuaDump

namespace Jit

open Decoder

variable {h : Header} {w : Window} {maxDepth : Int}

/-- The trees on a stack, from its top down. -/
def trees (stack : List Completed) : List Prototype :=
  stack.map (·.prototype)

/-- Every completed function carries the height of its tree. -/
def Measured (stack : List Completed) : Prop :=
  ∀ completed ∈ stack, completed.height = completed.prototype.height

theorem heightOver_eq {stack : List Completed} (hstack : Measured stack) :
    heightOver stack = Prototype.heightAll (trees stack) := by
  rw [heightOver, Prototype.foldl_height stack 0 hstack, Nat.zero_max]
  rfl

/-- A stack of measured functions stays so when a function takes its children from it. -/
theorem Measured.complete {body : Body} {stack rest : List Completed} {completed : Completed}
    (hstack : Measured stack) (hcomplete : complete? body stack = some (completed, rest)) :
    Measured (completed :: rest) := by
  obtain ⟨-, rfl, rfl⟩ := complete?_eq_some_iff.mp hcomplete
  refine List.forall_mem_cons.mpr ⟨?_, fun other hother =>
    hstack other (List.mem_of_mem_drop hother)⟩
  exact heightOver_eq fun other hother => hstack other (List.mem_of_mem_take hother)

/-- The functions on a stack, from its bottom to its top. -/
def listing (stack : List Completed) : List Prototype :=
  stack.reverse.flatMap (·.prototype.postorder)

theorem listing_eq (stack : List Completed) :
    listing stack = Prototype.postorderAll (trees stack) := by
  simp [listing, trees, Prototype.postorderAll_eq_flatMap, ← List.map_reverse, List.flatMap_map]

/-- Completing a function adds it to the end of the listing. -/
theorem listing_complete {body : Body} {stack rest : List Completed} {completed : Completed}
    (hcomplete : complete? body stack = some (completed, rest)) :
    listing (completed :: rest) = listing stack ++ [completed.prototype] := by
  obtain ⟨-, rfl, rfl⟩ := complete?_eq_some_iff.mp hcomplete
  have hsplit : trees stack = trees (stack.take (childCount body)) ++
      trees (stack.drop (childCount body)) := by
    rw [trees, trees, trees, ← List.map_append, List.take_append_drop]
  rw [listing_eq, listing_eq, hsplit, Prototype.postorderAll_append]
  simp [trees, Prototype.postorderAll, Completed.over, Prototype.postorder]

/-- A function whose constants refer to each of its children once, from last to first. -/
def RefersToChildren (chunk : Prototype) : Prop :=
  protoIndices chunk.body.constants = countdown chunk.children.length

theorem refersToChildren_of_complete {body : Body} {stack rest : List Completed}
    {completed : Completed} (hbody : NumbersChildren body)
    (hcomplete : complete? body stack = some (completed, rest)) :
    RefersToChildren completed.prototype := by
  obtain ⟨henough, rfl, rfl⟩ := complete?_eq_some_iff.mp hcomplete
  have hlength : ((stack.take (childCount body)).map (·.prototype)).length = childCount body := by
    rw [List.length_map, List.length_take, Nat.min_eq_left henough]
  rw [RefersToChildren, Completed.over, hlength]
  exact hbody

/-- A record with the given own fields, which some stack allows to read. -/
def RecordAt (h : Header) (w : Window) (pos : Int) (body : Body) (last : Int) : Prop :=
  ∃ limit stack completed rest trace,
    record h limit stack w pos = .done (some (completed :: rest)) last trace ∧
      completed.prototype.body = body

/-- What every stack makes of a record. -/
theorem RecordAt.serves {pos last : Int} {body : Body} (hrecord : RecordAt h w pos body last) :
    NumbersChildren body ∧ ∃ trace, ∀ (stack : List Completed) (limit : Int),
      heightOver (stack.take (childCount body)) ≤ limit →
        (record h limit stack w pos).Serves
          ((complete? body stack).map fun (completed, rest) => some (completed :: rest))
          last trace := by
  obtain ⟨limit, stack, completed, rest, trace, hdone, rfl⟩ := hrecord
  obtain ⟨body, hnumbers, hheight, hserves⟩ := record_serves hdone
  have hself := (hserves stack limit hheight).eq_some hdone
  obtain ⟨⟨found, left⟩, hcomplete, hfound⟩ := Option.map_eq_some_iff.mp hself
  cases hfound
  obtain ⟨-, rfl, rfl⟩ := complete?_eq_some_iff.mp hcomplete
  exact ⟨hnumbers, trace, hserves⟩

/-- A record has one reading. -/
theorem RecordAt.unique {pos last last' : Int} {body body' : Body}
    (hrecord : RecordAt h w pos body last) (hrecord' : RecordAt h w pos body' last') :
    body = body' ∧ last = last' := by
  obtain ⟨-, trace, hserves⟩ := hrecord.serves
  obtain ⟨-, trace', hserves'⟩ := hrecord'.serves
  -- A stack that is high enough for either reading.
  obtain ⟨stack, henough, henough'⟩ : ∃ stack : List Completed,
      childCount body ≤ stack.length ∧ childCount body' ≤ stack.length :=
    ⟨List.replicate (childCount body + childCount body') default, by simp, by simp⟩
  have hrun := hserves stack _ (Int.le_max_left _ (heightOver (stack.take (childCount body'))))
  have hrun' := hserves' stack _ (Int.le_max_right (heightOver (stack.take (childCount body))) _)
  rw [complete?, if_pos henough] at hrun
  rw [complete?, if_pos henough'] at hrun'
  cases hrun.symm.trans hrun'
  exact ⟨rfl, rfl⟩

theorem RecordAt.of_done {limit pos last : Int} {stack next : List Completed}
    {trace : List Event} (hdone : record h limit stack w pos = .done (some next) last trace) :
    ∃ body completed rest, next = completed :: rest ∧ RecordAt h w pos body last ∧
      complete? body stack = some (completed, rest) := by
  obtain ⟨body, -, hheight, hserves⟩ := record_serves hdone
  have hself := (hserves stack limit hheight).eq_some hdone
  obtain ⟨⟨completed, rest⟩, hcomplete, hnext⟩ := Option.map_eq_some_iff.mp hself
  cases hnext
  refine ⟨body, completed, rest, rfl, ⟨limit, stack, completed, rest, trace, hdone, ?_⟩, hcomplete⟩
  obtain ⟨-, rfl, rfl⟩ := complete?_eq_some_iff.mp hcomplete
  rfl

/-- Records that follow one another, in the order of the file. -/
inductive Records (h : Header) (w : Window) : Int → List Body → Int → Prop
  | nil (pos : Int) : Records h w pos [] pos
  | cons {pos mid last : Int} {body : Body} {bodies : List Body}
      (hrecord : RecordAt h w pos body mid) (hrecords : Records h w mid bodies last) :
      Records h w pos (body :: bodies) last

theorem Records.snoc {pos mid last : Int} {body : Body} {bodies : List Body}
    (hrecords : Records h w pos bodies mid) (hrecord : RecordAt h w mid body last) :
    Records h w pos (bodies ++ [body]) last := by
  induction hrecords with
  | nil pos => exact .cons hrecord (.nil last)
  | cons hfirst _ ih => exact .cons hfirst (ih hrecord)

theorem Records.unique {pos last last' : Int} {bodies bodies' : List Body}
    (hrecords : Records h w pos bodies last) (hrecords' : Records h w pos bodies' last')
    (hlength : bodies'.length = bodies.length) : bodies' = bodies := by
  induction hrecords generalizing bodies' with
  | nil pos => exact List.length_eq_zero_iff.mp hlength
  | cons hrecord _ ih =>
      cases hrecords' with
      | nil => exact absurd hlength (by simp)
      | cons hrecord' hrest' =>
          obtain ⟨rfl, rfl⟩ := hrecord.unique hrecord'
          rw [ih hrest' (Nat.succ.inj hlength)]

/-- A step that goes on has read a record. -/
theorem recordStep_eq_inl {index index' : Nat} {stack next : List Completed} {pos last : Int}
    {trace : List Event}
    (hstep : recordStep h maxDepth (index, stack) w pos = .done (.inl (index', next)) last trace) :
    index' = index + 1 ∧ ∃ body completed rest, next = completed :: rest ∧
      RecordAt h w pos body last ∧ complete? body stack = some (completed, rest) := by
  obtain ⟨found, mid, first, second, hrecord, hfound, -⟩ := bind_eq_done_iff.mp hstep
  have hrecord := within_eq_done_iff.mp hrecord
  cases found with
  | none => exact absurd hfound (by simp)
  | some found =>
      obtain ⟨hnext, rfl, -⟩ := pure_eq_done_iff.mp hfound
      cases hnext
      exact ⟨rfl, RecordAt.of_done hrecord⟩

/-- A step that ends the loop has met the end of the records. -/
theorem recordStep_eq_inr {index : Nat} {stack result : List Completed} {pos last : Int}
    {trace : List Event}
    (hstep : recordStep h maxDepth (index, stack) w pos = .done (.inr result) last trace) :
    result = stack ∧ EndsAt w pos last := by
  obtain ⟨found, mid, first, second, hrecord, hfound, -⟩ := bind_eq_done_iff.mp hstep
  have hrecord := within_eq_done_iff.mp hrecord
  cases found with
  | some found => exact absurd hfound (by simp)
  | none =>
      obtain ⟨hresult, rfl, -⟩ := pure_eq_done_iff.mp hfound
      cases hresult
      rcases record_eq_done hrecord with ⟨-, hends⟩ | ⟨_, _, _, _, _, _, _, _, _, _, hsome, _⟩
      · exact ⟨rfl, hends⟩
      · exact absurd hsome (by simp)

/-- Wherever the loop stands, the listing of its stack is the records read so far. -/
theorem exists_records_of_visits {start pos : Int} {index : Nat} {stack : List Completed}
    (hvisits : Visits (recordStep h maxDepth) w (0, []) start (index, stack) pos) :
    (listing stack).length = index ∧ Records h w start ((listing stack).map (·.body)) pos ∧
      ∀ chunk ∈ listing stack, RefersToChildren chunk := by
  generalize hstate : (index, stack) = state at hvisits
  -- The record of the last step stands last in the listing, whatever it took from the stack.
  induction hvisits generalizing index stack with
  | start =>
      cases hstate
      exact ⟨rfl, .nil start, by simp [listing]⟩
  | @step state _ mid last _ _ hstep ih =>
      obtain ⟨index', stack'⟩ := state
      subst hstate
      obtain ⟨hindex, hrecords, hrefers⟩ := ih rfl
      obtain ⟨rfl, body, completed, rest, rfl, hrecord, hcomplete⟩ := recordStep_eq_inl hstep
      have hbody : completed.prototype.body = body := by
        obtain ⟨-, rfl, -⟩ := complete?_eq_some_iff.mp hcomplete
        rfl
      rw [listing_complete hcomplete]
      refine ⟨by simp [hindex], ?_, ?_⟩
      · rw [List.map_append, List.map_singleton, hbody]
        exact hrecords.snoc hrecord
      · intro chunk hchunk
        rcases List.mem_append.mp hchunk with hchunk | hchunk
        · exact hrefers chunk hchunk
        · rw [List.mem_singleton.mp hchunk]
          exact refersToChildren_of_complete hrecord.serves.1 hcomplete

/-- How many functions a stack of the given size holds after records that take the given
numbers of children, unless one of them finds too few. -/
def stackSize? : (size : Nat) → (tags : List Nat) → Option Nat
  | size, [] => some size
  | size, taken :: rest => if taken ≤ size then stackSize? (size - taken + 1) rest else none

/-- Numbers of children that leave a single function: before each record there are enough
functions, and at the end there is one. -/
def Balanced (tags : List Nat) : Prop :=
  (∀ count, 1 ≤ count → count ≤ tags.length → (tags.take count).sum + 1 ≤ count) ∧
    tags.sum + 1 = tags.length

theorem stackSize?_eq_some_iff {size left : Nat} {tags : List Nat} :
    stackSize? size tags = some left ↔
      (∀ count, 1 ≤ count → count ≤ tags.length → (tags.take count).sum + 1 ≤ size + count) ∧
        left + tags.sum = size + tags.length := by
  induction tags generalizing size with
  | nil =>
      simp only [stackSize?, Option.some.injEq, List.length_nil, List.sum_nil]
      constructor
      · rintro rfl
        exact ⟨fun count hone hzero => by omega, rfl⟩
      · rintro ⟨-, hleft⟩
        omega
  | cons taken rest ih =>
      simp only [stackSize?, Option.ite_none_right_eq_some, ih, List.length_cons, List.sum_cons]
      constructor
      · rintro ⟨henough, hcounts, hleft⟩
        refine ⟨fun count hone hcount => ?_, by omega⟩
        obtain ⟨count, rfl⟩ : ∃ previous, count = previous + 1 := ⟨count - 1, by omega⟩
        rw [List.take_succ_cons, List.sum_cons]
        by_cases hzero : count = 0
        · subst hzero
          simp only [List.take_zero, List.sum_nil]
          omega
        · have := hcounts count (by omega) (by omega)
          omega
      · rintro ⟨hcounts, hleft⟩
        have hfirst := hcounts 1 (Nat.le_refl _) (by omega)
        simp only [List.take_succ_cons, List.take_zero, List.sum_cons, List.sum_nil] at hfirst
        refine ⟨by omega, fun count hone hcount => ?_, by omega⟩
        have := hcounts (count + 1) (by omega) (by omega)
        rw [List.take_succ_cons, List.sum_cons] at this
        omega

theorem balanced_iff {tags : List Nat} : Balanced tags ↔ stackSize? 0 tags = some 1 := by
  simp [stackSize?_eq_some_iff, Balanced, Nat.add_comm]

theorem heightOver_take_le {stack : List Completed} (hstack : Measured stack) (count : Nat) :
    heightOver (stack.take count) ≤ (listing stack).length := by
  have htaken : Measured (stack.take count) := fun other hother =>
    hstack other (List.mem_of_mem_take hother)
  have hsplit : trees stack = trees (stack.take count) ++ trees (stack.drop count) := by
    rw [trees, trees, trees, ← List.map_append, List.take_append_drop]
  have hheight := Prototype.heightAll_le_countAll (trees (stack.take count))
  rw [heightOver_eq htaken, listing_eq, Prototype.length_postorderAll, hsplit,
    Prototype.countAll_append]
  omega

/-- What a step makes of a record. -/
theorem recordStep_serves (index : Nat) {stack : List Completed} {pos last : Int}
    {trace : List Event} {expected : Option (Completed × List Completed)}
    (hrecord : (record h maxDepth stack w pos).Serves
      (expected.map fun (completed, rest) => some (completed :: rest)) last trace) :
    (recordStep h maxDepth (index, stack) w pos).Serves
      (expected.map fun (completed, rest) => .inl (index + 1, completed :: rest)) last trace := by
  have hexpected : expected.map (fun (completed, rest) =>
      (.inl (index + 1, completed :: rest) : (Nat × List Completed) ⊕ List Completed)) =
        (expected.map fun (completed, rest) => some (completed :: rest)).bind
          fun found => found.map fun next => .inl (index + 1, next) := by
    cases expected <;> rfl
  rw [hexpected, ← List.append_nil trace]
  refine serves_bind (serves_within hrecord) fun found hfound => ?_
  obtain ⟨⟨completed, rest⟩, -, rfl⟩ := Option.map_eq_some_iff.mp hfound
  rfl

/-- Records drive the loop as long as each of them finds its children on the stack. -/
theorem loop_of_records (hw : w.Sound) {pos last : Int} {bodies : List Body}
    (hrecords : Records h w pos bodies last) (index : Nat) {stack : List Completed}
    (hpos : 0 ≤ pos) (hstop : pos ≤ w.stop) (hstack : Measured stack)
    (hdepth : ((listing stack).length + bodies.length : Int) ≤ maxDepth) :
    (∀ size, stackSize? stack.length (bodies.map childCount) = some size →
      ∃ index' next, Visits (recordStep h maxDepth) w (index, stack) pos (index', next) last ∧
        next.length = size) ∧
    (stackSize? stack.length (bodies.map childCount) = none →
      (iterate (recordStep h maxDepth) (index, stack) w pos).Unbalanced) := by
  induction hrecords generalizing index stack with
  | nil pos => exact ⟨by rintro _ ⟨⟩; exact ⟨index, stack, .start, rfl⟩, by rintro ⟨⟩⟩
  | @cons pos mid last body bodies hrecord _ ih =>
      rw [List.length_cons] at hdepth
      obtain ⟨-, trace, hserves⟩ := hrecord.serves
      -- A stack is no higher than the records on it are many, so the depth is no obstacle.
      have hheight := heightOver_take_le hstack (childCount body)
      have hserves := recordStep_serves index (hserves stack maxDepth (by omega))
      have hsettles := settles_recordStep h maxDepth (index, stack) w pos hw hpos hstop
      rw [List.map_cons, stackSize?]
      split
      next henough =>
        have hcomplete := complete?_eq_some_iff.mpr ⟨henough, rfl, rfl⟩
        rw [hcomplete] at hserves
        have hmid := (hsettles.done hserves).1
        have hlisting : (listing (Completed.over body (stack.take (childCount body)) ::
            stack.drop (childCount body))).length = (listing stack).length + 1 := by
          rw [listing_complete hcomplete]
          simp
        have hlength : (Completed.over body (stack.take (childCount body)) ::
            stack.drop (childCount body)).length = stack.length - childCount body + 1 := by simp
        obtain ⟨hvisits, hunbalanced⟩ := ih (index + 1) (by omega)
          (hsettles.last_le_stop hserves) (hstack.complete hcomplete) (by omega)
        rw [hlength] at hvisits hunbalanced
        refine ⟨fun size hsize => ?_, fun hnone => ?_⟩
        · obtain ⟨index', next, hnext, hsize⟩ := hvisits size hsize
          exact ⟨index', next, (Visits.start.step hserves).trans hnext, hsize⟩
        · rw [iterate_eq_bind (settles_recordStep h maxDepth) hw _ hpos hstop, bind_of_done hserves]
          exact (hunbalanced hnone).after trace
      next hfew =>
        refine ⟨by rintro _ ⟨⟩, fun _ => ?_⟩
        have hnone : complete? body stack = none := if_neg hfew
        rw [hnone] at hserves
        rw [iterate_eq_bind (settles_recordStep h maxDepth) hw _ hpos hstop]
        exact unbalanced_bind hserves

/-- The step at the end of the records yields the stack. -/
theorem iterate_of_endsAt (hw : w.Sound) {pos last : Int} (hpos : 0 ≤ pos) (hstop : pos ≤ w.stop)
    (hends : EndsAt w pos last) (index : Nat) (stack : List Completed) :
    ∃ trace, iterate (recordStep h maxDepth) (index, stack) w pos = .done stack last trace := by
  obtain ⟨trace, hzero⟩ := hends
  have hrecord : record h maxDepth stack w pos = .done none last trace := by
    rw [record, bind_of_done (d := position) rfl, bind_of_done hzero]
    simp [pure_apply, Outcome.after]
  have hstep : recordStep h maxDepth (index, stack) w pos = .done (.inr stack) last trace := by
    rw [recordStep, bind_of_done (within_eq_done_iff.mpr hrecord)]
    simp [pure_apply, Outcome.after]
  refine ⟨trace, ?_⟩
  rw [iterate_eq_bind (settles_recordStep h maxDepth) hw _ hpos hstop, bind_of_done hstep]
  simp [continueWith, pure_apply, Outcome.after]

/-- The main function is the one function that is left when the records end. -/
theorem main_eq_done (hw : w.Sound) {pos last : Int} (hpos : 0 ≤ pos) (hstop : pos ≤ w.stop)
    {tree : Prototype} {trace : List Event}
    (hdone : main h maxDepth w pos = .done tree last trace) :
    ∃ name start nameTrace index completed stop,
      chunkName h w pos = .done name start nameTrace ∧
      Visits (recordStep h maxDepth) w (0, []) start (index, [completed]) stop ∧
      EndsAt w stop last ∧
      tree = { completed.prototype with body := { completed.prototype.body with name } } := by
  obtain ⟨name, start, nameTrace, _, hname, hafterName, -⟩ :=
    bind_eq_done_iff.mp (within_eq_done_iff.mp hdone)
  obtain ⟨stack, mid, _, _, hloop, hafterLoop, -⟩ := bind_eq_done_iff.mp hafterName
  obtain ⟨sole, _, _, _, hsole, hresult, -⟩ := bind_eq_done_iff.mp hafterLoop
  obtain ⟨rfl, rfl, -⟩ := pure_eq_done_iff.mp hresult
  have hsettles := settles_chunkName h w pos hw hpos hstop
  have hstart := (hsettles.done hname).1
  obtain ⟨⟨index, found⟩, stop, _, hvisits, hlast⟩ := exists_visits_of_iterate_eq_done
    (settles_recordStep h maxDepth) hw (by omega) (hsettles.last_le_stop hname) hloop
  obtain ⟨rfl, hends⟩ := recordStep_eq_inr hlast
  unfold soleCompleted at hsole
  split at hsole
  next completed =>
    obtain ⟨rfl, rfl, -⟩ := pure_eq_done_iff.mp hsole
    exact ⟨name, start, nameTrace, index, completed, stop, hname, hvisits, hends, rfl⟩
  next => exact absurd hsole not_fail_eq_done

/-- A loop that leaves one function makes it the main function. -/
theorem main_of_sole {pos start last : Int} {name : Bytes} {completed : Completed}
    {nameTrace loopTrace : List Event} (hname : chunkName h w pos = .done name start nameTrace)
    (hloop : iterate (recordStep h maxDepth) (0, []) w start = .done [completed] last loopTrace) :
    main h maxDepth w pos =
      .done { completed.prototype with body := { completed.prototype.body with name } } last
        (nameTrace ++ loopTrace) := by
  rw [main, named, within_eq_done_iff, bind_of_done hname, bind_of_done hloop]
  simp [soleCompleted, pure_apply, Outcome.after]

theorem soleCompleted_unbalanced {stack : List Completed} (hlength : stack.length ≠ 1)
    (pos : Int) : (soleCompleted stack w pos).Unbalanced := by
  unfold soleCompleted
  split
  next => exact absurd rfl hlength
  next => rfl

/-- Whether a single function is left depends on the numbers of children alone. -/
theorem main_of_records (hw : w.Sound) {pos start stop last : Int} (hpos : 0 ≤ pos)
    (hstop : pos ≤ w.stop) {name : Bytes} {nameTrace : List Event} {bodies : List Body}
    (hname : chunkName h w pos = .done name start nameTrace)
    (hrecords : Records h w start bodies stop) (hends : EndsAt w stop last)
    (hdepth : (bodies.length : Int) ≤ maxDepth) :
    (Balanced (bodies.map childCount) →
      ∃ tree trace, main h maxDepth w pos = .done tree last trace) ∧
    (¬ Balanced (bodies.map childCount) → (main h maxDepth w pos).Unbalanced) := by
  have hsettles := settles_chunkName h w pos hw hpos hstop
  have hstart := (hsettles.done hname).1
  have hinside := hsettles.last_le_stop hname
  obtain ⟨hvisits, hunbalanced⟩ := loop_of_records hw hrecords 0 (by omega) hinside
    (by simp [Measured] : Measured []) (by simpa [listing] using hdepth)
  rw [balanced_iff]
  -- The loop comes to the end of the records with a stack of some size.
  have hloop : ∀ size, stackSize? 0 (bodies.map childCount) = some size → ∃ stack trace,
      iterate (recordStep h maxDepth) (0, []) w start = .done stack last trace ∧
        stack.length = size := by
    intro size hsize
    obtain ⟨index, stack, hvisits, hsize⟩ := hvisits size hsize
    obtain ⟨hmid, hmidStop, earlier, heq⟩ :=
      hvisits.iterate_eq (settles_recordStep h maxDepth) hw (by omega) hinside
    obtain ⟨later, hlast⟩ := iterate_of_endsAt (h := h) hw (by omega) hmidStop hends index stack
    exact ⟨stack, earlier ++ later, by rw [heq, hlast]; rfl, hsize⟩
  constructor
  · intro hbalanced
    obtain ⟨stack, trace, hdone, hlength⟩ := hloop 1 hbalanced
    obtain ⟨completed, rfl⟩ := List.length_eq_one_iff.mp hlength
    exact ⟨_, _, main_of_sole hname hdone⟩
  · intro hnot
    refine unbalanced_within ?_
    rw [bind_of_done hname]
    apply Outcome.Unbalanced.after
    cases hsize : stackSize? 0 (bodies.map childCount) with
    | none => exact unbalanced_bind (hunbalanced hsize)
    | some size =>
        obtain ⟨stack, trace, hdone, rfl⟩ := hloop size hsize
        rw [bind_of_done hdone]
        apply Outcome.Unbalanced.after
        refine unbalanced_bind (soleCompleted_unbalanced ?_ last)
        rintro hone
        exact hnot (hone ▸ hsize)

/-- A name changes neither the children of a function nor what its constants refer to. -/
theorem refersToChildren_rename {root : Prototype} (name : Bytes)
    (hroot : ∀ chunk ∈ root.postorder, RefersToChildren chunk) (chunk : Prototype)
    (hchunk : chunk ∈ Prototype.postorder { root with body := { root.body with name } }) :
    RefersToChildren chunk := by
  obtain ⟨body, children⟩ := root
  rcases List.mem_append.mp hchunk with hchunk | hchunk
  · exact hroot chunk (List.mem_append_left _ hchunk)
  · obtain rfl := List.mem_singleton.mp hchunk
    exact hroot ⟨body, children⟩ (List.mem_append_right _ (List.mem_singleton_self _))

/-- Reconstruction loses and duplicates nothing. The stack always lists the records read so
far. The main function is a tree of all records, in which the constants of every function
refer to its children from last to first. One tree is left exactly if the numbers of
children are balanced, and the stack is to blame otherwise. -/
theorem reconstruction_exact (h : Header) (maxDepth : Int) {w : Window} (hw : w.Sound) {pos : Int}
    (hpos : 0 ≤ pos) (hstop : pos ≤ w.stop) :
    (∀ start index stack mid,
      Visits (recordStep h maxDepth) w (0, []) start (index, stack) mid →
        (listing stack).length = index ∧ Records h w start ((listing stack).map (·.body)) mid ∧
          ∀ bodies last, Records h w start bodies last → bodies.length = index →
            bodies = (listing stack).map (·.body)) ∧
    (∀ tree last trace, main h maxDepth w pos = .done tree last trace →
      ∃ name start nameTrace stop, ∃ root : Prototype,
        chunkName h w pos = .done name start nameTrace ∧
        tree = { root with body := { root.body with name } } ∧
        Records h w start (root.postorder.map (·.body)) stop ∧ EndsAt w stop last ∧
        tree.count = (root.postorder.map (·.body)).length ∧
        ∀ chunk ∈ tree.postorder,
          protoIndices chunk.body.constants = countdown chunk.children.length) ∧
    (∀ name start nameTrace bodies stop last,
      chunkName h w pos = .done name start nameTrace → Records h w start bodies stop →
      EndsAt w stop last → (bodies.length : Int) ≤ maxDepth →
        ((∃ tree last trace, main h maxDepth w pos = .done tree last trace) ↔
          Balanced (bodies.map childCount)) ∧
        (¬ Balanced (bodies.map childCount) → ∃ failure last trace,
          main h maxDepth w pos = .failed failure last trace ∧
            failure.kind = .unbalancedPrototypeStack)) := by
  refine ⟨?_, ?_, ?_⟩
  · intro start index stack mid hvisits
    obtain ⟨hindex, hrecords, -⟩ := exists_records_of_visits hvisits
    refine ⟨hindex, hrecords, fun bodies last hbodies hlength => hrecords.unique hbodies ?_⟩
    rw [hlength, List.length_map, hindex]
  · intro tree last trace hdone
    obtain ⟨name, start, nameTrace, index, completed, stop, hname, hvisits, hends, rfl⟩ :=
      main_eq_done hw hpos hstop hdone
    obtain ⟨-, hrecords, hrefers⟩ := exists_records_of_visits hvisits
    simp only [listing, List.reverse_singleton, List.flatMap_singleton] at hrecords hrefers
    refine ⟨name, start, nameTrace, stop, completed.prototype, hname, rfl, hrecords, hends, ?_,
      refersToChildren_rename name hrefers⟩
    rw [List.length_map, Prototype.length_postorder, Prototype.count_eq, Prototype.count_eq]
  · intro name start nameTrace bodies stop last hname hrecords hends hdepth
    obtain ⟨hsucceeds, hunbalanced⟩ := main_of_records hw hpos hstop hname hrecords hends hdepth
    refine ⟨⟨fun hdone => ?_, fun hbalanced => ?_⟩, fun hnot => (hunbalanced hnot).eq_failed⟩
    · obtain ⟨tree, last, trace, hdone⟩ := hdone
      refine Classical.byContradiction fun hnot => ?_
      have hfailed := hunbalanced hnot
      rw [hdone] at hfailed
      exact hfailed
    · obtain ⟨tree, trace, hdone⟩ := hsucceeds hbalanced
      exact ⟨tree, last, trace, hdone⟩

/-- Three records of a stripped file, of which the third takes the other two as children, and
the end of the records. -/
def siblingRecords : Array UInt8 :=
  #[7, 0, 0, 1, 0, 0, 0, 0, 7, 0, 0, 2, 0, 0, 0, 0, 10, 1, 0, 3, 0, 3, 0, 0, 0, 5, 0, 0]

/-- The main function holds all three records, so their numbers of children are balanced. -/
theorem reconstruction_exact_siblings :
    ∃ bodies tree trace,
      Records { dialect := .luaJit2, stripped := true } (Window.whole siblingRecords) 0 bodies 27 ∧
      main { dialect := .luaJit2, stripped := true } 3 (Window.whole siblingRecords) 0 =
        .done tree 28 trace ∧
      tree.count = 3 ∧ Balanced (bodies.map childCount) ∧
      ∀ chunk ∈ tree.postorder,
        protoIndices chunk.body.constants = countdown chunk.children.length := by
  have hexact := reconstruction_exact { dialect := .luaJit2, stripped := true } 3
    (Window.whole_sound siblingRecords) (Int.le_refl 0) (by decide)
  obtain ⟨bodies, hrecords, hlength⟩ : ∃ bodies,
      Records { dialect := .luaJit2, stripped := true } (Window.whole siblingRecords) 0 bodies 27 ∧
        bodies.length = 3 :=
    ⟨_, .cons ⟨0, [], _, _, _, rfl, rfl⟩ (.cons ⟨0, [], _, _, _, rfl, rfl⟩
      (.cons ⟨1, [default, default], _, _, _, rfl, rfl⟩ (.nil 27))), rfl⟩
  obtain ⟨tree, trace, hdone, hcount⟩ : ∃ tree trace,
      main { dialect := .luaJit2, stripped := true } 3 (Window.whole siblingRecords) 0 =
        .done tree 28 trace ∧ tree.count = 3 := ⟨_, _, rfl, rfl⟩
  have hbalanced := (hexact.2.2 [] 0 [] bodies 27 28 rfl hrecords ⟨_, rfl⟩ (by omega)).1.mp
    ⟨tree, 28, trace, hdone⟩
  obtain ⟨_, _, _, _, _, _, _, _, _, _, hrefers⟩ := hexact.2.1 tree 28 trace hdone
  exact ⟨bodies, tree, trace, hrecords, hdone, hcount, hbalanced, hrefers⟩

end Jit

end LuaDump
