import LuaDump.Jit.Record
import LuaDump.Proofs.Settling.Field

/-! # Records and the stack

A record reads the same bytes whatever stands on the stack. The stack only decides
whether there are enough completed functions for the children that the record names, and
which functions these are. So one successful reading of a record tells what it makes of
every other stack.
-/

namespace LuaDump

/-- The child that a constant refers to. -/
def Constant.protoIndex? : Constant → Option Int
  | .proto index => some index
  | _ => none

namespace Jit

open Decoder

/-- The children that constants refer to, in the order of the constants. -/
def protoIndices (constants : List Constant) : List Int :=
  constants.filterMap Constant.protoIndex?

/-- The numbers below `count`, from the greatest down. -/
def countdown (count : Nat) : List Int :=
  (List.range count).reverse.map Int.ofNat

@[simp] theorem length_countdown (count : Nat) : (countdown count).length = count := by
  simp [countdown]

/-- Only a child tag is read as a reference to a child. -/
theorem writtenConstant_yields :
    writtenConstant.Yields fun written => ∀ value ∈ written, value.protoIndex? = none := by
  refine (Yields.any _).bind fun tag _ => ?_
  have htable : table.Yields fun value => value.protoIndex? = none := by
    apply Yields.named
    refine (Yields.any _).bind fun _ _ => (Yields.any _).bind fun _ _ => ?_
    refine (Yields.any _).bind fun slots _ => (Yields.any _).bind fun hash _ => .pure ?_
    cases slots <;> rfl
  have hstring : ∀ firstTag tag, (taggedString firstTag tag).Yields
      fun value => value.protoIndex? = none := by
    intro firstTag tag
    apply Yields.named
    exact (Yields.any _).bind fun _ _ => .pure rfl
  split
  · exact .pure (by simp)
  · exact htable.bind fun value hvalue => .pure (by simpa using hvalue)
  · exact (Yields.any _).bind fun value _ =>
      .pure (by simp [Constant.integer, Constant.protoIndex?])
  · exact (Yields.any _).bind fun value _ =>
      .pure (by simp [Constant.integer, Constant.protoIndex?])
  · exact (Yields.any _).bind fun re _ => (Yields.any _).bind fun im _ =>
      .pure (by simp [Constant.protoIndex?])
  · exact (hstring 5 _).bind fun value hvalue => .pure (by simpa using hvalue)

/-- What written constants add, unless there are too few completed functions. -/
def Progress.extendAll? (progress : Progress) (written : List (Option Constant)) :
    Option Progress :=
  written.foldlM Progress.extend? progress

/-- The children among written constants. -/
def childTags (written : List (Option Constant)) : Nat :=
  written.countP Option.isNone

@[simp] theorem childTags_nil : childTags [] = 0 := rfl

@[simp] theorem childTags_none_cons (rest : List (Option Constant)) :
    childTags (none :: rest) = childTags rest + 1 := by
  simp [childTags]

@[simp] theorem childTags_some_cons (value : Constant) (rest : List (Option Constant)) :
    childTags (some value :: rest) = childTags rest := by
  simp [childTags]

/-- Written constants with their children numbered from `first` on. -/
def numbered : (first : Nat) → List (Option Constant) → List Constant
  | _, [] => []
  | first, none :: rest => .proto first :: numbered (first + 1) rest
  | first, some value :: rest => value :: numbered first rest

/-- The children are taken from the top of the stack, one after the other. -/
theorem Progress.extendAll?_eq (progress : Progress) (written : List (Option Constant)) :
    progress.extendAll? written =
      if childTags written ≤ progress.stack.length then
        some
          { stack := progress.stack.drop (childTags written)
            children := progress.children ++ progress.stack.take (childTags written)
            constants :=
              (numbered progress.children.length written).reverse ++ progress.constants }
      else none := by
  induction written generalizing progress with
  | nil => simp [extendAll?, numbered]
  | cons head rest ih =>
      have hstep : progress.extendAll? (head :: rest) =
          (progress.extend? head).bind fun next => next.extendAll? rest := rfl
      rw [hstep]
      cases head with
      | some value =>
          simp only [extend?, Option.bind_some, ih, push]
          simp [numbered]
      | none =>
          simp only [extend?, adopt?]
          cases hstack : progress.stack with
          | nil => simp
          | cons completed remaining =>
              simp only [Option.bind_some, ih]
              simp [numbered]

theorem protoIndices_numbered {written : List (Option Constant)}
    (hwritten : ∀ entry ∈ written, ∀ value ∈ entry, Constant.protoIndex? value = none)
    (first : Nat) :
    protoIndices (numbered first written) =
      (List.range' first (childTags written)).map Int.ofNat := by
  induction written generalizing first with
  | nil => rfl
  | cons head rest ih =>
      have hrest := ih fun entry hentry => hwritten entry (List.mem_cons_of_mem _ hentry)
      cases head with
      | none => simpa [numbered, protoIndices, Constant.protoIndex?, List.range'_succ] using hrest _
      | some value =>
          have hvalue := hwritten (some value) (List.mem_cons_self ..) value rfl
          simpa [numbered, protoIndices, hvalue] using hrest _

/-- The children of a record are numbered down to zero. -/
theorem protoIndices_reverse_numbered {written : List (Option Constant)}
    (hwritten : ∀ entry ∈ written, ∀ value ∈ entry, Constant.protoIndex? value = none) :
    protoIndices (numbered 0 written).reverse = countdown (childTags written) := by
  have hnumbered := protoIndices_numbered hwritten 0
  rw [protoIndices] at hnumbered
  rw [protoIndices, List.filterMap_reverse, hnumbered, countdown, List.map_reverse,
    List.range_eq_range']

end Jit

namespace Outcome

variable {α : Type}

/-- The failure of a stack with too few functions, or of one with too many at the end. -/
def Unbalanced : Outcome α → Prop
  | .done .. => False
  | .failed failure _ _ => failure.kind = .unbalancedPrototypeStack

/-- A run ends with the expected value or, where the stack has too few functions for one,
with the failure that says so. -/
def Serves (outcome : Outcome α) : (expected : Option α) → Int → List Event → Prop
  | some value, last, trace => outcome = .done value last trace
  | none, _, _ => outcome.Unbalanced

theorem Unbalanced.after {outcome : Outcome α} (houtcome : outcome.Unbalanced)
    (earlier : List Event) : (outcome.after earlier).Unbalanced := by
  cases outcome <;> exact houtcome

theorem Unbalanced.eq_failed {outcome : Outcome α} (houtcome : outcome.Unbalanced) :
    ∃ failure last trace, outcome = .failed failure last trace ∧
      failure.kind = .unbalancedPrototypeStack := by
  cases outcome with
  | done => exact houtcome.elim
  | failed failure last trace => exact ⟨failure, last, trace, rfl, houtcome⟩

theorem Serves.eq_some {outcome : Outcome α} {expected : Option α} {value : α}
    {last last' : Int} {trace trace' : List Event} (hserves : outcome.Serves expected last trace)
    (hdone : outcome = .done value last' trace') : expected = some value := by
  subst hdone
  cases expected with
  | none => exact hserves.elim
  | some expected => exact congrArg some (Outcome.done.inj hserves).1.symm

theorem Serves.after {outcome : Outcome α} {expected : Option α} {last : Int}
    {trace : List Event} (houtcome : outcome.Serves expected last trace) (earlier : List Event) :
    (outcome.after earlier).Serves expected last (earlier ++ trace) := by
  cases expected with
  | none => exact Unbalanced.after houtcome earlier
  | some value =>
      rw [show outcome = _ from houtcome]
      rfl

end Outcome

namespace Decoder

variable {α β : Type} {d : Decoder α} {w : Window} {pos mid last : Int}
  {first second : List Event} {expected : Option α}

theorem unbalanced_bind {next : α → Decoder β} (hd : (d w pos).Unbalanced) :
    ((d >>= next) w pos).Unbalanced := by
  cases hrun : d w pos with
  | done value reached trace =>
      rw [hrun] at hd
      exact hd.elim
  | failed failure reached trace =>
      rw [hrun] at hd
      rw [bind_of_failed hrun]
      exact hd

theorem unbalanced_within {label : Label} (hd : (d w pos).Unbalanced) :
    (within label d w pos).Unbalanced := by
  unfold within
  cases hrun : d w pos <;> rw [hrun] at hd <;> exact hd

theorem serves_bind {next : α → Decoder β} {result : α → Option β}
    (hd : (d w pos).Serves expected mid first)
    (hnext : ∀ value ∈ expected, (next value w mid).Serves (result value) last second) :
    ((d >>= next) w pos).Serves (expected.bind result) last (first ++ second) := by
  cases expected with
  | none => exact unbalanced_bind hd
  | some value =>
      rw [bind_of_done hd]
      exact (hnext value rfl).after first

theorem serves_within {label : Label} (hd : (d w pos).Serves expected mid first) :
    (within label d w pos).Serves expected mid first := by
  cases expected with
  | some value => exact within_eq_done_iff.mpr hd
  | none => exact unbalanced_within hd

theorem serves_inWindow {inner : Window} (hd : (d inner pos).Serves expected mid first) :
    (inWindow inner d w pos).Serves (expected.map (·, mid)) pos first := by
  unfold inWindow
  cases expected with
  | some value =>
      rw [show d inner pos = _ from hd]
      rfl
  | none => cases hrun : d inner pos <;> rw [hrun] at hd <;> exact hd

end Decoder

namespace Jit

open Decoder

variable {h : Header} {w : Window} {pos last : Int} {trace : List Event}

theorem constant_serves {written : Option Constant}
    (hwritten : writtenConstant w pos = .done written last trace) (progress : Progress) :
    (constant progress w pos).Serves (progress.extend? written) last trace := by
  rw [constant, bind_of_done (d := position) rfl, bind_of_done hwritten, Outcome.after_nil]
  cases progress.extend? written with
  | none => rfl
  | some next => simp [pure_apply, Outcome.after, Outcome.Serves]

theorem writtenConstant_of_constant {progress next : Progress}
    (hdone : constant progress w pos = .done next last trace) :
    ∃ written, writtenConstant w pos = .done written last trace := by
  obtain ⟨offset, start, first, second, hposition, hrest, rfl⟩ := bind_eq_done_iff.mp hdone
  obtain ⟨rfl, rfl, rfl⟩ := Outcome.done.inj hposition
  obtain ⟨written, mid, first, second, hwritten, happlied, rfl⟩ := bind_eq_done_iff.mp hrest
  refine ⟨written, ?_⟩
  cases hnext : progress.extend? written with
  | none =>
      rw [hnext] at happlied
      exact absurd happlied not_failAt_eq_done
  | some next =>
      rw [hnext] at happlied
      obtain ⟨-, rfl, rfl⟩ := pure_eq_done_iff.mp happlied
      simpa using hwritten

/-- The constants that one stack allows to read are read with every stack. -/
theorem foldConstants_serves {count index : Nat} {progress next : Progress}
    (hdone : fold (fun index progress => within (.item "constant" index) (constant progress))
      count index progress w pos = .done next last trace) :
    ∃ written : List (Option Constant),
      (∀ entry ∈ written, ∀ value ∈ entry, value.protoIndex? = none) ∧
      ∀ other : Progress,
        (fold (fun index progress => within (.item "constant" index) (constant progress))
          count index other w pos).Serves (other.extendAll? written) last trace := by
  induction count generalizing index progress pos trace with
  | zero =>
      obtain ⟨-, rfl, rfl⟩ := pure_eq_done_iff.mp hdone
      exact ⟨[], by simp, fun other => rfl⟩
  | succ count ih =>
      obtain ⟨mid, reached, first, second, hfirst, hrest, rfl⟩ := bind_eq_done_iff.mp hdone
      obtain ⟨entry, hentry⟩ := writtenConstant_of_constant (within_eq_done_iff.mp hfirst)
      obtain ⟨written, hwritten, hserves⟩ := ih hrest
      refine ⟨entry :: written, ?_, fun other => ?_⟩
      · exact List.forall_mem_cons.mpr ⟨writtenConstant_yields hentry, hwritten⟩
      · exact serves_bind (serves_within (constant_serves hentry other)) fun value _ =>
          hserves value

theorem constants_serves {count : Nat} {stack : List Completed} {progress : Progress}
    (hdone : constants count stack w pos = .done progress last trace) :
    ∃ written : List (Option Constant),
      (∀ entry ∈ written, ∀ value ∈ entry, value.protoIndex? = none) ∧
      ∀ other : List Completed, (constants count other w pos).Serves
        (Progress.extendAll? { stack := other } written) last trace := by
  obtain ⟨_, reached, first, second, hcount, hfold, rfl⟩ :=
    bind_eq_done_iff.mp (within_eq_done_iff.mp hdone)
  obtain ⟨written, hwritten, hserves⟩ := foldConstants_serves hfold
  have hcheck : (checkCount count w pos).Serves (some ()) reached first := hcount
  exact ⟨written, hwritten, fun other =>
    serves_within (serves_bind hcheck fun _ _ => hserves { stack := other })⟩

/-- The number of children that the own fields of a function refer to. -/
def childCount (body : Body) : Nat :=
  (protoIndices body.constants).length

/-- The function with the given own fields over completed children. -/
def Completed.over (body : Body) (children : List Completed) : Completed :=
  ⟨⟨body, children.map (·.prototype)⟩, heightOver children⟩

/-- What the record of a function makes of a stack: the function takes its children from
the top, if there are enough. -/
def complete? (body : Body) (stack : List Completed) : Option (Completed × List Completed) :=
  if childCount body ≤ stack.length then
    some (.over body (stack.take (childCount body)), stack.drop (childCount body))
  else none

/-- Own fields that number their children down to zero. -/
def NumbersChildren (body : Body) : Prop :=
  protoIndices body.constants = countdown (childCount body)

theorem childCount_body {written : List (Option Constant)}
    (hwritten : ∀ entry ∈ written, ∀ value ∈ entry, Constant.protoIndex? value = none)
    (head : RecordHead) (numbers : List Number) (info : DebugInfo) :
    childCount (head.body (numbered 0 written).reverse numbers info) = childTags written := by
  rw [childCount, RecordHead.body, protoIndices_reverse_numbered hwritten, length_countdown]

/-- The parts of a record make the function that takes its children from the stack. -/
theorem fields_serves_of_parts {head : RecordHead} {written : List (Option Constant)}
    {numbers : List Number} {info : DebugInfo} {afterHead afterConstants afterNumbers : Int}
    {headTrace constantTrace numberTrace infoTrace : List Event} {stack : List Completed}
    {limit : Int}
    (hwritten : ∀ entry ∈ written, ∀ value ∈ entry, Constant.protoIndex? value = none)
    (hhead : recordHead h w pos = .done head afterHead headTrace)
    (hconstants : (constants head.constantCount stack w afterHead).Serves
      (Progress.extendAll? { stack } written) afterConstants constantTrace)
    (hnumbers : named "count numeric_constants" (labelledItems "number" head.numberCount number)
      w afterConstants = .done numbers afterNumbers numberTrace)
    (hinfo : debugBlock h head.debugSize head.instructions.length head.numUpvalues.toNat
      head.lineCount w afterNumbers = .done info last infoTrace)
    (hheight : heightOver (stack.take (childTags written)) ≤ limit) :
    (fields h limit stack w pos).Serves
      (complete? (head.body (numbered 0 written).reverse numbers info) stack) last
      (headTrace ++ (constantTrace ++ (numberTrace ++ infoTrace))) := by
  have hcount := childCount_body hwritten head numbers info
  have hfits : complete? (head.body (numbered 0 written).reverse numbers info) stack =
      (Progress.extendAll? { stack } written).bind fun _ =>
        complete? (head.body (numbered 0 written).reverse numbers info) stack := by
    rw [Progress.extendAll?_eq, complete?, hcount]
    split <;> rfl
  rw [hfits, fields, bind_of_done hhead]
  refine (serves_bind hconstants ?_).after _
  intro progress hprogress
  rw [Progress.extendAll?_eq] at hprogress
  split at hprogress
  next henough =>
    cases hprogress
    rw [complete?, hcount, if_pos henough, bind_of_done hnumbers]
    dsimp only
    rw [if_neg (by simpa using hheight), bind_of_done hinfo]
    simp [Outcome.Serves, Outcome.after, pure_apply, Completed.over]
  next => cases hprogress

theorem complete?_eq_some_iff {body : Body} {stack rest : List Completed}
    {completed : Completed} :
    complete? body stack = some (completed, rest) ↔
      childCount body ≤ stack.length ∧
        completed = .over body (stack.take (childCount body)) ∧
        rest = stack.drop (childCount body) := by
  rw [complete?, Option.ite_none_right_eq_some, Option.some.injEq, Prod.mk.injEq, eq_comm,
    eq_comm (a := rest)]

/-- The fields of a record are the same with every stack. -/
theorem fields_serves {limit : Int} {stack : List Completed} {result : Completed × List Completed}
    (hdone : fields h limit stack w pos = .done result last trace) :
    ∃ body, NumbersChildren body ∧ heightOver (stack.take (childCount body)) ≤ limit ∧
      ∀ (other : List Completed) (limit' : Int),
        heightOver (other.take (childCount body)) ≤ limit' →
          (fields h limit' other w pos).Serves (complete? body other) last trace := by
  obtain ⟨head, _, _, _, hhead, hafterHead, rfl⟩ := bind_eq_done_iff.mp hdone
  obtain ⟨progress, _, _, _, hconstants, hafterConstants, rfl⟩ := bind_eq_done_iff.mp hafterHead
  obtain ⟨numbers, _, _, _, hnumbers, hafterNumbers, rfl⟩ := bind_eq_done_iff.mp hafterConstants
  dsimp only at hafterNumbers
  split at hafterNumbers
  next => exact absurd hafterNumbers (by simp)
  next hheight =>
    obtain ⟨info, _, _, _, hinfo, hresult, rfl⟩ := bind_eq_done_iff.mp hafterNumbers
    obtain ⟨-, rfl, rfl⟩ := pure_eq_done_iff.mp hresult
    obtain ⟨written, hwritten, hserves⟩ := constants_serves hconstants
    have hcount := childCount_body hwritten head numbers info
    have happlied := (hserves stack).eq_some hconstants
    rw [Progress.extendAll?_eq, Option.ite_none_right_eq_some] at happlied
    obtain ⟨-, happlied⟩ := happlied
    cases happlied
    refine ⟨head.body (numbered 0 written).reverse numbers info, ?_, ?_, ?_⟩
    · rw [NumbersChildren, hcount]
      exact protoIndices_reverse_numbered hwritten
    · rw [hcount]
      simpa using hheight
    · intro other limit' hlimit
      rw [hcount] at hlimit
      rw [List.append_nil]
      exact fields_serves_of_parts hwritten hhead (hserves other) hnumbers hinfo hlimit

/-- The record of size zero that ends the records. -/
def EndsAt (w : Window) (pos last : Int) : Prop :=
  ∃ trace, varint w pos = .done 0 last trace

/-- A record is the end of the records, or a size and fields that fill it. -/
theorem record_eq_done {limit : Int} {stack : List Completed} {result : Option (List Completed)}
    (hdone : record h limit stack w pos = .done result last trace) :
    (result = none ∧ EndsAt w pos last) ∨
      ∃ (size : Nat) (start : Int) (sizeTrace fieldsTrace : List Event) (completed : Completed)
        (rest : List Completed),
        varint w pos = .done size start sizeTrace ∧ size ≠ 0 ∧ start + size ≤ w.stop ∧
        fields h limit stack ⟨w.data, start + size⟩ start =
          .done (completed, rest) (start + size) fieldsTrace ∧
        result = some (completed :: rest) ∧ last = start + size ∧
        trace = sizeTrace ++ fieldsTrace := by
  rw [record, bind_of_done (d := position) rfl, Outcome.after_nil] at hdone
  obtain ⟨size, start, sizeTrace, _, hsize, hafterSize, rfl⟩ := bind_eq_done_iff.mp hdone
  split at hafterSize
  next hzero =>
    subst hzero
    obtain ⟨rfl, rfl, -⟩ := pure_eq_done_iff.mp hafterSize
    exact .inl ⟨rfl, sizeTrace, hsize⟩
  next hnonzero =>
    rw [bind_of_done (d := position) rfl, Outcome.after_nil] at hafterSize
    obtain ⟨inner, _, _, _, hblock, hafterBlock, rfl⟩ := bind_eq_done_iff.mp hafterSize
    unfold Decoder.limit at hblock
    split at hblock
    next hfits =>
      cases hblock
      obtain ⟨⟨⟨completed, rest⟩, reached⟩, _, fieldsTrace, _, hinner, hafterInner, rfl⟩ :=
        bind_eq_done_iff.mp hafterBlock
      obtain ⟨hfields, rfl⟩ := inWindow_eq_done_iff.mp hinner
      dsimp only at hafterInner
      split at hafterInner
      next => exact absurd hafterInner (by simp)
      next hreached =>
        obtain rfl := Decidable.not_not.mp hreached
        have hskip : skip size w start = .done () (start + size) [] := skip_of_le hfits
        rw [bind_of_done hskip, Outcome.after_nil] at hafterInner
        obtain ⟨rfl, rfl, rfl⟩ := pure_eq_done_iff.mp hafterInner
        exact .inr ⟨size, start, sizeTrace, fieldsTrace, completed, rest, hsize, hnonzero, hfits,
          hfields, rfl, rfl, by simp⟩
    next => exact absurd hblock (by simp [short])

/-- Fields that fill their size make a record. -/
theorem record_serves_of_fields {limit start : Int} {size : Nat} {stack : List Completed}
    {expected : Option (Completed × List Completed)} {sizeTrace fieldsTrace : List Event}
    (hsize : varint w pos = .done size start sizeTrace) (hnonzero : size ≠ 0)
    (hfits : start + size ≤ w.stop)
    (hfields : (fields h limit stack ⟨w.data, start + size⟩ start).Serves expected
      (start + size) fieldsTrace) :
    (record h limit stack w pos).Serves
      (expected.map fun (completed, rest) => some (completed :: rest))
      (start + size) (sizeTrace ++ fieldsTrace) := by
  have hexpected : expected.map (fun (completed, rest) => some (completed :: rest)) =
      (expected.map (·, start + (size : Int))).bind fun (found, _) =>
        some (some (found.1 :: found.2)) := by
    cases expected <;> rfl
  have hblock : Decoder.limit size w start = .done ⟨w.data, start + size⟩ start [] := if_pos hfits
  rw [record, bind_of_done (d := position) rfl, bind_of_done hsize, if_neg hnonzero,
    bind_of_done (d := position) rfl, bind_of_done hblock, hexpected, ← List.append_nil fieldsTrace]
  simp only [Outcome.after_nil]
  refine (serves_bind (serves_inWindow hfields) ?_).after _
  rintro ⟨⟨completed, rest⟩, _⟩ hfound
  obtain ⟨_, -, hfound⟩ := Option.map_eq_some_iff.mp hfound
  cases hfound
  dsimp only
  rw [if_neg (fun hne => hne rfl), bind_of_done (skip_of_le hfits)]
  rfl

/-- A record is read the same with every stack. -/
theorem record_serves {limit : Int} {stack next : List Completed}
    (hdone : record h limit stack w pos = .done (some next) last trace) :
    ∃ body, NumbersChildren body ∧ heightOver (stack.take (childCount body)) ≤ limit ∧
      ∀ (other : List Completed) (limit' : Int),
        heightOver (other.take (childCount body)) ≤ limit' →
          (record h limit' other w pos).Serves
            ((complete? body other).map fun (completed, rest) => some (completed :: rest))
            last trace := by
  rcases record_eq_done hdone with
    ⟨hnone, -⟩ | ⟨size, start, _, _, completed, rest, hsize, hnonzero, hfits, hfields, -, rfl, rfl⟩
  · exact absurd hnone (by simp)
  · obtain ⟨body, hnumbers, hheight, hserves⟩ := fields_serves hfields
    exact ⟨body, hnumbers, hheight, fun other limit' hlimit =>
      record_serves_of_fields hsize hnonzero hfits (hserves other limit' hlimit)⟩

end Jit

end LuaDump
