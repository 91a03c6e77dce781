import Mathlib.Data.List.Forall2
import LuaDump.Proofs.Confinement
import LuaDump.Session

/-! # Actions stay in the windows of a session

An action moves the current cursor forward in its window, opens a narrower cursor in it or goes
back to the cursor around it, and an action with others nested in it does so again and again.
What it comes to depends on no byte outside of the windows, and a field that comes to nothing
changes nothing.
-/

namespace LuaDump

/-- The action and those nested in it. -/
def Action.parts : Action → List Action
  | .items count item label => .items count item label :: item.parts
  | .counted label count item itemLabel =>
    .counted label count item itemLabel :: (count.parts ++ item.parts)
  | action => [action]

/-- The cursors of a session, the innermost first. -/
def Session.cursors (session : Session) : List Cursor :=
  session.current :: session.outer

/-- What becomes of the cursors of a session, the innermost first, under the given actions. -/
inductive Cursor.Leads (actions : List Action) : List Cursor → List Cursor → Prop
  /-- The innermost cursor moves forward in its window, if at all. -/
  | moved {cursor : Cursor} {pos : Int} {around : List Cursor} (hforward : cursor.pos ≤ pos)
      (hinside : pos ≤ cursor.window.stop) :
      Leads actions (cursor :: around) (⟨cursor.window, pos⟩ :: around)
  /-- The innermost cursor is left for the ones around it. -/
  | closed {cursor : Cursor} {around after : List Cursor} (hpop : .pop ∈ actions)
      (hrest : Leads actions around after) : Leads actions (cursor :: around) after
  /-- A cursor is opened over the next `size` bytes, and moves forward in them, if at all. -/
  | opened {outer : Cursor} {before around : List Cursor} {size pos : Int}
      (hlimit : .limit size ∈ actions) (hrest : Leads actions before (outer :: around))
      (hforward : outer.pos ≤ pos) (hinside : pos ≤ outer.pos + size)
      (hstop : outer.pos + size ≤ outer.window.stop) :
      Leads actions before (⟨⟨outer.window.data, outer.pos + size⟩, pos⟩ :: outer :: around)

namespace Cursor.Leads

variable {actions actions' : List Action} {before after last : List Cursor}

theorem mono (hleads : Leads actions before after) (hsubset : actions ⊆ actions') :
    Leads actions' before after := by
  induction hleads with
  | moved hforward hinside => exact .moved hforward hinside
  | closed hpop _ ih => exact .closed (hsubset hpop) ih
  | opened hlimit _ hforward hinside hstop ih =>
      exact .opened (hsubset hlimit) ih hforward hinside hstop

/-- What a cursor comes to after it has moved, it comes to from where it was. -/
theorem of_moved {cursor : Cursor} {pos : Int} {around : List Cursor} (hforward : cursor.pos ≤ pos)
    (hleads : Leads actions (⟨cursor.window, pos⟩ :: around) last) :
    Leads actions (cursor :: around) last := by
  generalize hmid : (⟨cursor.window, pos⟩ :: around : List Cursor) = mid at hleads
  induction hleads with
  | moved hforward' hinside' =>
      obtain ⟨rfl, rfl⟩ := List.cons.inj hmid
      exact .moved (Int.le_trans hforward hforward') hinside'
  | closed hpop hrest _ =>
      obtain ⟨rfl, rfl⟩ := List.cons.inj hmid
      exact .closed hpop hrest
  | opened hlimit _ hforward' hinside' hstop ih =>
      exact .opened hlimit (ih hmid) hforward' hinside' hstop

theorem trans (hfirst : Leads actions before after) (hsecond : Leads actions after last) :
    Leads actions before last := by
  induction hfirst generalizing last with
  | moved hforward _ => exact of_moved hforward hsecond
  | closed hpop _ ih => exact .closed hpop (ih hsecond)
  | @opened outer before around size pos hlimit hrest hforward hinside hstop ih =>
      -- The new cursor moves further, is left again, or has another one opened in it.
      generalize hmid : (⟨⟨outer.window.data, outer.pos + size⟩, pos⟩ :: outer :: around :
        List Cursor) = mid at hsecond
      induction hsecond with
      | moved hforward' hinside' =>
          obtain ⟨rfl, rfl⟩ := List.cons.inj hmid
          exact .opened hlimit hrest (Int.le_trans hforward hforward') hinside' hstop
      | closed _ hrest' _ =>
          obtain ⟨rfl, rfl⟩ := List.cons.inj hmid
          exact ih hrest'
      | opened hlimit' _ hforward' hinside' hstop' ih' =>
          exact .opened hlimit' (ih' hmid) hforward' hinside' hstop'

/-- Where no cursor is opened or left, the innermost one alone moves. -/
theorem eq_moved {cursor : Cursor} {around : List Cursor}
    (hleads : Leads actions (cursor :: around) after) (hlimit : ∀ size, .limit size ∉ actions)
    (hpop : .pop ∉ actions) :
    ∃ pos, cursor.pos ≤ pos ∧ pos ≤ cursor.window.stop ∧
      after = ⟨cursor.window, pos⟩ :: around := by
  cases hleads with
  | moved hforward hinside => exact ⟨_, hforward, hinside, rfl⟩
  | closed hpop' => exact absurd hpop' hpop
  | opened hlimit' => exact absurd hlimit' (hlimit _)

end Cursor.Leads

/-- Cursors at one position that cannot be told apart from there on. -/
structure Cursor.Alike (cursor cursor' : Cursor) : Prop where
  pos_eq : cursor'.pos = cursor.pos
  shifted : Window.Shifted cursor.window cursor.pos cursor'.window cursor.pos

namespace Session

variable {α β : Type} {actions actions' : List Action}

/-- A step and, if it comes to something, another one that follows on its value. -/
def andThen (step : Session → Step α) (next : α → Session → Step β) : Session → Step β :=
  fun session =>
    match step session with
    | (.error fault, session) => (.error fault, session)
    | (.ok value, session) => next value session

theorem collect_succ (item : Nat → Session → Step α) (count index : Nat) :
    collect item (count + 1) index =
      andThen (item index) fun first =>
        andThen (collect item count (index + 1)) fun rest session =>
          (.ok (first :: rest), session) := by
  funext session
  rw [collect, andThen]
  rcases item index session with ⟨_ | first, reached⟩
  · rfl
  · dsimp only
    rw [andThen]
    rcases collect item count (index + 1) reached with ⟨_ | rest, last⟩ <;> rfl

theorem repeated_eq (session : Session) (count : Reading) (item : Session → Step Reading)
    (label : Option String) :
    session.repeated count item label =
      andThen (fun session => session.checkCount count) (fun count =>
        andThen
          (collect (fun index session =>
            match label with
            | some label => (item session).within (.item label index)
            | none => item session) count 0)
          fun readings session => (.ok (.list readings), session)) session := by
  rw [repeated, andThen]
  rcases session.checkCount count with ⟨_ | count, reached⟩
  · rfl
  · dsimp only
    rw [andThen]
    rcases collect _ count 0 reached with ⟨_ | readings, last⟩ <;> rfl

theorem narrow_of_le {session : Session} {size : Int}
    (hle : session.current.pos + size ≤ session.current.window.stop) :
    session.narrow size =
      (.ok .nothing,
        { current := ⟨⟨session.current.window.data, session.current.pos + size⟩,
            session.current.pos⟩
          outer := session.cursors }) := by
  simp only [narrow, run, Decoder.limit, if_pos hle]
  rfl

theorem narrow_of_gt {session : Session} {size : Int}
    (hgt : session.current.window.stop < session.current.pos + size) :
    session.narrow size = session.run (Decoder.short "block" size) := by
  simp only [narrow, run, Decoder.limit, if_neg (Int.not_le.mpr hgt)]
  rfl

/-- Sessions whose cursors cannot be told apart. -/
structure Alike (session session' : Session) : Prop where
  current : session.current.Alike session'.current
  outer : List.Forall₂ Cursor.Alike session.outer session'.outer

/-- The step leads the cursors of a session on, and it gives the same result in sessions that
cannot be told apart, which cannot be told apart afterwards either. -/
def Confined (actions : List Action) (step : Session → Step α) : Prop :=
  ∀ ⦃session session' : Session⦄, session.Alike session' →
    Cursor.Leads actions session.cursors (step session).2.cursors ∧
      (step session').1 = (step session).1 ∧ (step session).2.Alike (step session').2

namespace Confined

variable {step : Session → Step α}

theorem mono (hstep : Confined actions step) (hsubset : actions ⊆ actions') :
    Confined actions' step := by
  intro session session' halike
  obtain ⟨hleads, hsame⟩ := hstep halike
  exact ⟨hleads.mono hsubset, hsame⟩

/-- A result that leaves the session as it is. -/
theorem stay (result : Except Fault α) : Confined actions fun session => (result, session) := by
  intro session session' halike
  exact ⟨.moved (Int.le_refl _) halike.current.shifted.inside, rfl, halike⟩

theorem run {d : Decoder α} (hd : d.Confined) : Confined actions fun session => session.run d := by
  intro session session' halike
  obtain ⟨hle, hstop, hsame⟩ := hd halike.current.shifted
  have hpos := halike.current.pos_eq
  simp only [Session.run, hpos, hsame]
  refine ⟨.moved hle hstop, trivial, ⟨rfl, ?_⟩, halike.outer⟩
  exact halike.current.shifted.moveTo hle hstop

theorem andThen {next : α → Session → Step β} (hstep : Confined actions step)
    (hnext : ∀ value, Confined actions (next value)) :
    Confined actions (Session.andThen step next) := by
  intro session session' halike
  obtain ⟨hleads, hresult, hafter⟩ := hstep halike
  unfold Session.andThen
  rcases hfirst : step session with ⟨result, reached⟩
  rcases hfirst' : step session' with ⟨result', reached'⟩
  rw [hfirst, hfirst'] at hresult hafter
  rw [hfirst] at hleads
  obtain rfl : result' = result := hresult
  cases result' with
  | error fault => exact ⟨hleads, rfl, hafter⟩
  | ok value =>
      obtain ⟨hleads', hrest⟩ := hnext value hafter
      exact ⟨hleads.trans hleads', hrest⟩

theorem within (hstep : Confined actions step) (label : Label) :
    Confined actions fun session => (step session).within label := by
  intro session session' halike
  obtain ⟨hleads, hresult, hafter⟩ := hstep halike
  exact ⟨hleads, congrArg (Except.mapError (Fault.push label)) hresult, hafter⟩

/-- A step that depends on how many bytes are left. -/
theorem of_remaining {step : Int → Session → Step α}
    (hstep : ∀ left, Confined actions (step left)) :
    Confined actions fun session =>
      step (session.current.window.remaining session.current.pos) session := by
  intro session session' halike
  dsimp only
  rw [halike.current.pos_eq, ← halike.current.shifted.remaining_eq]
  exact hstep _ halike

/-- A declared count that fits, or does not. -/
theorem declare (declared : String) (fits : Bool) (left : Int) (count : Nat) :
    Confined actions fun session =>
      if fits then (.ok count, session)
      else session.run (Decoder.fail (.shortSequence declared left)) := by
  cases fits with
  | true => exact stay (.ok count)
  | false => exact run (.fail _)

theorem checkCount (count : Reading) :
    Confined actions fun session => session.checkCount count := by
  cases count with
  | integer count =>
      exact of_remaining fun left => declare (toString count) (count ≤ left) left count.toNat
  | flag value =>
      exact of_remaining fun left => declare (if value then "True" else "False")
        ((if value then 1 else 0) ≤ left) left (if value then 1 else 0)
  | float value =>
      have hstep : ∀ left, Confined actions fun session =>
          if value.exceeds left then
            if false then (.ok 0, session)
            else session.run (Decoder.fail (.shortSequence value.text left))
          else (.error (.misuse .count), session) := by
        intro left
        split
        · exact declare value.text false left 0
        · exact stay _
      exact of_remaining hstep
  | nothing => exact stay _
  | bytes => exact stay _
  | list => exact stay _

theorem collect {item : Nat → Session → Step α} (hitem : ∀ index, Confined actions (item index))
    (count index : Nat) : Confined actions (collect item count index) := by
  induction count generalizing index with
  | zero => exact stay (.ok [])
  | succ count ih =>
      rw [collect_succ]
      exact (hitem index).andThen fun first => (ih (index + 1)).andThen fun rest => stay _

theorem repeated {item : Session → Step Reading} (hitem : Confined actions item) (count : Reading)
    (label : Option String) :
    Confined actions fun session => session.repeated count item label := by
  simp only [repeated_eq]
  refine (checkCount count).andThen fun count => ?_
  refine (collect (fun index => ?_) count 0).andThen fun readings => stay _
  cases label with
  | none => exact hitem
  | some label => exact hitem.within _

theorem narrow {size : Int} (hsize : 0 ≤ size) (hlimit : .limit size ∈ actions) :
    Confined actions fun session => session.narrow size := by
  intro session session' halike
  have hshifted := halike.current.shifted
  have hpos := halike.current.pos_eq
  have hstop := hshifted.stop_eq
  dsimp only
  by_cases hle : session.current.pos + size ≤ session.current.window.stop
  · rw [narrow_of_le hle, narrow_of_le (by omega)]
    refine ⟨?_, rfl, ⟨hpos, ?_⟩, .cons halike.current halike.outer⟩
    · exact .opened hlimit (.moved (Int.le_refl _) hshifted.inside) (Int.le_refl _) (by omega) hle
    · rw [hpos]
      have hnarrow := hshifted.narrow (by omega : session.current.pos + size.toNat ≤ _)
      rwa [Int.toNat_of_nonneg hsize] at hnarrow
  · have hgt : session.current.window.stop < session.current.pos + size := Int.not_le.mp hle
    rw [narrow_of_gt hgt, narrow_of_gt (by omega : session'.current.window.stop < _)]
    exact run (.short "block" size) halike

theorem widen (hpop : .pop ∈ actions) (result : Except Fault α) :
    Confined actions fun session => (result, session.widen) := by
  intro session session' halike
  obtain ⟨current, outer⟩ := session
  obtain ⟨current', outer'⟩ := session'
  obtain ⟨hcurrent, houter⟩ := halike
  cases houter with
  | nil => exact ⟨.moved (Int.le_refl _) hcurrent.shifted.inside, rfl, hcurrent, .nil⟩
  | cons hfirst hrest =>
      exact ⟨.closed hpop (.moved (Int.le_refl _) hfirst.shifted.inside), rfl, hfirst, hrest⟩

end Confined

end Session

theorem Operation.confined (operation : Operation) : operation.decoder.Confined := by
  cases operation with
  | canRead count => exact Decoder.confined_remaining.map _
  | remaining => exact Decoder.confined_remaining.map _
  | peekByte => exact Decoder.confined_peekByte.map _
  | nextByte => exact Decoder.confined_nextByte.map _
  | take count => exact (Decoder.confined_take count).map _
  | skip count => exact (Decoder.confined_skip count).map _
  | unsigned width bigEndian => exact (Decoder.confined_unsigned width bigEndian).map _
  | signed width bigEndian => exact (Decoder.confined_signed width bigEndian).map _
  | float width bigEndian => exact (Decoder.confined_float width bigEndian).map _
  | single => exact Decoder.confined_single.map _
  | checkCount count => exact (Decoder.confined_checkCount count).map _
  | numericHead => exact Decoder.confined_numericHead.map _
  | highGroups limit => exact (Decoder.confined_highGroups limit).map _

namespace Action

open Session

theorem perform_counted (label : String) (count item : Action) (itemLabel : Option String) :
    (counted label count item itemLabel).perform = fun session =>
      (andThen count.perform (fun declared session =>
        session.repeated declared item.perform itemLabel) session).within (.named label) := by
  funext session
  rw [perform, andThen]
  rcases count.perform session with ⟨_ | declared, reached⟩ <;> rfl

/-- A negative number of bits is noticed behind the first byte. -/
theorem perform_lowGroups_of_neg {bits : Int} (hbits : bits < 0) :
    (lowGroups bits).perform =
      andThen (fun session => session.run Decoder.nextByte) fun _ session =>
        (.error (.misuse .bits), session) := by
  funext session
  rw [perform, if_neg (Int.not_le.mpr hbits), andThen]
  rcases session.run Decoder.nextByte with ⟨_ | b, reached⟩ <;> rfl

/-- An action stays in the windows of a session, by induction on the actions nested in it. -/
theorem confined (action : Action)
    (hlimits : ∀ size, limit size ∈ action.parts → 0 ≤ size) :
    Session.Confined action.parts action.perform := by
  induction action with
  | read operation => exact .run operation.confined
  | takeUntil terminator =>
      by_cases hbyte : 0 ≤ terminator ∧ terminator < 256
      · have hperform : (takeUntil terminator).perform = fun session =>
            session.run (Reading.bytes <$> Decoder.takeUntil (UInt8.ofNat terminator.toNat)) :=
          funext fun _ => if_pos hbyte
        rw [hperform]
        exact .run ((Decoder.confined_takeUntil _).map _)
      · have hperform : (takeUntil terminator).perform = fun session =>
            (.error (.misuse .terminator), session) :=
          funext fun _ => if_neg hbyte
        rw [hperform]
        exact .stay _
  | lowGroups bits =>
      by_cases hbits : 0 ≤ bits
      · have hperform : (lowGroups bits).perform = fun session =>
            session.run ((fun (value : Nat) => Reading.integer value) <$>
              Decoder.lowGroups bits.toNat) :=
          funext fun _ => if_pos hbits
        rw [hperform]
        exact .run ((Decoder.confined_lowGroups _).map _)
      · rw [perform_lowGroups_of_neg (Int.not_le.mp hbits)]
        exact .andThen (.run Decoder.confined_nextByte) fun _ => .stay _
  | items count item label ih =>
      have hitem := ih fun size hsize => hlimits size (List.mem_cons_of_mem _ hsize)
      exact .repeated (hitem.mono (List.subset_cons_self _ _)) (.integer count) label
  | counted label count item itemLabel ihcount ihitem =>
      have hcount := ihcount fun size hsize =>
        hlimits size (List.mem_cons_of_mem _ (List.mem_append_left _ hsize))
      have hitem := ihitem fun size hsize =>
        hlimits size (List.mem_cons_of_mem _ (List.mem_append_right _ hsize))
      rw [perform_counted]
      refine .within (.andThen (hcount.mono fun part hpart => ?_) fun declared =>
        .repeated (hitem.mono fun part hpart => ?_) declared itemLabel) _
      · exact List.mem_cons_of_mem _ (List.mem_append_left _ hpart)
      · exact List.mem_cons_of_mem _ (List.mem_append_right _ hpart)
  | limit size => exact .narrow (hlimits size List.mem_cons_self) List.mem_cons_self
  | pop => exact .widen List.mem_cons_self _

/-- The action reads a single field, or opens a cursor. -/
def isField : Action → Bool
  | .read operation =>
    match operation with
    | .peekByte | .nextByte | .take _ | .skip _ => true
    | .unsigned _ _ | .signed _ _ | .float _ _ | .single => true
    | .canRead _ | .remaining | .checkCount _ | .numericHead | .highGroups _ => false
  | .takeUntil _ | .limit _ => true
  | .lowGroups _ | .items _ _ _ | .counted _ _ _ _ | .pop => false

end Action

namespace Session

theorem run_of_failed {α : Type} {d : Decoder α} (hd : d.FailsInPlace) {session : Session}
    {fault : Fault} (hfault : (session.run d).1 = .error fault) : (session.run d).2 = session := by
  simp only [run] at hfault ⊢
  cases houtcome : d session.current.window session.current.pos with
  | done value last trace =>
      rw [houtcome] at hfault
      exact absurd hfault nofun
  | failed failure last trace =>
      obtain rfl := hd houtcome
      rfl

end Session

/-- A field that comes to nothing leaves the session as it was. -/
theorem Action.perform_field {action : Action} (hfield : action.isField) {session : Session}
    {fault : Fault} (hfault : (action.perform session).1 = .error fault) :
    (action.perform session).2 = session := by
  cases action with
  | read operation =>
      refine Session.run_of_failed ?_ hfault
      cases operation with
      | peekByte => exact Decoder.failsInPlace_peekByte.map _
      | nextByte => exact Decoder.failsInPlace_nextByte.map _
      | take count => exact (Decoder.failsInPlace_take count).map _
      | skip count => exact (Decoder.failsInPlace_skip count).map _
      | unsigned width bigEndian => exact (Decoder.failsInPlace_unsigned width bigEndian).map _
      | signed width bigEndian => exact (Decoder.failsInPlace_signed width bigEndian).map _
      | float width bigEndian => exact (Decoder.failsInPlace_float width bigEndian).map _
      | single => exact Decoder.failsInPlace_single.map _
      | _ => simp [isField] at hfield
  | takeUntil terminator =>
      rw [perform] at hfault ⊢
      split at hfault
      next hbyte =>
        rw [if_pos hbyte]
        exact Session.run_of_failed ((Decoder.failsInPlace_takeUntil _).map _) hfault
      next hbyte => rw [if_neg hbyte]
  | limit size =>
      rw [perform] at hfault ⊢
      by_cases hle : session.current.pos + size ≤ session.current.window.stop
      · rw [Session.narrow_of_le hle] at hfault
        exact absurd hfault nofun
      · rw [Session.narrow_of_gt (Int.not_le.mp hle)]
        rfl
  | _ => simp [isField] at hfield

end LuaDump
