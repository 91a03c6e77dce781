import LuaDump.Proofs.Confinement.Action

/-! # Sessions see nothing but their window

A session that starts with one cursor stays in the window of that cursor, request after request.
Two files that hold the same bytes between the position and the end of the window answer every
sequence of requests alike.
-/

namespace LuaDump

/-- The cursor stands in its window, which ends inside the file. -/
structure Cursor.Inside (cursor : Cursor) : Prop where
  nonneg : 0 ≤ cursor.pos
  inWindow : cursor.pos ≤ cursor.window.stop
  inFile : cursor.window.stop ≤ cursor.window.data.size

/-- The position of a cursor and the end of its window. -/
def Cursor.bounds (cursor : Cursor) : Int × Int :=
  (cursor.pos, cursor.window.stop)

theorem Cursor.Alike.bounds_eq {cursor cursor' : Cursor} (halike : cursor.Alike cursor') :
    cursor'.bounds = cursor.bounds := by
  rw [bounds, bounds, halike.pos_eq, halike.shifted.stop_eq]

/-- An action that is asked for inside labels, the first label outermost. -/
structure Request where
  labels : List Label
  action : Action

/-- A request to a session, what came of it, and the session after it. -/
structure Turn where
  request : Request
  before : Session
  result : Except Fault Reading
  after : Session

/-- What can be observed of a turn: its result, and afterwards the position of every cursor and
the end of its window. -/
def Turn.answer (turn : Turn) : Except Fault Reading × List (Int × Int) :=
  (turn.result, turn.after.cursors.map Cursor.bounds)

/-- The turn keeps to the windows of the session. -/
structure Turn.Confined (turn : Turn) : Prop where
  /-- The cursors are led on, and every cursor that stays keeps its window. -/
  leads : Cursor.Leads turn.request.action.parts turn.before.cursors turn.after.cursors
  /-- If no cursor is opened or left, only the position of the current one changes. It lies
  between the old position and the end of the window. -/
  moves : (∀ size, .limit size ∉ turn.request.action.parts) → .pop ∉ turn.request.action.parts →
    ∃ pos, turn.before.current.pos ≤ pos ∧ pos ≤ turn.before.current.window.stop ∧
      turn.after = { turn.before with current.pos := pos }
  /-- A field that comes to nothing leaves the session as it was. -/
  inPlace : turn.request.action.isField → ∀ fault, turn.result = .error fault →
    turn.after = turn.before

namespace Session

/-- The turns that a session takes on a sequence of requests. -/
def turns (session : Session) : List Request → List Turn
  | [] => []
  | request :: rest =>
    let step := session.perform request.labels request.action
    ⟨request, session, step.1, step.2⟩ :: step.2.turns rest

theorem Confined.perform {action : Action} {actions : List Action}
    (haction : Confined actions action.perform) (labels : List Label) :
    Confined actions fun session => session.perform labels action := by
  induction labels with
  | nil => exact haction
  | cons label rest ih => exact ih.within label

theorem Step.exists_error_of_within {α : Type} {label : Label} {step : Step α} {fault : Fault}
    (hfault : (step.within label).1 = .error fault) : ∃ inner, step.1 = .error inner := by
  obtain ⟨result, session⟩ := step
  cases result with
  | error inner => exact ⟨inner, rfl⟩
  | ok value => exact absurd hfault nofun

/-- Labels change neither whether an action comes to something nor where it leaves the session. -/
theorem perform_eq_error {session : Session} {labels : List Label} {action : Action} {fault : Fault}
    (hfault : (session.perform labels action).1 = .error fault) :
    (∃ inner, (action.perform session).1 = .error inner) ∧
      (session.perform labels action).2 = (action.perform session).2 := by
  induction labels generalizing fault with
  | nil => exact ⟨⟨fault, hfault⟩, rfl⟩
  | cons label rest ih =>
      obtain ⟨inner, hinner⟩ := Step.exists_error_of_within hfault
      exact ih hinner

theorem Alike.bounds_eq {session session' : Session} (halike : session.Alike session') :
    session'.cursors.map Cursor.bounds = session.cursors.map Cursor.bounds := by
  obtain ⟨current, outer⟩ := session
  obtain ⟨current', outer'⟩ := session'
  obtain ⟨hcurrent, houter⟩ := halike
  dsimp only at hcurrent houter
  have hmap : outer'.map Cursor.bounds = outer.map Cursor.bounds := by
    induction houter with
    | nil => rfl
    | cons hfirst _ ih => rw [List.map_cons, List.map_cons, hfirst.bounds_eq, ih]
  rw [cursors, cursors, List.map_cons, List.map_cons, hcurrent.bounds_eq, hmap]

theorem turn_confined {session : Session} {request : Request}
    (hleads : Cursor.Leads request.action.parts session.cursors
      (session.perform request.labels request.action).2.cursors) :
    Turn.Confined ⟨request, session, (session.perform request.labels request.action).1,
      (session.perform request.labels request.action).2⟩ where
  leads := hleads
  moves := by
    intro hlimit hpop
    obtain ⟨pos, hforward, hinside, hcursors⟩ := hleads.eq_moved hlimit hpop
    obtain ⟨hcurrent, houter⟩ := List.cons.inj hcursors
    refine ⟨pos, hforward, hinside, ?_⟩
    dsimp only
    rw [← hcurrent, ← houter]
  inPlace := by
    intro hfield fault hfault
    obtain ⟨⟨inner, hinner⟩, hafter⟩ := perform_eq_error hfault
    exact hafter.trans (Action.perform_field hfield hinner)

/-- Every turn is confined, and sessions that cannot be told apart stay so, turn by turn. -/
theorem turns_alike {session session' : Session} (halike : session.Alike session')
    (requests : List Request)
    (hlimits : ∀ request ∈ requests, ∀ size, .limit size ∈ request.action.parts → 0 ≤ size) :
    (∀ turn ∈ session.turns requests, turn.Confined) ∧
      (session'.turns requests).map Turn.answer = (session.turns requests).map Turn.answer := by
  induction requests generalizing session session' with
  | nil => exact ⟨fun _ hturn => absurd hturn List.not_mem_nil, rfl⟩
  | cons request rest ih =>
      have haction := request.action.confined (hlimits request List.mem_cons_self)
      obtain ⟨hleads, hresult, hafter⟩ := haction.perform request.labels halike
      obtain ⟨hturns, hanswers⟩ := ih hafter fun other hother =>
        hlimits other (List.mem_cons_of_mem _ hother)
      refine ⟨fun turn hturn => ?_, ?_⟩
      · rcases List.mem_cons.mp hturn with rfl | hrest
        · exact turn_confined hleads
        · exact hturns turn hrest
      · simp only [turns, List.map_cons, hanswers, Turn.answer, hresult, hafter.bounds_eq]

/-- The first cursors over two files that agree between the position and the end of the window. -/
theorem alike_start {cursor : Cursor} (hcursor : cursor.Inside) {data : Array UInt8}
    (hsize : data.size = cursor.window.data.size)
    (hagree : ∀ i : Nat, cursor.pos ≤ i → (i : Int) < cursor.window.stop →
      data[i]? = cursor.window.data[i]?) :
    Alike { current := cursor } { current := ⟨⟨data, cursor.window.stop⟩, cursor.pos⟩ } := by
  have hnonneg := hcursor.nonneg
  have hinside := hcursor.inWindow
  have hfile := hcursor.inFile
  have hstop : 0 ≤ cursor.window.stop := Int.le_trans hnonneg hinside
  have hshifted :
      Window.Shifted cursor.window cursor.pos ⟨data, cursor.window.stop⟩ cursor.pos := by
    refine ⟨⟨hstop, hfile⟩, ⟨hstop, hsize ▸ hfile⟩, hnonneg, hnonneg, hinside, rfl, fun i hi => ?_⟩
    exact (hagree _ (by omega) (by omega)).symm
  exact ⟨⟨rfl, hshifted⟩, .nil⟩

/-- A session that starts inside a window stays there and sees nothing else, whatever it is asked
for. At every turn each cursor keeps its window and moves forward in it, if at all, a new cursor
stands in what is left of the one around it, and a field that comes to nothing leaves the session
as it was. A file of the same size with the same bytes between the position and the end of the
window gives the same answer at every turn. -/
theorem turns_confined {cursor : Cursor} (hcursor : cursor.Inside) (requests : List Request)
    (hlimits : ∀ request ∈ requests, ∀ size, .limit size ∈ request.action.parts → 0 ≤ size) :
    (∀ turn ∈ turns { current := cursor } requests, turn.Confined) ∧
      ∀ data : Array UInt8, data.size = cursor.window.data.size →
        (∀ i : Nat, cursor.pos ≤ i → (i : Int) < cursor.window.stop →
          data[i]? = cursor.window.data[i]?) →
        (turns { current := ⟨⟨data, cursor.window.stop⟩, cursor.pos⟩ } requests).map Turn.answer =
          (turns { current := cursor } requests).map Turn.answer := by
  constructor
  · have hself := alike_start hcursor rfl fun _ _ _ => rfl
    exact (turns_alike hself requests hlimits).1
  · intro data hsize hagree
    exact (turns_alike (alike_start hcursor hsize hagree) requests hlimits).2

/-- A cursor over five bytes in the middle of a file. -/
def middleCursor : Cursor :=
  ⟨⟨#[0xAA, 0xBB, 2, 7, 0, 9, 1, 0xCC, 0xDD], 7⟩, 2⟩

def middleRequests : List Request :=
  [⟨[.named "head"], .counted "pair" (.read .nextByte) (.read .nextByte) (some "item")⟩,
    ⟨[], .limit 1⟩, ⟨[], .read (.take 2)⟩, ⟨[], .takeUntil 9⟩, ⟨[], .pop⟩,
    ⟨[], .items 2 (.items 1 (.read (.unsigned 2 false)) none) (some "word")⟩]

/-- What stands before and behind the window is not seen: a nested read, a block in the window
with a field that does not fit into it, and a list that ends too early give the same answers. -/
theorem turns_confined_middleRequests :
    middleCursor.Inside ∧
    (∀ turn ∈ turns { current := middleCursor } middleRequests, turn.Confined) ∧
    (turns { current := ⟨⟨#[0, 0, 2, 7, 0, 9, 1, 0, 0], 7⟩, 2⟩ } middleRequests).map Turn.answer =
      [(.ok (.list [.integer 7, .integer 0]), [(5, 7)]),
        (.ok .nothing, [(5, 6), (5, 7)]),
        (.error (.failure ⟨.shortField "data" 2 5 1, 5, []⟩), [(5, 6), (5, 7)]),
        (.ok (.bytes []), [(6, 6), (5, 7)]),
        (.ok .nothing, [(5, 7)]),
        (.error (.failure ⟨.shortSequence (toString (1 : Int)) 0, 7, [.item "word" 1]⟩),
          [(7, 7)])] := by
  have hcursor : middleCursor.Inside := ⟨by decide, by decide, by decide⟩
  have hlimits : ∀ request ∈ middleRequests, ∀ size,
      .limit size ∈ request.action.parts → 0 ≤ size := by
    simp [middleRequests, Action.parts]
  obtain ⟨hturns, hsame⟩ := turns_confined hcursor middleRequests hlimits
  refine ⟨hcursor, hturns, ?_⟩
  refine (hsame #[0, 0, 2, 7, 0, 9, 1, 0, 0] rfl fun i hi hi' => ?_).trans rfl
  have hle : (2 : Int) ≤ i := hi
  have hlt : (i : Int) < 7 := hi'
  obtain rfl | rfl | rfl | rfl | rfl : i = 2 ∨ i = 3 ∨ i = 4 ∨ i = 5 ∨ i = 6 := by omega
  all_goals rfl

end Session

end LuaDump
