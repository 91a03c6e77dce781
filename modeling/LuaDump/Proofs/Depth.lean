import LuaDump.Proofs.Jit.Reconstruction
import LuaDump.Proofs.Raising.Record

/-! # The depth limit only cuts

Two runs with different limits are compared step by step. They are the same as long as the
stricter run does not go too deep. Where it does, the looser run may go on, but the function
that was too deep for the stricter run stays part of what is read, except in a Luau dump, whose
functions need not belong to the main one.
-/

namespace LuaDump

open Decoder

namespace Outcome

variable {α : Type}

/-- Functions are nested deeper than the limit. -/
def TooDeep : Outcome α → Prop
  | .done .. => False
  | .failed failure _ _ => failure.kind = .depthExceeded

theorem TooDeep.after {outcome : Outcome α} (hdeep : outcome.TooDeep) (earlier : List Event) :
    (outcome.after earlier).TooDeep := by
  cases outcome <;> exact hdeep

theorem TooDeep.eq_failed {outcome : Outcome α} (hdeep : outcome.TooDeep) :
    ∃ failure pos trace, outcome = .failed failure pos trace ∧ failure.kind = .depthExceeded := by
  cases outcome with
  | done value pos trace => exact hdeep.elim
  | failed failure pos trace => exact ⟨failure, pos, trace, rfl, hdeep⟩

end Outcome

namespace Decoder

variable {α β σ : Type} {room : Nat} {w : Window} {pos : Int} {fits : α → Prop}
  {fits' : β → Prop} {strict loose : Decoder α}

/-- The two decoders end in the same way, unless the first one goes too deep, and then the
second one does not come back with a value that fits. -/
def CutsAt (fits : α → Prop) (strict loose : Decoder α) (w : Window) (pos : Int) : Prop :=
  strict w pos = loose w pos ∨ ((strict w pos).TooDeep ∧
    ∀ {value last trace}, loose w pos = .done value last trace → ¬ fits value)

/-- `CutsAt` wherever at most `room` bytes are left. -/
def Cuts (room : Nat) (fits : α → Prop) (strict loose : Decoder α) : Prop :=
  ∀ ⦃w pos⦄, Place room w pos → CutsAt fits strict loose w pos

theorem CutsAt.bind {next next' : α → Decoder β} (hd : CutsAt fits strict loose w pos)
    (hnext : ∀ {value mid trace}, loose w pos = .done value mid trace →
      CutsAt fits' (next value) (next' value) w mid)
    (hunfit : ∀ {value mid trace}, loose w pos = .done value mid trace → ¬ fits value →
      ∀ {result last trace'}, next' value w mid = .done result last trace' → ¬ fits' result) :
    CutsAt fits' (strict >>= next) (loose >>= next') w pos := by
  rcases hd with hsame | ⟨hdeep, hfirst⟩
  · cases hloose : loose w pos with
    | failed failure last trace =>
        left
        rw [bind_of_failed (hsame.trans hloose), bind_of_failed hloose]
    | done value mid trace =>
        rw [CutsAt, bind_of_done (hsame.trans hloose), bind_of_done hloose]
        rcases hnext hloose with hrest | ⟨hdeep, hsecond⟩
        · exact .inl (by rw [hrest])
        · refine .inr ⟨hdeep.after trace, fun hdone => ?_⟩
          obtain ⟨later, hlater, -⟩ := Outcome.after_eq_done_iff.mp hdone
          exact hsecond hlater
  · obtain ⟨failure, last, trace, hfailed, hkind⟩ := hdeep.eq_failed
    refine .inr ⟨?_, fun hdone => ?_⟩
    · rw [bind_of_failed hfailed]
      exact hkind
    · obtain ⟨value, mid, first, second, hvalue, hresult, -⟩ := bind_eq_done_iff.mp hdone
      exact hunfit hvalue (hfirst hvalue) hresult

theorem CutsAt.within {label : Label} (hd : CutsAt fits strict loose w pos) :
    CutsAt fits (Decoder.within label strict) (Decoder.within label loose) w pos := by
  rcases hd with hsame | ⟨hdeep, hunfit⟩
  · left
    rw [Decoder.within, Decoder.within, hsame]
  · obtain ⟨failure, last, trace, hfailed, hkind⟩ := hdeep.eq_failed
    refine .inr ⟨?_, fun hdone => hunfit (within_eq_done_iff.mp hdone)⟩
    rw [within_eq_failed_iff.mpr ⟨failure, hfailed, rfl⟩]
    exact hkind

theorem CutsAt.inWindow {inner : Window} (hd : CutsAt fits strict loose inner pos) :
    CutsAt (fun found => fits found.1) (Decoder.inWindow inner strict)
      (Decoder.inWindow inner loose) w pos := by
  rcases hd with hsame | ⟨hdeep, hunfit⟩
  · left
    rw [Decoder.inWindow, Decoder.inWindow, hsame]
  · obtain ⟨failure, last, trace, hfailed, hkind⟩ := hdeep.eq_failed
    refine .inr ⟨?_, fun hdone => hunfit (inWindow_eq_done_iff.mp hdone).1⟩
    rw [Decoder.inWindow, hfailed]
    exact hkind

namespace Cuts

theorem refl (d : Decoder α) : Cuts room fits d d :=
  fun _ _ _ => .inl rfl

theorem mono {fewer : α → Prop} (hd : Cuts room fits strict loose)
    (himp : ∀ value, fewer value → fits value) : Cuts room fewer strict loose := by
  intro w pos hplace
  rcases hd hplace with hsame | ⟨hdeep, hunfit⟩
  · exact .inl hsame
  · exact .inr ⟨hdeep, fun hdone hfewer => hunfit hdone (himp _ hfewer)⟩

/-- What does not fit keeps the result from fitting. -/
theorem bind {least : Nat} {next next' : α → Decoder β} (hsettles : loose.Settles least)
    (hd : Cuts room fits strict loose)
    (hnext : ∀ value, Cuts room fits' (next value) (next' value))
    (hunfit : ∀ value, ¬ fits value → (next' value).Delivers room fun result => ¬ fits' result) :
    Cuts room fits' (strict >>= next) (loose >>= next') := by
  intro w pos hplace
  have hmid : ∀ {value mid trace}, loose w pos = .done value mid trace → Place room w mid := by
    intro value mid trace hdone
    obtain ⟨hpassed, hinside⟩ := hsettles.passed hplace hdone
    exact hplace.next (by omega) hinside
  apply (hd hplace).bind
  · exact fun hdone => hnext _ (hmid hdone)
  · exact fun hdone hvalue _ _ _ hresult => (hunfit _ hvalue (hmid hdone) hresult).2.2

theorem bind_same {least : Nat} {next next' : α → Decoder β} (hsettles : loose.Settles least)
    (hnext : ∀ value, Cuts room fits' (next value) (next' value)) :
    Cuts room fits' (loose >>= next) (loose >>= next') := by
  have hsame : Cuts room (fun _ => True) loose loose := refl loose
  exact hsame.bind hsettles hnext fun _ hvalue => absurd trivial hvalue

theorem checkCount_bind {count : Int} {next next' : Unit → Decoder α}
    (hnext : Cuts room fits (next ()) (next' ())) :
    Cuts room fits (checkCount count >>= next) (checkCount count >>= next') := by
  intro w pos hplace
  by_cases hcount : count ≤ w.remaining pos
  · have hdone : checkCount count w pos = .done () pos [] := if_pos hcount
    rw [CutsAt, bind_of_done hdone, bind_of_done hdone, Outcome.after_nil, Outcome.after_nil]
    exact hnext hplace
  · left
    have hfailed : checkCount count w pos =
        .failed ⟨.shortSequence (toString count) (w.remaining pos), pos, []⟩ pos [] :=
      if_neg hcount
    rw [bind_of_failed hfailed, bind_of_failed hfailed]

/-- Where nothing fits, it is enough that the parts are cut. -/
theorem bind_never {least : Nat} {next next' : α → Decoder β} (hsettles : loose.Settles least)
    (hd : Cuts room (fun _ => False) strict loose)
    (hnext : ∀ value, Cuts room (fun _ => False) (next value) (next' value)) :
    Cuts room (fun _ => False) (strict >>= next) (loose >>= next') := by
  intro w pos hplace
  apply (hd hplace).bind
  · intro value mid trace hdone
    obtain ⟨hpassed, hinside⟩ := hsettles.passed hplace hdone
    exact hnext value (hplace.next (by omega) hinside)
  · exact fun _ _ _ _ _ _ => id

theorem within (hd : Cuts room fits strict loose) (label : Label) :
    Cuts room fits (Decoder.within label strict) (Decoder.within label loose) :=
  fun _ _ hplace => (hd hplace).within

theorem collect {item item' : Nat → Decoder α} (hsettles : ∀ index, (item' index).Settles 1)
    (hitem : ∀ index, Cuts room fits (item index) (item' index)) (count index : Nat) :
    Cuts room (fun values => ∀ value ∈ values, fits value) (Decoder.collect item count index)
      (Decoder.collect item' count index) := by
  induction count generalizing index with
  | zero => exact refl _
  | succ count ih =>
      apply (hitem index).bind (hsettles index)
      · intro first
        apply (ih (index + 1)).bind (settles_collect hsettles _ _)
        · exact fun rest => refl _
        · intro rest hrest
          refine .pure fun hall => hrest ?_
          exact (List.forall_mem_cons.mp hall).2
      · intro first hfirst
        refine .skip (settles_collect hsettles _ _) fun rest => .pure fun hall => hfirst ?_
        exact (List.forall_mem_cons.mp hall).1

theorem countedLabelled {least : Nat} {count : Decoder Int} {item item' : Decoder α}
    (label itemLabel : String) (hcount : count.Settles least) (hsettles : item'.Settles 1)
    (hitem : Cuts room fits item item') :
    Cuts room (fun values => ∀ value ∈ values, fits value)
      (Decoder.countedLabelled label itemLabel count item)
      (Decoder.countedLabelled label itemLabel count item') := by
  refine .within (.bind_same hcount fun declared => .checkCount_bind ?_) _
  exact collect (fun index => hsettles.within (.item itemLabel index))
    (fun index => hitem.within (.item itemLabel index)) declared.toNat 0

theorem block {size : Nat} {next next' : α × Int → Decoder β} (hd : Cuts room fits strict loose)
    (hnext : ∀ found, Cuts room fits' (next found) (next' found))
    (hunfit : ∀ value reached, ¬ fits value →
      (next' (value, reached)).Delivers room fun result => ¬ fits' result) :
    Cuts room fits'
      (do
        let block ← limit size
        let found ← Decoder.inWindow block strict
        next found)
      (do
        let block ← limit size
        let found ← Decoder.inWindow block loose
        next' found) := by
  intro w pos hplace
  by_cases hsize : pos + size ≤ w.stop
  · have hlimit : limit size w pos = .done ⟨w.data, pos + size⟩ pos [] := if_pos hsize
    have hroom := hplace.room
    have hblock : Place room ⟨w.data, pos + size⟩ pos :=
      ⟨hplace.sound.narrow (by have := hplace.nonneg; omega) hsize, hplace.nonneg,
        by dsimp only; omega, by dsimp only; omega⟩
    have hinner : CutsAt fits' (Decoder.inWindow ⟨w.data, pos + size⟩ strict >>= next)
        (Decoder.inWindow ⟨w.data, pos + size⟩ loose >>= next') w pos := by
      apply (hd hblock).inWindow.bind
      · intro found mid trace hdone
        obtain ⟨-, rfl⟩ := inWindow_eq_done_iff.mp hdone
        exact hnext found hplace
      · intro found mid trace hdone hvalue result last trace' hresult
        obtain ⟨-, rfl⟩ := inWindow_eq_done_iff.mp hdone
        exact (hunfit found.1 found.2 hvalue hplace hresult).2.2
    rw [CutsAt, bind_of_done hlimit, bind_of_done hlimit, Outcome.after_nil, Outcome.after_nil]
    exact hinner
  · left
    have hfailed : limit size w pos = short "block" size w pos := if_neg hsize
    rw [bind_of_failed hfailed, bind_of_failed hfailed]

/-- Two loops that step from the same states. A state that is not low keeps the result from
fitting. -/
theorem iterate {strict loose : σ → Decoder (σ ⊕ β)} (holds low : σ → Prop)
    (hsettles : ∀ state, (strict state).Settles 1) (hsettles' : ∀ state, (loose state).Settles 1)
    (hkeep : ∀ state, holds state →
      (loose state).Delivers room (Sum.elim holds fun _ => True))
    (hstep : ∀ state, holds state →
      Cuts room (Sum.elim low fits') (strict state) (loose state))
    (hunfit : ∀ state, holds state → ¬ low state →
      (Decoder.iterate loose state).Delivers room fun result => ¬ fits' result)
    {start : σ} (hstart : holds start) :
    Cuts room fits' (Decoder.iterate strict start) (Decoder.iterate loose start) := by
  intro w pos hplace
  -- Every step leaves fewer bytes for the rest of the loops.
  induction hleft : (w.stop - pos).toNat using Nat.strongRecOn generalizing start pos with
  | ind left ih =>
      rw [CutsAt, iterate_eq_bind hsettles hplace.sound start hplace.nonneg hplace.inside,
        iterate_eq_bind hsettles' hplace.sound start hplace.nonneg hplace.inside]
      have hnext : ∀ {next mid trace}, loose start w pos = .done next mid trace →
          pos + 1 ≤ mid ∧ Place room w mid ∧ Sum.elim holds (fun _ => True) next := by
        intro next mid trace hdone
        obtain ⟨hmid, hinside, hholds⟩ := hkeep start hstart hplace hdone
        exact ⟨((hsettles' start).passed hplace hdone).1, hplace.next hmid hinside, hholds⟩
      apply (hstep start hstart hplace).bind
      · intro next mid trace hdone
        obtain ⟨hpassed, hmid, hholds⟩ := hnext hdone
        have hinside := hmid.inside
        cases next with
        | inr result => exact .inl rfl
        | inl state => exact ih _ (by omega) hholds hmid rfl
      · intro next mid trace hdone hvalue result last trace' hresult
        obtain ⟨-, hmid, hholds⟩ := hnext hdone
        cases next with
        | inr found =>
            obtain ⟨rfl, -, -⟩ := pure_eq_done_iff.mp hresult
            exact hvalue
        | inl state => exact (hunfit state hholds hvalue hmid hresult).2.2

end Cuts

end Decoder

variable {room : Nat} {limit limit' : Int} {h : Header}

namespace Standard

/-- A function is as high as its levels allow. -/
theorem Grammar.Settles.height_lt {g : Grammar} (hg : g.Settles) (levels : Nat) :
    (g.chunk limit levels).Delivers room fun tree => tree.height < levels := by
  induction levels with
  | zero => exact .fail _
  | succ levels ih =>
      refine .named (.skip hg.head fun head => .skip (settles_emit _) fun _ => ?_) _
      refine .skip (settles_counted _ hg.count hg.instruction) fun instructions => ?_
      refine .skip (settles_countedLabelled _ _ hg.count hg.constant) fun constants => ?_
      refine .skip hg.upvalues fun early => ?_
      refine (delivers_countedLabelled _ _ hg.count ih).bind fun children hchildren => ?_
      refine .skip hg.tail fun tail => .pure ?_
      rw [Prototype.height]
      exact Nat.lt_succ_of_le (Prototype.heightAll_le_iff.mpr hchildren.all)

/-- With fewer levels a function is cut where it is higher. -/
theorem Grammar.Settles.chunk_cuts {g : Grammar} (hg : g.Settles) {levels levels' : Nat}
    (hlevels : levels ≤ levels') :
    Cuts room (fun tree => tree.height < levels) (g.chunk limit levels)
      (g.chunk limit' levels') := by
  induction levels generalizing levels' with
  | zero => exact fun _ _ _ => .inr ⟨rfl, fun _ => Nat.not_lt_zero _⟩
  | succ levels ih =>
      obtain ⟨levels', rfl⟩ : ∃ n, levels' = n + 1 := ⟨levels' - 1, by omega⟩
      refine .within (.bind_same hg.head fun head => .bind_same (settles_emit _) fun _ => ?_) _
      refine .bind_same (settles_counted _ hg.count hg.instruction) fun instructions => ?_
      refine .bind_same (settles_countedLabelled _ _ hg.count hg.constant) fun constants => ?_
      refine .bind_same hg.upvalues fun early => ?_
      have hchild := hg.chunk limit' levels'
      apply (Cuts.countedLabelled _ _ hg.count hchild (ih (by omega))).bind
        (settles_countedLabelled _ _ hg.count hchild)
      · exact fun children => .refl _
      · intro children hchildren
        refine .skip hg.tail fun tail => .pure fun hlow => hchildren ?_
        rw [Prototype.height] at hlow
        exact Prototype.heightAll_le_iff.mp (Nat.le_of_lt_succ hlow)

end Standard

namespace Jit

/-- The functions on a stack are within a limit. -/
def Low (limit : Int) (stack : List Completed) : Prop :=
  ∀ completed ∈ stack, (completed.height : Int) ≤ limit

/-- What a record keeps of the stack before it. -/
structure Grows (maxDepth : Int) (stack next : List Completed) : Prop where
  measured : Measured stack → Measured next
  low : Low maxDepth stack → Low maxDepth next
  /-- No function disappears, but it may become part of a higher one. -/
  tall : ∀ limit, ¬ Low limit stack → ¬ Low limit next

/-- Functions that leave the stack become children. -/
theorem constants_cover (count : Nat) (stack : List Completed) :
    (constants count stack).Delivers room fun progress =>
      ∀ completed ∈ stack, completed ∈ progress.stack ∨ completed ∈ progress.children := by
  refine (constants_delivers (fun _ progress =>
    ∀ completed ∈ stack, completed ∈ progress.stack ∨ completed ∈ progress.children)
      (fun completed hmem => .inl hmem) ?_ count).mono fun progress hprogress => hprogress.2
  intro index progress hprogress
  refine (constant_delivers progress).mono ?_
  rintro next (⟨found, -, rfl⟩ | ⟨taken, rest, hcons, rfl⟩) completed hmem
  · exact hprogress completed hmem
  · rcases hprogress completed hmem with hstack | hchildren
    · rw [hcons] at hstack
      rcases List.mem_cons.mp hstack with rfl | hrest
      · exact .inr (by simp)
      · exact .inl hrest
    · exact .inr (List.mem_append_left _ hchildren)

theorem height_lt_heightOver {children : List Completed} {child : Completed}
    (hchild : child ∈ children) : child.height < heightOver children :=
  (Prototype.foldl_height_le_iff.mp (Nat.le_refl (heightOver children))).2 child hchild

theorem RecordParts.Completes.grows {maxDepth : Int} {stack next : List Completed}
    {parts : RecordParts} (hcompletes : parts.Completes room h maxDepth stack next) :
    Grows maxDepth stack next := by
  obtain ⟨hparts, rfl, hdepth⟩ := hcompletes
  refine ⟨fun hmeasured => ?_, fun hlow => ?_, fun limit htall hlow => htall fun completed hmem => ?_⟩
  · obtain ⟨hrest, hchildren⟩ := (constants_keep hmeasured _).of_gives hparts.constants
    exact List.forall_mem_cons.mpr ⟨heightOver_eq hchildren, hrest⟩
  · obtain ⟨hrest, -⟩ := (constants_keep hlow _).of_gives hparts.constants
    exact List.forall_mem_cons.mpr ⟨hdepth, hrest⟩
  · obtain ⟨hfirst, hrest⟩ := List.forall_mem_cons.mp hlow
    rcases (constants_cover _ stack).of_gives hparts.constants completed hmem with hstack | hchild
    · exact hrest completed hstack
    · have hlt := height_lt_heightOver hchild
      dsimp only at hfirst
      omega

theorem recordStep_grows (maxDepth : Int) (state : Nat × List Completed) :
    (recordStep h maxDepth state).Delivers room
      (Sum.elim (fun next => Grows maxDepth state.2 next.2) fun stack => stack = state.2) := by
  refine ((record_delivers state.2).within _).bind fun next hnext => ?_
  cases next with
  | none => exact .pure rfl
  | some found =>
      obtain ⟨parts, hcompletes⟩ := hnext found rfl
      exact .pure hcompletes.grows

/-- What every record keeps holds of the functions that are left in the end. -/
theorem records_keep {maxDepth : Int} {kept : List Completed → Prop}
    (hkept : ∀ {stack next}, Grows maxDepth stack next → kept stack → kept next)
    {state : Nat × List Completed} (hstate : kept state.2) :
    (iterate (recordStep h maxDepth) state).Delivers room kept := by
  apply delivers_iterate (settles_recordStep h maxDepth) (fun _ state => kept state.2)
  · intro _ state _ hstack
    refine (recordStep_grows maxDepth state).mono fun next hnext => ?_
    cases next with
    | inl next => exact hkept hnext hstack
    | inr stack =>
        obtain rfl := hnext
        exact hstack
  · exact hstate

theorem fields_cuts (hlimits : limit ≤ limit') (stack : List Completed) :
    Cuts room (fun found => (found.1.height : Int) ≤ limit) (fields h limit stack)
      (fields h limit' stack) := by
  refine .bind_same (settles_recordHead h) fun head => ?_
  refine .bind_same (settles_constants _ stack) fun progress => ?_
  refine .bind_same ((settles_labelledItems _ _ settles_number).named _) fun numConstants => ?_
  by_cases hdeep : limit < heightOver progress.children
  · intro w pos hplace
    refine .inr ⟨?_, fun {found last trace} hdone => ?_⟩
    · simp only [if_pos hdeep, fail_bind]
      rfl
    · by_cases hdeep' : limit' < heightOver progress.children
      · simp only [if_pos hdeep', fail_bind] at hdone
        exact absurd hdone not_fail_eq_done
      · simp only [if_neg hdeep'] at hdone
        obtain ⟨info, mid, first, second, -, hfound, -⟩ := bind_eq_done_iff.mp hdone
        obtain ⟨rfl, -, -⟩ := pure_eq_done_iff.mp hfound
        exact Int.not_le.mpr hdeep
  · have hdeep' : ¬ limit' < heightOver progress.children := by omega
    simp only [if_neg hdeep, if_neg hdeep']
    exact .refl _

theorem record_cuts (hlimits : limit ≤ limit') (stack : List Completed) :
    Cuts room (fun next => ∀ found ∈ next, Low limit found) (record h limit stack)
      (record h limit' stack) := by
  refine .bind_same settles_position fun offset => .bind_same settles_varint fun size => ?_
  split
  · exact .refl _
  · refine .bind_same settles_position fun start => .block (fields_cuts hlimits stack) ?_ ?_
    · exact fun found => .refl _
    · rintro ⟨completed, rest⟩ reached htall
      dsimp only
      split
      · rw [failAt_bind]
        exact .failAt _ _
      · refine .skip (settles_skip size) fun _ => .pure fun hlow => htall ?_
        exact hlow _ rfl completed (List.mem_cons_self ..)

/-- The loop of the records. A function that is too high for the stricter limit is part of what
is left in the end. -/
theorem records_cut (hlimits : limit ≤ limit') :
    Cuts room (fun stack => Measured stack → Low limit stack)
      (iterate (recordStep h limit) (0, [])) (iterate (recordStep h limit') (0, [])) := by
  apply Cuts.iterate (fun state => Measured state.2) (fun state => Low limit state.2)
    (settles_recordStep h limit) (settles_recordStep h limit')
  · intro state hmeasured
    refine (recordStep_grows limit' state).mono fun next hnext => ?_
    cases next with
    | inl next => exact hnext.measured hmeasured
    | inr stack => trivial
  · intro state hmeasured
    apply ((record_cuts hlimits state.2).within _).bind ((settles_record h limit' state.2).within _)
    · exact fun next => .refl _
    · intro next hnext
      cases next with
      | none => exact absurd (by simp) hnext
      | some found => exact .pure fun hlow => hnext fun _ hfound => Option.some.inj hfound ▸ hlow
  · intro state hmeasured htall
    have hkeep : (iterate (recordStep h limit') state).Delivers room fun stack =>
        Measured stack ∧ ¬ Low limit stack :=
      records_keep (fun hgrows hkept => ⟨hgrows.measured hkept.1, hgrows.tall limit hkept.2⟩)
        ⟨hmeasured, htall⟩
    exact hkeep.mono fun stack hstack hlow => hstack.2 (hlow hstack.1)
  · exact fun completed hmem => absurd hmem List.not_mem_nil

/-- The main function is the one that is left. -/
theorem soleCompleted_delivers {kept : Completed → Prop} {stack : List Completed}
    (hstack : ∀ completed ∈ stack, kept completed) (name : Bytes) :
    (do
      let tree ← soleCompleted stack
      pure { tree with body := { tree.body with name } } : Decoder Prototype).Delivers room
        fun tree => ∃ completed, stack = [completed] ∧ kept completed ∧
          tree.height = completed.prototype.height := by
  unfold soleCompleted
  split
  next completed =>
    rw [pure_bind]
    refine .pure ⟨completed, rfl, hstack completed (List.mem_singleton_self _), ?_⟩
    cases completed.prototype
    rfl
  next =>
    rw [fail_bind]
    exact .fail _

theorem main_height_le (maxDepth : Int) :
    (main h maxDepth).Delivers room fun tree => (tree.height : Int) ≤ maxDepth := by
  refine .named (.skip (settles_chunkName h) fun name => ?_) _
  have hrecords : (iterate (recordStep h maxDepth) (0, [])).Delivers room fun stack =>
      Measured stack ∧ Low maxDepth stack := by
    apply records_keep fun hgrows hkept => ⟨hgrows.measured hkept.1, hgrows.low hkept.2⟩
    exact ⟨fun _ hmem => absurd hmem List.not_mem_nil, fun _ hmem => absurd hmem List.not_mem_nil⟩
  refine hrecords.bind fun stack hstack => ?_
  refine (soleCompleted_delivers hstack.2 name).mono ?_
  rintro tree ⟨completed, rfl, hlow, hheight⟩
  rw [hheight, ← hstack.1 completed (List.mem_singleton_self _)]
  exact hlow

theorem main_cuts (hlimits : limit ≤ limit') :
    Cuts room (fun tree => (tree.height : Int) ≤ limit) (main h limit) (main h limit') := by
  refine .within (.bind_same (settles_chunkName h) fun name => ?_) _
  apply (records_cut hlimits).bind (settles_iterate (settles_recordStep h limit') _)
  · exact fun stack => .refl _
  · intro stack hstack
    refine (soleCompleted_delivers (fun completed hmem => hmem) name).mono ?_
    rintro tree ⟨completed, rfl, -, hheight⟩ hlow
    refine hstack fun hmeasured other hother => ?_
    obtain rfl := List.mem_singleton.mp hother
    rw [hmeasured other hother, ← hheight]
    exact hlow

end Jit

namespace Luau

variable {strings : Array Bytes}

/-- The functions that have no parent yet are measured, and within the limit. -/
def Bounded (maxDepth : Int) (table : Table) : Prop :=
  ∀ {number entry}, table.get? number = some entry →
    entry.height = entry.prototype.height ∧ (entry.height : Int) ≤ maxDepth

theorem nextRecord_bounded {maxDepth : Int} {table : Table} (htable : Bounded maxDepth table)
    (index : Nat) :
    (nextRecord h strings maxDepth index table).Delivers room (Bounded maxDepth) := by
  refine .within ((record_delivers table).map ?_) _
  rintro ⟨entry, rest⟩ ⟨parts, hparts, hentry, rfl, hheight, hdepth⟩ number found hget
  have htaken := ((takeChildren_delivers table).of_gives hparts.taken).2
  rcases get?_push hget with ⟨-, rfl⟩ | hold
  · have hmeasured : ∀ child ∈ parts.taken.2,
        child.entry.height = child.entry.prototype.height :=
      fun child hchild => (htable (htaken.children child hchild)).1
    refine ⟨?_, hdepth⟩
    dsimp only at hheight hentry
    rw [hheight, hentry, heightOver, Prototype.foldl_height _ 0 hmeasured, Nat.zero_max]
    rfl
  · exact htable (htaken.rest hold)

theorem main_height_le (maxDepth : Int) :
    (main h maxDepth).Delivers room fun tree => (tree.height : Int) ≤ maxDepth := by
  have hempty : Bounded maxDepth #[] := fun hget => by simp [Table.get?] at hget
  refine (main_keeps (Bounded maxDepth) settles_stringTable.any hempty
    fun _ htable => nextRecord_bounded htable _).mono ?_
  rintro tree ⟨table, number, height, htable, hget⟩
  obtain ⟨hheight, hdepth⟩ := htable hget
  exact hheight ▸ hdepth

/-- Records are the same until one is too high. What is too high need not belong to the main
function, so nothing follows for it. -/
theorem record_cuts (hlimits : limit ≤ limit') (table : Table) :
    Cuts room (fun _ => False) (record h strings limit table) (record h strings limit' table) := by
  refine .bind_same settles_byte fun maxStack => .bind_same settles_byte fun numParams => ?_
  refine .bind_same settles_byte fun numUpvalues => .bind_same settles_nextByte fun variadic => ?_
  refine .bind_same (settles_typeBlock h) fun types => ?_
  refine .bind_same (settles_counted _ settles_count settles_instruction) fun instructions => ?_
  refine .bind_same (settles_constants strings) fun raw => ?_
  refine .bind_same (settles_takeChildren table) fun taken => ?_
  refine .bind_same (settles_linkConstants _ _ _) fun linked => ?_
  by_cases hdeep : limit < heightOver taken.2
  · intro w pos hplace
    refine .inr ⟨?_, fun _ => id⟩
    simp only [if_pos hdeep, fail_bind]
    rfl
  · have hdeep' : ¬ limit' < heightOver taken.2 := by omega
    simp only [if_neg hdeep, if_neg hdeep']
    exact .refl _

theorem records_cut (hlimits : limit ≤ limit') (count index : Nat) (table : Table) :
    Cuts room (fun _ => False) (fold (nextRecord h strings limit) count index table)
      (fold (nextRecord h strings limit') count index table) := by
  have hsettles : ∀ index table, (nextRecord h strings limit' index table).Settles 1 :=
    fun _ table => ((settles_record h strings limit' table).bind fun _ => settles_pure _).within _
  induction count generalizing index table with
  | zero =>
      rw [fold, fold]
      exact .refl _
  | succ count ih =>
      have hnext : Cuts room (fun _ => False) (nextRecord h strings limit index table)
          (nextRecord h strings limit' index table) := by
        refine .within ?_ _
        exact (record_cuts hlimits table).bind_never (settles_record h strings limit' table)
          fun found => .refl _
      exact hnext.bind_never (hsettles index table) fun next => ih (index + 1) next

theorem main_cuts (hlimits : limit ≤ limit') :
    Cuts room (fun _ => False) (main h limit) (main h limit') := by
  refine .within (.bind_same settles_stringTable fun strings => ?_) _
  refine .bind_same (settles_emit _) fun _ => ?_
  refine .bind_same (settles_userdataTypes h strings) fun _ => ?_
  refine .bind_same settles_varint fun recordCount => .bind_same (settles_emit _) fun _ => ?_
  refine .checkCount_bind ?_
  have hsettles : (fold (nextRecord h strings limit') recordCount 0 #[]).Settles recordCount :=
    settles_fold (fun _ table => ((settles_record h strings limit' table).bind fun _ =>
      settles_pure _).within _) _ _ _
  exact (records_cut hlimits _ _ _).bind_never hsettles fun table => .refl _

end Luau

theorem Standard.Grammar.Settles.main_height_le {g : Standard.Grammar} (hg : g.Settles)
    (maxDepth : Int) :
    (g.main maxDepth).Delivers room fun tree => (tree.height : Int) ≤ maxDepth :=
  (hg.height_lt _).mono fun tree hheight => by omega

theorem Standard.Grammar.Settles.main_cuts {g : Standard.Grammar} (hg : g.Settles)
    (hlimits : limit ≤ limit') :
    Cuts room (fun tree => (tree.height : Int) ≤ limit) (g.main limit) (g.main limit') :=
  (hg.chunk_cuts (by omega)).mono fun tree hheight => by omega

/-- A function that is read is within the limit. -/
theorem mainFunction_height_le (h : Header) (maxDepth : Int) :
    (mainFunction h maxDepth).Delivers room fun tree => (tree.height : Int) ≤ maxDepth := by
  unfold mainFunction
  split
  · exact (Standard.grammar51_settles h).main_height_le maxDepth
  · exact (Standard.grammar52_settles h).main_height_le maxDepth
  · exact (Standard.grammar53_settles h).main_height_le maxDepth
  · exact (Standard.grammar54_settles h).main_height_le maxDepth
  · exact Jit.main_height_le maxDepth
  · exact Jit.main_height_le maxDepth
  · exact Luau.main_height_le maxDepth

theorem mainFunction_cuts (h : Header) (hlimits : limit ≤ limit') :
    Cuts room (fun tree => h.dialect ≠ .luau ∧ (tree.height : Int) ≤ limit)
      (mainFunction h limit) (mainFunction h limit') := by
  unfold mainFunction
  split
  · exact ((Standard.grammar51_settles h).main_cuts hlimits).mono fun _ hfits => hfits.2
  · exact ((Standard.grammar52_settles h).main_cuts hlimits).mono fun _ hfits => hfits.2
  · exact ((Standard.grammar53_settles h).main_cuts hlimits).mono fun _ hfits => hfits.2
  · exact ((Standard.grammar54_settles h).main_cuts hlimits).mono fun _ hfits => hfits.2
  · exact (Jit.main_cuts hlimits).mono fun _ hfits => hfits.2
  · exact (Jit.main_cuts hlimits).mono fun _ hfits => hfits.2
  next hdialect => exact (Luau.main_cuts hlimits).mono fun _ hfits => hfits.1 hdialect

theorem file_cuts (options : Options) (hlimits : limit ≤ limit') :
    Cuts room (fun bytecode => bytecode.header.dialect ≠ .luau ∧
        (bytecode.main.height : Int) ≤ limit)
      (file { options with maxDepth := limit }) (file { options with maxDepth := limit' }) := by
  refine .bind_same (settles_header options.origin) fun header => ?_
  split
  · exact .refl _
  · apply (mainFunction_cuts header hlimits).bind (settles_mainFunction header limit')
    · exact fun main => .refl _
    · intro main hmain
      refine (settles_finish header main).yields fun w pos bytecode last trace hdone => ?_
      obtain ⟨rfl, -, -⟩ := Outcome.done.inj hdone
      exact hmain

section Decode

variable {options : Options} {data : Array UInt8}

theorem decode_height_le {bytecode : Bytecode} {last : Int} {trace : List Event}
    (hdone : decode options data = .done bytecode last trace) :
    (bytecode.main.height : Int) ≤ options.maxDepth :=
  (mainFunction_height_le _ _).of_gives (decode_gives hdone).2

/-- A file whose dialect is recognized by its signature is no Luau dump. -/
theorem dialect_ne_luau {bytecode : Bytecode} {last : Int} {trace : List Event}
    (hdone : decode options data = .done bytecode last trace) (horigin : options.origin = .sniffed) :
    bytecode.header.dialect ≠ .luau := by
  obtain ⟨w, pos, last', trace', -, hheader⟩ := (decode_gives hdone).1
  have hdialect := (Header.header_readable options.origin hheader).2
  rw [horigin] at hdialect
  exact fun hluau => absurd (hdialect.mp hluau) (by decide)

/-- A limit that is no less than the size of the file is never met. -/
theorem not_tooDeep_of_size_le (hlimit : data.size ≤ options.maxDepth) :
    ¬ (decode options data).TooDeep := by
  intro hdeep
  obtain ⟨failure, last, trace, hfailed, hkind⟩ := hdeep.eq_failed
  cases rejection_of_decode hfailed with
  | header hrefused =>
      have hkinds := hrefused.grounds.kind_cases
      rw [← Failure.kind, hkind] at hkinds
      simp at hkinds
  | disabled hheader hdisabled hfailure =>
      rw [hfailure] at hkind
      exact absurd hkind (by simp [Failure.kind, Cause.kind])
  | function hheader hdialect hfounded =>
      have hdepth := hfounded.grounds.lt_of_depthExceeded hkind
      omega

end Decode

/-- The depth limit only cuts, and it cuts exactly. With a greater limit the outcome stays the
same unless functions were nested too deeply. What is decoded is within the limit, and where
every function belongs to the main one, its own height is limit enough. A limit that is no less
than the size of the file is never met. -/
theorem depth_limit_exact (options : Options) (data : Array UInt8) :
    (∀ limit limit' : Int, limit ≤ limit' →
      (decode { options with maxDepth := limit } data).TooDeep ∨
        decode { options with maxDepth := limit } data =
          decode { options with maxDepth := limit' } data) ∧
    (∀ limit bytecode last trace,
      decode { options with maxDepth := limit } data = .done bytecode last trace →
        (bytecode.main.height : Int) ≤ limit) ∧
    (options.origin = .sniffed → ∀ limit bytecode last trace,
      decode { options with maxDepth := limit } data = .done bytecode last trace →
        decode { options with maxDepth := bytecode.main.height } data =
          .done bytecode last trace) ∧
    ∀ limit : Int, data.size ≤ limit →
      ¬ (decode { options with maxDepth := limit } data).TooDeep := by
  refine ⟨?_, ?_, ?_, ?_⟩
  · intro limit limit' hlimits
    rcases file_cuts options hlimits (.whole data) with hsame | ⟨hdeep, -⟩
    · exact .inr hsame
    · exact .inl hdeep
  · exact fun limit bytecode last trace hdone => decode_height_le hdone
  · intro horigin limit bytecode last trace hdone
    have hheight : (bytecode.main.height : Int) ≤ limit := decode_height_le hdone
    rcases file_cuts options hheight (.whole data) with hsame | ⟨-, hunfit⟩
    · exact hsame.trans hdone
    · exact absurd ⟨dialect_ne_luau hdone horigin, Int.le_refl _⟩ (hunfit hdone)
  · exact fun limit hlimit => not_tooDeep_of_size_le hlimit

/-- One function inside another is decoded up to the limit one, and not with the limit zero. -/
theorem depth_limit_exact_nestedSample :
    ∃ bytecode trace, decode {} nestedSample = .done bytecode 25 trace ∧
      bytecode.main.height = 1 ∧
      decode { maxDepth := 1 } nestedSample = .done bytecode 25 trace ∧
      (decode { maxDepth := 0 } nestedSample).TooDeep := by
  obtain ⟨bytecode, trace, hdone, hheight⟩ : ∃ bytecode trace,
      decode {} nestedSample = .done bytecode 25 trace ∧ bytecode.main.height = 1 :=
    ⟨_, _, rfl, by decide⟩
  obtain ⟨hcut, hbound, hexact, -⟩ := depth_limit_exact {} nestedSample
  have hone := hexact rfl 200 bytecode 25 trace hdone
  rw [hheight] at hone
  refine ⟨bytecode, trace, hdone, hheight, hone, ?_⟩
  rcases hcut 0 200 (by decide) with hdeep | hsame
  · exact hdeep
  · have hzero := hbound 0 bytecode 25 trace (hsame.trans hdone)
    omega

end LuaDump
