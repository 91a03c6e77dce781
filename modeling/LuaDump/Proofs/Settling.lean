import LuaDump.Proofs.Inversion
import LuaDump.Proofs.Window

/-! # Outcomes that a prefix of the input settles

A decoder reads its input from the front. Its outcome is settled by a prefix when
every input with that prefix gives the same outcome, and every input that ends inside
the prefix is reported as truncated. `Settles` says this of every outcome other than
truncation, where a success is settled by exactly the bytes that were passed;
`Foresees` is its variant for decoders that look further ahead than they move.
-/

namespace LuaDump

/-- Causes that are equal except for the bytes they quote from the rest of the input. -/
inductive Cause.Alike : Cause → Cause → Prop
  | refl (cause : Cause) : Alike cause cause
  | compileError (message message' : Bytes) :
      Alike (.compileError message) (.compileError message')
  | unknownSignature (head head' : Bytes) :
      Alike (.unknownSignature head) (.unknownSignature head')

/-- Failures of alike causes at one offset and in one context. -/
structure Failure.Alike (failure failure' : Failure) : Prop where
  cause : failure.cause.Alike failure'.cause
  offset : failure.offset = failure'.offset
  context : failure.context = failure'.context

theorem Failure.Alike.push {failure failure' : Failure} (halike : failure.Alike failure')
    (label : Label) : (failure.push label).Alike (failure'.push label) :=
  ⟨halike.cause, halike.offset, congrArg (label :: ·) halike.context⟩

theorem Failure.Alike.kind_eq {failure failure' : Failure} (halike : failure.Alike failure') :
    failure.kind = failure'.kind := by
  obtain ⟨cause, offset, context⟩ := failure
  obtain ⟨cause', offset', context'⟩ := failure'
  obtain ⟨hcause, -, -⟩ := halike
  cases hcause <;> rfl

/-- Failures that quote no bytes of the input are equal if they are alike. -/
theorem Failure.Alike.eq_of_cause {failure failure' : Failure} (halike : failure.Alike failure')
    (hmessage : failure.kind ≠ .embeddedCompileError)
    (hsignature : ∀ head, failure.cause ≠ .unknownSignature head) : failure = failure' := by
  obtain ⟨cause, offset, context⟩ := failure
  obtain ⟨cause', offset', context'⟩ := failure'
  obtain ⟨hcause, rfl, rfl⟩ := halike
  cases hcause with
  | refl => rfl
  | compileError => exact absurd rfl hmessage
  | unknownSignature head => exact absurd rfl (hsignature head)

namespace Outcome

variable {α : Type}

/-- The same value at the same position, or alike failures. Traces are not compared. -/
def Alike : Outcome α → Outcome α → Prop
  | .done value pos _, .done value' pos' _ => value = value' ∧ pos = pos'
  | .failed failure _ _, .failed failure' _ _ => failure.Alike failure'
  | _, _ => False

/-- The input ended too early. -/
def Truncated : Outcome α → Prop
  | .done .. => False
  | .failed failure _ _ => failure.kind = .truncated

theorem Alike.eq_done {value : α} {pos : Int} {trace : List Event} {outcome : Outcome α}
    (halike : (Outcome.done value pos trace).Alike outcome) :
    ∃ trace', outcome = .done value pos trace' := by
  cases outcome with
  | done value' pos' trace' =>
      obtain ⟨rfl, rfl⟩ := halike
      exact ⟨trace', rfl⟩
  | failed failure pos' trace' => exact halike.elim

theorem Alike.eq_failed {failure : Failure} {pos : Int} {trace : List Event}
    {outcome : Outcome α} (halike : (Outcome.failed failure pos trace).Alike outcome) :
    ∃ failure' pos' trace', outcome = .failed failure' pos' trace' ∧ failure.Alike failure' := by
  cases outcome with
  | done value' pos' trace' => exact halike.elim
  | failed failure' pos' trace' => exact ⟨failure', pos', trace', rfl, halike⟩

theorem Truncated.eq_failed {outcome : Outcome α} (htruncated : outcome.Truncated) :
    ∃ failure pos trace, outcome = .failed failure pos trace ∧ failure.kind = .truncated := by
  cases outcome with
  | done value pos trace => exact htruncated.elim
  | failed failure pos trace => exact ⟨failure, pos, trace, rfl, htruncated⟩

theorem Alike.after {outcome outcome' : Outcome α} (halike : outcome.Alike outcome')
    (earlier earlier' : List Event) : (outcome.after earlier).Alike (outcome'.after earlier') := by
  cases outcome <;> cases outcome' <;> exact halike

theorem Truncated.after {outcome : Outcome α} (htruncated : outcome.Truncated)
    (earlier : List Event) : (outcome.after earlier).Truncated := by
  cases outcome <;> exact htruncated

end Outcome

namespace Decoder

variable {α β : Type}

/-- The bytes before `reach` settle the outcome at a position: the same bytes give the
same outcome, and fewer of them are too few. -/
structure SettledBy (d : Decoder α) (w : Window) (pos reach : Int) : Prop where
  le_stop : reach ≤ w.stop
  alike : ∀ w' : Window, w'.Sound → reach ≤ w'.stop → w.Agree w' pos reach →
    (d w pos).Alike (d w' pos)
  truncated : ∀ w' : Window, w'.Sound → pos ≤ w'.stop → w'.stop < reach →
    w.Agree w' pos w'.stop → (d w' pos).Truncated

namespace SettledBy

variable {d : Decoder α} {w : Window} {pos reach : Int}

/-- The second part of a sequence starts no later than where the first part is settled. -/
theorem bind {next : α → Decoder β} {value : α} {mid reach' : Int} {trace : List Event}
    (hd : d.SettledBy w pos reach) (hdone : d w pos = .done value mid trace)
    (hpos : pos ≤ mid) (hmid : mid ≤ reach) (hnext : (next value).SettledBy w mid reach') :
    (d >>= next).SettledBy w pos (max reach reach') where
  le_stop := by
    have hreach := hd.le_stop
    have hreach' := hnext.le_stop
    omega
  alike := by
    intro w' hw' hstop hagree
    have hfirst := hd.alike w' hw' (by omega) (hagree.mono (Int.le_refl _) (by omega))
    rw [hdone] at hfirst
    obtain ⟨trace', hdone'⟩ := hfirst.eq_done
    rw [bind_of_done hdone, bind_of_done hdone']
    exact (hnext.alike w' hw' (by omega) (hagree.mono hpos (by omega))).after _ _
  truncated := by
    intro w' hw' hstop hshort hagree
    by_cases hfirst : w'.stop < reach
    · obtain ⟨failure, last, trace', hfailed, hkind⟩ :=
        (hd.truncated w' hw' hstop hfirst hagree).eq_failed
      rw [bind_of_failed hfailed]
      exact hkind
    · have hsame := hd.alike w' hw' (by omega) (hagree.mono (Int.le_refl _) (by omega))
      rw [hdone] at hsame
      obtain ⟨trace', hdone'⟩ := hsame.eq_done
      rw [bind_of_done hdone']
      exact (hnext.truncated w' hw' (by omega) (by omega)
        (hagree.mono hpos (Int.le_refl _))).after _

theorem bind_failed {next : α → Decoder β} {failure : Failure} {last : Int}
    {trace : List Event} (hd : d.SettledBy w pos reach)
    (hfailed : d w pos = .failed failure last trace) :
    (d >>= next).SettledBy w pos reach where
  le_stop := hd.le_stop
  alike := by
    intro w' hw' hstop hagree
    have hsame := hd.alike w' hw' hstop hagree
    rw [hfailed] at hsame
    obtain ⟨failure', last', trace', hfailed', halike⟩ := hsame.eq_failed
    rw [bind_of_failed hfailed, bind_of_failed hfailed']
    exact halike
  truncated := by
    intro w' hw' hstop hshort hagree
    obtain ⟨failure', last', trace', hfailed', hkind⟩ :=
      (hd.truncated w' hw' hstop hshort hagree).eq_failed
    rw [bind_of_failed hfailed']
    exact hkind

theorem within (hd : d.SettledBy w pos reach) (label : Label) :
    (Decoder.within label d).SettledBy w pos reach where
  le_stop := hd.le_stop
  alike := by
    intro w' hw' hstop hagree
    have hsame := hd.alike w' hw' hstop hagree
    unfold Decoder.within
    cases hd : d w pos <;> cases hd' : d w' pos <;> rw [hd, hd'] at hsame
    case failed.failed => exact hsame.push label
    all_goals exact hsame
  truncated := by
    intro w' hw' hstop hshort hagree
    have hfew := hd.truncated w' hw' hstop hshort hagree
    unfold Decoder.within
    cases hd' : d w' pos <;> rw [hd'] at hfew <;> exact hfew

end SettledBy

/-- At a position, a success passes at least `least` bytes and is settled by the bytes it
passed, and a failure other than truncation is settled by some prefix. -/
structure SettlesAt (least : Nat) (d : Decoder α) (w : Window) (pos : Int) : Prop where
  done : ∀ {value last trace}, d w pos = .done value last trace →
    pos + least ≤ last ∧ d.SettledBy w pos last
  failed : ∀ {failure last trace}, d w pos = .failed failure last trace →
    failure.kind ≠ .truncated → ∃ reach, pos ≤ reach ∧ d.SettledBy w pos reach

/-- `SettlesAt` wherever a sound window can be read. -/
def Settles (least : Nat) (d : Decoder α) : Prop :=
  ∀ w pos, w.Sound → 0 ≤ pos → pos ≤ w.stop → d.SettlesAt least w pos

/-- Every success is settled by a prefix that reaches at most `ahead` bytes from the start,
and a failure other than truncation by some prefix. -/
structure ForeseesAt (ahead : Nat) (d : Decoder α) (w : Window) (pos : Int) : Prop where
  done : ∀ {value last trace}, d w pos = .done value last trace →
    pos ≤ last ∧ ∃ reach, last ≤ reach ∧ reach ≤ pos + ahead ∧ d.SettledBy w pos reach
  failed : ∀ {failure last trace}, d w pos = .failed failure last trace →
    failure.kind ≠ .truncated → ∃ reach, pos ≤ reach ∧ d.SettledBy w pos reach

/-- `ForeseesAt` wherever a sound window can be read. -/
def Foresees (ahead : Nat) (d : Decoder α) : Prop :=
  ∀ w pos, w.Sound → 0 ≤ pos → pos ≤ w.stop → d.ForeseesAt ahead w pos

/-- A decoder that reads nothing is settled where it stands. -/
theorem SettledBy.of_alike {d : Decoder α} {w : Window} {pos : Int} (hpos : pos ≤ w.stop)
    (halike : ∀ w' : Window, w'.Sound → pos ≤ w'.stop → (d w pos).Alike (d w' pos)) :
    d.SettledBy w pos pos where
  le_stop := hpos
  alike := by
    intro w' hw' hstop _
    exact halike w' hw' hstop
  truncated := by
    intro w' _ hstop hshort
    omega

section Introduction

variable {d : Decoder α} {w : Window} {pos : Int}

theorem SettlesAt.of_done {least : Nat} {value : α} {last : Int} {trace : List Event}
    (hdone : d w pos = .done value last trace) (hle : pos + least ≤ last)
    (hsettled : d.SettledBy w pos last) : d.SettlesAt least w pos where
  done := by
    intro value' last' trace' h
    obtain ⟨-, rfl, -⟩ := Outcome.done.inj (hdone.symm.trans h)
    exact ⟨hle, hsettled⟩
  failed := by
    intro failure last' trace' h
    exact absurd (hdone.symm.trans h) (by simp)

theorem SettlesAt.of_failed {least : Nat} {failure : Failure} {last reach : Int}
    {trace : List Event} (hfailed : d w pos = .failed failure last trace) (hle : pos ≤ reach)
    (hsettled : d.SettledBy w pos reach) : d.SettlesAt least w pos where
  done := by
    intro value' last' trace' h
    exact absurd (hfailed.symm.trans h) (by simp)
  failed := fun _ _ => ⟨reach, hle, hsettled⟩

theorem SettlesAt.of_truncated {least : Nat} (htruncated : (d w pos).Truncated) :
    d.SettlesAt least w pos where
  done := by
    intro value last trace hdone
    rw [hdone] at htruncated
    exact htruncated.elim
  failed := by
    intro failure last trace hfailed hkind
    rw [hfailed] at htruncated
    exact absurd htruncated hkind

/-- A decoder that does not move and looks `ahead` bytes further. -/
theorem ForeseesAt.of_done {ahead : Nat} {value : α} {trace : List Event}
    (hdone : d w pos = .done value pos trace) (hsettled : d.SettledBy w pos (pos + ahead)) :
    d.ForeseesAt ahead w pos where
  done := by
    intro value' last' trace' h
    obtain ⟨-, rfl, -⟩ := Outcome.done.inj (hdone.symm.trans h)
    exact ⟨Int.le_refl _, pos + ahead, by omega, Int.le_refl _, hsettled⟩
  failed := by
    intro failure last' trace' h
    exact absurd (hdone.symm.trans h) (by simp)

theorem ForeseesAt.of_truncated {ahead : Nat} (htruncated : (d w pos).Truncated) :
    d.ForeseesAt ahead w pos where
  done := by
    intro value last trace hdone
    rw [hdone] at htruncated
    exact htruncated.elim
  failed := by
    intro failure last trace hfailed hkind
    rw [hfailed] at htruncated
    exact absurd htruncated hkind

end Introduction

namespace SettlesAt

variable {d : Decoder α} {w : Window} {pos : Int} {least more : Nat}

theorem bind {next : α → Decoder β} (hd : d.SettlesAt least w pos)
    (hnext : ∀ value mid trace, d w pos = .done value mid trace →
      (next value).SettlesAt more w mid) : (d >>= next).SettlesAt (least + more) w pos where
  done := by
    intro result last trace hdone
    obtain ⟨value, mid, first, second, hfirst, hsecond, -⟩ := bind_eq_done_iff.mp hdone
    obtain ⟨hmid, hsettled⟩ := hd.done hfirst
    obtain ⟨hlast, hsettled'⟩ := (hnext value mid first hfirst).done hsecond
    refine ⟨by omega, ?_⟩
    have hboth := hsettled.bind hfirst (by omega) (Int.le_refl _) hsettled'
    rwa [Int.max_eq_right (by omega)] at hboth
  failed := by
    intro failure last trace hfailed hkind
    rcases bind_eq_failed_iff.mp hfailed with
      hfirst | ⟨value, mid, first, second, hfirst, hsecond, -⟩
    · obtain ⟨reach, hreach, hsettled⟩ := hd.failed hfirst hkind
      exact ⟨reach, hreach, hsettled.bind_failed hfirst⟩
    -- A failure of the second part may be decided before the end of the first.
    · obtain ⟨hmid, hsettled⟩ := hd.done hfirst
      obtain ⟨reach, hreach, hsettled'⟩ := (hnext value mid first hfirst).failed hsecond hkind
      exact ⟨max mid reach, by omega, hsettled.bind hfirst (by omega) (Int.le_refl _) hsettled'⟩

theorem mono (hd : d.SettlesAt more w pos) (hle : least ≤ more) : d.SettlesAt least w pos where
  done := by
    intro value last trace hdone
    obtain ⟨hlast, hsettled⟩ := hd.done hdone
    exact ⟨by omega, hsettled⟩
  failed := hd.failed

theorem within (hd : d.SettlesAt least w pos) (label : Label) :
    (Decoder.within label d).SettlesAt least w pos where
  done := by
    intro value last trace hdone
    obtain ⟨hlast, hsettled⟩ := hd.done (within_eq_done_iff.mp hdone)
    exact ⟨hlast, hsettled.within label⟩
  failed := by
    intro failure last trace hfailed hkind
    obtain ⟨inner, hinner, rfl⟩ := within_eq_failed_iff.mp hfailed
    obtain ⟨reach, hreach, hsettled⟩ := hd.failed hinner hkind
    exact ⟨reach, hreach, hsettled.within label⟩

theorem last_le_stop (hd : d.SettlesAt least w pos) {value : α} {last : Int}
    {trace : List Event} (hdone : d w pos = .done value last trace) : last ≤ w.stop :=
  (hd.done hdone).2.le_stop

end SettlesAt

/-- Looking ahead is harmless before a part that passes as many bytes. -/
theorem ForeseesAt.bind {d : Decoder α} {next : α → Decoder β} {w : Window} {pos : Int}
    {ahead more : Nat} (hd : d.ForeseesAt ahead w pos)
    (hnext : ∀ value mid trace, d w pos = .done value mid trace →
      (next value).SettlesAt more w mid) (hle : ahead ≤ more) :
    (d >>= next).SettlesAt more w pos where
  done := by
    intro result last trace hdone
    obtain ⟨value, mid, first, second, hfirst, hsecond, -⟩ := bind_eq_done_iff.mp hdone
    obtain ⟨hmid, reach, hreach, hahead, hsettled⟩ := hd.done hfirst
    obtain ⟨hlast, hsettled'⟩ := (hnext value mid first hfirst).done hsecond
    refine ⟨by omega, ?_⟩
    have hboth := hsettled.bind hfirst hmid hreach hsettled'
    rwa [Int.max_eq_right (by omega)] at hboth
  failed := by
    intro failure last trace hfailed hkind
    rcases bind_eq_failed_iff.mp hfailed with
      hfirst | ⟨value, mid, first, second, hfirst, hsecond, -⟩
    · obtain ⟨reach, hreach, hsettled⟩ := hd.failed hfirst hkind
      exact ⟨reach, hreach, hsettled.bind_failed hfirst⟩
    · obtain ⟨hmid, reach, hreach, hahead, hsettled⟩ := hd.done hfirst
      obtain ⟨reach', hreach', hsettled'⟩ := (hnext value mid first hfirst).failed hsecond hkind
      exact ⟨max reach reach', by omega, hsettled.bind hfirst hmid hreach hsettled'⟩

namespace Settles

variable {d : Decoder α} {least more : Nat}

theorem bind_add {next : α → Decoder β} (hd : d.Settles least)
    (hnext : ∀ value, (next value).Settles more) : (d >>= next).Settles (least + more) := by
  intro w pos hw hpos hstop
  have hfirst := hd w pos hw hpos hstop
  apply hfirst.bind
  intro value mid trace hdone
  have hmid := (hfirst.done hdone).1
  exact hnext value w mid hw (by omega) (hfirst.last_le_stop hdone)

/-- The bytes of the first part alone are counted. -/
theorem bind {next : α → Decoder β} (hd : d.Settles least)
    (hnext : ∀ value, (next value).Settles 0) : (d >>= next).Settles least :=
  hd.bind_add hnext

theorem mono (hd : d.Settles more) (hle : least ≤ more) : d.Settles least :=
  fun w pos hw hpos hstop => (hd w pos hw hpos hstop).mono hle

theorem weak (hd : d.Settles more) : d.Settles 0 :=
  hd.mono (Nat.zero_le more)

/-- The bytes of the second part alone are counted. -/
theorem bind_next {next : α → Decoder β} (hd : d.Settles 0)
    (hnext : ∀ value, (next value).Settles least) : (d >>= next).Settles least :=
  (hd.bind_add hnext).mono (by omega)

theorem within (hd : d.Settles least) (label : Label) :
    (Decoder.within label d).Settles least :=
  fun w pos hw hpos hstop => (hd w pos hw hpos hstop).within label

theorem named (hd : d.Settles least) (name : String) : (Decoder.named name d).Settles least :=
  hd.within _

end Settles

theorem Foresees.bind {d : Decoder α} {next : α → Decoder β} {ahead more : Nat}
    (hd : d.Foresees ahead) (hnext : ∀ value, (next value).Settles more) (hle : ahead ≤ more) :
    (d >>= next).Settles more := by
  intro w pos hw hpos hstop
  have hfirst := hd w pos hw hpos hstop
  refine hfirst.bind ?_ hle
  intro value mid trace hdone
  obtain ⟨hmid, reach, hreach, -, hsettled⟩ := hfirst.done hdone
  exact hnext value w mid hw (by omega) (Int.le_trans hreach hsettled.le_stop)

/-- A decoder that looks at nothing but its position, and succeeds there. -/
theorem Settles.of_done {d : Decoder α} {value : Int → α} {trace : List Event}
    (hd : ∀ w pos, d w pos = .done (value pos) pos trace) : d.Settles 0 := by
  intro w pos hw hpos hstop
  apply SettlesAt.of_done (hd w pos) (by omega)
  apply SettledBy.of_alike hstop
  intro w' _ _
  rw [hd, hd]
  exact ⟨rfl, rfl⟩

/-- A decoder that looks at nothing but its position, and fails there. -/
theorem Settles.of_failed {d : Decoder α} {failure : Int → Failure} {trace : List Event}
    (hd : ∀ w pos, d w pos = .failed (failure pos) pos trace) (least : Nat) :
    d.Settles least := by
  intro w pos hw hpos hstop
  apply SettlesAt.of_failed (hd w pos) (Int.le_refl pos)
  apply SettledBy.of_alike hstop
  intro w' _ _
  rw [hd, hd]
  exact ⟨.refl _, rfl, rfl⟩

theorem settles_pure (value : α) : (pure value : Decoder α).Settles 0 :=
  .of_done (pure_apply value)

theorem settles_position : position.Settles 0 :=
  .of_done fun _ _ => rfl

theorem settles_emit (event : Event) : (emit event).Settles 0 :=
  .of_done fun _ _ => rfl

theorem settles_failAt (offset : Int) (cause : Cause) (least : Nat) :
    (failAt offset cause : Decoder α).Settles least :=
  .of_failed (fun _ _ => rfl) least

theorem settles_fail (cause : Cause) (least : Nat) : (fail cause : Decoder α).Settles least :=
  .of_failed (fun _ _ => rfl) least

end Decoder

end LuaDump
