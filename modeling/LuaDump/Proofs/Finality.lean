import LuaDump.Proofs.Raising.Record

/-! # Failures that more input does not mend

A failure other than truncation is final. More input changes neither its kind nor its place,
and it changes what is said only where the failure quotes the input beyond its own bytes.
-/

namespace LuaDump

open Decoder

variable {options : Options} {data : Array UInt8} {failure : Failure}

/-- Only a file without a known signature is refused by its first bytes. -/
theorem Rejection.head_eq (hrejection : Rejection options data failure) {head : Bytes}
    (hcause : failure.cause = .unknownSignature head) : head = (data.extract 0 4).toList := by
  cases hrejection with
  | header hrefused =>
      have hgrounds := hrefused.grounds
      rw [hcause] at hgrounds
      generalize failure.offset = offset at hgrounds
      cases hgrounds with
      | short hkind => exact absurd hkind (by simp [Cause.kind])
      | version hkind hother => exact absurd rfl (hother head)
      | signature horigin => rfl
  | disabled hheader hdisabled hfailure =>
      rw [hfailure] at hcause
      exact absurd hcause (by simp)
  | function hheader hdialect hfounded =>
      have hkind := hfounded.grounds.kind_cases
      simp [hcause, Cause.kind] at hkind

/-- Failures by unknown first bytes are equal if they are alike and quote the same bytes. -/
theorem Failure.Alike.eq_of_head {failure failure' : Failure} (halike : failure.Alike failure')
    {head : Bytes} (hcause : failure.cause = .unknownSignature head)
    (hhead : ∀ head', failure'.cause = .unknownSignature head' → head' = head) :
    failure = failure' := by
  obtain ⟨cause, offset, context⟩ := failure
  obtain ⟨cause', offset', context'⟩ := failure'
  obtain ⟨hcauses, rfl, rfl⟩ := halike
  obtain rfl := hcause
  cases hcauses with
  | refl => rfl
  | unknownSignature _ head' => rw [hhead head' rfl]

/-- The failures of a file and of the file with more input are alike. -/
theorem decode_append_alike {last : Int} {trace : List Event}
    (hfailed : decode options data = .failed failure last trace)
    (hkind : failure.kind ≠ .truncated) (extra : Array UInt8) :
    ∃ failure' last' trace', decode options (data ++ extra) = .failed failure' last' trace' ∧
      failure.Alike failure' := by
  have hsettles := settles_file options (Window.whole data) 0 (Window.whole_sound data)
    (Int.le_refl 0) (Window.whole_sound data).nonneg
  obtain ⟨reach, hreach, hsettled⟩ := hsettles.failed hfailed hkind
  have hinside : reach ≤ data.size := hsettled.le_stop
  obtain ⟨count, rfl⟩ := Int.eq_ofNat_of_zero_le hreach
  have hstop : (count : Int) ≤ (Window.whole (data ++ extra)).stop := by
    simp only [Window.whole, Array.size_append]
    omega
  have hstarts : data.toList.take count <+: (data ++ extra).toList := by
    rw [Array.toList_append]
    exact (List.take_prefix count data.toList).trans (List.prefix_append _ _)
  have halike := hsettled.alike (Window.whole (data ++ extra)) (Window.whole_sound _) hstop
    (whole_agree (by omega) hstarts)
  rw [← decode, hfailed] at halike
  exact halike.eq_failed

/-- Failures other than truncation are final: with more input the file fails in the same way at
the same place. The failure is the same, unless it quotes a compiler's message, or the first
four bytes of a file that has fewer. -/
theorem decode_failure_final (options : Options) (data extra : Array UInt8) {failure : Failure}
    {last : Int} {trace : List Event}
    (hfailed : decode options data = .failed failure last trace)
    (hkind : failure.kind ≠ .truncated) :
    ∃ failure' last' trace', decode options (data ++ extra) = .failed failure' last' trace' ∧
      failure'.kind = failure.kind ∧ failure'.offset = failure.offset ∧
      failure'.context = failure.context ∧
      (failure.kind ≠ .embeddedCompileError →
        (∀ head, failure.cause = .unknownSignature head → 4 ≤ data.size) →
          failure' = failure) := by
  obtain ⟨failure', last', trace', hfailed', halike⟩ := decode_append_alike hfailed hkind extra
  refine ⟨failure', last', trace', hfailed', halike.kind_eq.symm, halike.offset.symm,
    halike.context.symm, ?_⟩
  intro hmessage hlong
  by_cases hsignature : ∃ head, failure.cause = .unknownSignature head
  · obtain ⟨head, hcause⟩ := hsignature
    have hsize := hlong head hcause
    have hfirst : (data ++ extra).extract 0 4 = data.extract 0 4 := by
      rw [Array.extract_append, Nat.zero_sub, Nat.sub_eq_zero_of_le hsize, Array.extract_zero,
        Array.append_empty]
    refine (halike.eq_of_head hcause fun head' hcause' => ?_).symm
    rw [(rejection_of_decode hfailed').head_eq hcause', hfirst,
      (rejection_of_decode hfailed).head_eq hcause]
  · exact (halike.eq_of_cause hmessage fun head hcause => hsignature ⟨head, hcause⟩).symm

/-- A LuaJIT dump whose only record takes a child that no record before it has left. -/
def childlessSample : Array UInt8 :=
  #[0x1B, 0x4C, 0x4A, 2, 2, 8, 0, 0, 2, 0, 1, 0, 0, 0]

theorem decode_failure_final_childlessSample :
    ∃ failure last trace, decode {} childlessSample = .failed failure last trace ∧
      failure.kind = .unbalancedPrototypeStack ∧
      ∀ extra, ∃ last' trace', decode {} (childlessSample ++ extra) = .failed failure last' trace' := by
  obtain ⟨failure, last, trace, hfailed, hkind⟩ : ∃ failure last trace,
      decode {} childlessSample = .failed failure last trace ∧
        failure.kind = .unbalancedPrototypeStack := ⟨_, _, _, rfl, rfl⟩
  refine ⟨failure, last, trace, hfailed, hkind, fun extra => ?_⟩
  obtain ⟨failure', last', trace', hfailed', -, -, -, hsame⟩ :=
    decode_failure_final {} childlessSample extra hfailed (by simp [hkind])
  have hsignature : ∀ head, failure.cause = .unknownSignature head → 4 ≤ childlessSample.size :=
    fun _ _ => by decide
  obtain rfl := hsame (by simp [hkind]) hsignature
  exact ⟨last', trace', hfailed'⟩

end LuaDump
