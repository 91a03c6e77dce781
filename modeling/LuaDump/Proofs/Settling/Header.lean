import LuaDump.Header.Sniff
import LuaDump.Proofs.Settling.Field

/-! # Headers settle

A signature looks ahead by its length. Where it does not match, its first byte that differs
rules it out, and the header goes on with a signature that shares the bytes before.
-/

namespace LuaDump

open Decoder

namespace Header

/-- Bytes that are no beginning of others differ from them at a first place. -/
theorem exists_mismatch {xs ys : Bytes} (hlength : xs.length ≤ ys.length) (hnot : ¬ xs <+: ys) :
    ∃ i, i < xs.length ∧ xs.take i = ys.take i ∧ xs[i]? ≠ ys[i]? := by
  induction xs generalizing ys with
  | nil => exact absurd List.nil_prefix hnot
  | cons x xs ih =>
      cases ys with
      | nil => simp at hlength
      | cons y ys =>
          by_cases hxy : x = y
          · subst hxy
            have hrest : ¬ xs <+: ys := fun hpre => hnot (List.cons_prefix_cons.mpr ⟨rfl, hpre⟩)
            obtain ⟨i, hi, htake, hdiffer⟩ := ih (by simpa using hlength) hrest
            exact ⟨i + 1, by simpa using hi, by simp [htake], by simpa using hdiffer⟩
          · exact ⟨0, by simp, rfl, by simpa using hxy⟩

section Signature

variable {signature : Bytes} {w : Window} {pos : Int}

/-- The bytes that are compared with a signature. -/
def signatureHead (signature : Bytes) (w : Window) (pos : Int) : Bytes :=
  w.slice pos (min (pos + signature.length) w.stop)

theorem getElem?_signatureHead (hw : w.Sound) (hpos : 0 ≤ pos) (hstop : pos ≤ w.stop) (i : Nat) :
    (signatureHead signature w pos)[i]? =
      if pos + i < min (pos + signature.length) w.stop then w.data[pos.toNat + i]? else none :=
  Window.getElem?_slice hw hpos (by omega) (by omega) i

theorem length_signatureHead (hw : w.Sound) (hpos : 0 ≤ pos) (hstop : pos ≤ w.stop) :
    ((signatureHead signature w pos).length : Int) = min (pos + signature.length) w.stop - pos :=
  Window.length_slice hw hpos (by omega) (by omega)

/-- Input that ends inside a signature is truncated. -/
theorem matchSignature_truncated
    (hlength : (signatureHead signature w pos).length < signature.length)
    (hstarts : signatureHead signature w pos <+: signature) :
    (matchSignature signature w pos).Truncated := by
  have hne : signatureHead signature w pos ≠ signature := by
    intro heq
    rw [heq] at hlength
    omega
  unfold matchSignature
  rw [← signatureHead, if_neg hne, if_pos (List.isPrefixOf_iff_prefix.mpr hstarts)]
  rfl

theorem matchSignature_of_eq (heq : signatureHead signature w pos = signature) :
    matchSignature signature w pos = .done true (pos + signature.length) [] := by
  unfold matchSignature
  rw [← signatureHead, if_pos heq]

theorem matchSignature_of_mismatch (hnot : ¬ signatureHead signature w pos <+: signature) :
    matchSignature signature w pos = .done false pos [] := by
  have hne : signatureHead signature w pos ≠ signature := by
    intro heq
    rw [heq] at hnot
    exact hnot List.prefix_rfl
  unfold matchSignature
  rw [← signatureHead, if_neg hne,
    if_neg (fun hpre => hnot (List.isPrefixOf_iff_prefix.mp hpre))]

/-- A file that agrees with the first bytes of a signature and then ends is truncated. -/
theorem matchSignature_truncated_of_agree {w' : Window} (hw : w.Sound) (hw' : w'.Sound)
    (hpos : 0 ≤ pos) (hstop' : pos ≤ w.stop) (hstop : pos ≤ w'.stop) {count : Nat}
    (htake : (signatureHead signature w pos).take count = signature.take count)
    (hcount : count ≤ (signatureHead signature w pos).length)
    (hfew : w'.stop < pos + signature.length) (hle : w'.stop ≤ pos + count)
    (hagree : w.Agree w' pos w'.stop) : (matchSignature signature w' pos).Truncated := by
  have hhead : signatureHead signature w' pos = signature.take (w'.stop - pos).toNat := by
    apply List.ext_getElem?
    intro i
    rw [getElem?_signatureHead hw' hpos hstop, List.getElem?_take]
    by_cases hi : i < (w'.stop - pos).toNat
    · have hinside : ((signatureHead signature w pos).length : Int) = _ :=
        length_signatureHead hw hpos hstop'
      have hsame : (signatureHead signature w pos)[i]? = signature[i]? := by
        rw [← List.getElem?_take_of_lt (by omega : i < count), htake,
          List.getElem?_take_of_lt (by omega)]
      rw [getElem?_signatureHead hw hpos hstop', if_pos (by omega)] at hsame
      rw [if_pos (by omega), if_pos hi, ← hsame]
      exact (hagree _ (by omega) (by omega)).symm
    · rw [if_neg (by omega), if_neg hi]
  have hlength := congrArg List.length hhead
  rw [List.length_take] at hlength
  apply matchSignature_truncated
  · omega
  · rw [hhead]
    exact List.take_prefix _ _

theorem settlesAt_matchSignature_of_eq (hw : w.Sound) (hpos : 0 ≤ pos) (hstop : pos ≤ w.stop)
    (heq : signatureHead signature w pos = signature) :
    (matchSignature signature).SettlesAt signature.length w pos := by
  have hlength : ((signatureHead signature w pos).length : Int) = _ :=
    length_signatureHead hw hpos hstop
  rw [heq] at hlength
  have hdone := matchSignature_of_eq heq
  refine .of_done hdone (Int.le_refl _) ⟨by omega, ?_, ?_⟩
  · intro w' hw' hstop' hagree
    have heq' : signatureHead signature w' pos = signature := by
      rw [signatureHead, Int.min_eq_left (by omega)] at heq ⊢
      rw [← Window.slice_eq_of_agree hw hw' hpos (by omega) (by omega) hstop' hagree, heq]
    rw [hdone, matchSignature_of_eq heq']
    exact ⟨rfl, rfl⟩
  · intro w' hw' hstop' hfew hagree
    have htake : (signatureHead signature w pos).take signature.length =
        signature.take signature.length := by rw [heq]
    have hcount : signature.length ≤ (signatureHead signature w pos).length :=
      Nat.le_of_eq (congrArg List.length heq.symm)
    exact matchSignature_truncated_of_agree hw hw' hpos hstop hstop' htake hcount hfew (by omega)
      hagree

theorem foreseesAt_matchSignature_of_mismatch (hw : w.Sound) (hpos : 0 ≤ pos)
    (hstop : pos ≤ w.stop) (hnot : ¬ signatureHead signature w pos <+: signature) :
    (matchSignature signature).ForeseesAt signature.length w pos := by
  have hlength : ((signatureHead signature w pos).length : Int) = _ :=
    length_signatureHead hw hpos hstop
  have hdone := matchSignature_of_mismatch hnot
  obtain ⟨i, hi, htake, hdiffer⟩ := exists_mismatch (by omega) hnot
  -- The first byte that differs rules the signature out, and nothing before it does.
  have hsettled : (matchSignature signature).SettledBy w pos (pos + i + 1) := by
    refine ⟨by omega, ?_, ?_⟩
    · intro w' hw' hstop' hagree
      have hnot' : ¬ signatureHead signature w' pos <+: signature := by
        intro hpre
        apply hdiffer
        have hinside : ((signatureHead signature w' pos).length : Int) = _ :=
          length_signatureHead hw' hpos (by omega)
        have hsame := List.prefix_iff_getElem?.mp hpre i (by omega)
        rw [← List.getElem?_eq_getElem, getElem?_signatureHead hw' hpos (by omega),
          if_pos (by omega), ← hagree _ (by omega) (by omega)] at hsame
        rw [getElem?_signatureHead hw hpos hstop, if_pos (by omega), hsame]
      rw [hdone, matchSignature_of_mismatch hnot']
      exact ⟨rfl, rfl⟩
    · intro w' hw' hstop' hfew hagree
      exact matchSignature_truncated_of_agree hw hw' hpos hstop hstop' htake (by omega)
        (by omega) (by omega) hagree
  constructor
  · intro value last trace h
    obtain ⟨-, rfl, -⟩ := Outcome.done.inj (hdone.symm.trans h)
    exact ⟨Int.le_refl _, pos + i + 1, by omega, by omega, hsettled⟩
  · intro failure last trace h
    exact absurd (hdone.symm.trans h) (by simp)

/-- A choice by a signature: the branch without it must read at least as much. -/
theorem settles_matchSignature_bind {α : Type} {next : Bool → Decoder α} {more least : Nat}
    (hyes : (next true).Settles more) (hno : (next false).Settles least)
    (hle : signature.length ≤ least) (hmore : least ≤ signature.length + more) :
    (matchSignature signature >>= next).Settles least := by
  intro w pos hw hpos hstop
  have hlength : ((signatureHead signature w pos).length : Int) = _ :=
    length_signatureHead hw hpos hstop
  by_cases heq : signatureHead signature w pos = signature
  · have hmatch := settlesAt_matchSignature_of_eq hw hpos hstop heq
    have hdone := matchSignature_of_eq heq
    have hnext : ∀ found last trace, matchSignature signature w pos = .done found last trace →
        (next found).SettlesAt more w last := by
      intro found last trace h
      obtain ⟨rfl, rfl, -⟩ := Outcome.done.inj (hdone.symm.trans h)
      exact hyes w _ hw (by omega) (hmatch.last_le_stop hdone)
    exact (hmatch.bind hnext).mono hmore
  · by_cases hpre : signatureHead signature w pos <+: signature
    · have hshort : (matchSignature signature w pos).Truncated := by
        apply matchSignature_truncated _ hpre
        have hprefixLength := hpre.length_le
        have hne : (signatureHead signature w pos).length ≠ signature.length :=
          fun hsame => heq (hpre.eq_of_length hsame)
        omega
      obtain ⟨failure, last, trace, hfailed, hkind⟩ := hshort.eq_failed
      apply SettlesAt.of_truncated
      rw [bind_of_failed hfailed]
      exact hkind
    · have hforesees := foreseesAt_matchSignature_of_mismatch hw hpos hstop hpre
      have hdone := matchSignature_of_mismatch hpre
      have hnext : ∀ found last trace, matchSignature signature w pos = .done found last trace →
          (next found).SettlesAt least w last := by
        intro found last trace h
        obtain ⟨rfl, rfl, -⟩ := Outcome.done.inj (hdone.symm.trans h)
        exact hno w _ hw hpos hstop
      exact hforesees.bind hnext hle

end Signature

theorem settles_declaredWidth (field : String) (allowed : List Nat) :
    (declaredWidth field allowed).Settles 1 := by
  refine settles_position.bind_next fun offset => settles_nextByte.bind fun width => ?_
  split
  · exact settles_pure _
  · exact settles_failAt _ _ _

theorem settles_sampleOrder (integerSize numberSize : Nat) :
    (sampleOrder integerSize numberSize).Settles 1 :=
  (settles_take integerSize).weak.bind_next fun _ =>
    (settles_float _ _).bind fun _ => settles_pure _

theorem settles_rest51 (dialect : Dialect) : (rest51 dialect).Settles 1 := by
  refine settles_nextByte.bind fun format => settles_nextByte.weak.bind fun order => ?_
  refine (settles_declaredWidth _ _).weak.bind fun intSize => ?_
  refine (settles_declaredWidth _ _).weak.bind fun sizeTSize => ?_
  refine (settles_declaredWidth _ _).weak.bind fun instructionSize => ?_
  refine settles_position.bind fun offset => settles_nextByte.weak.bind fun numberSize => ?_
  refine settles_nextByte.weak.bind fun integral => ?_
  dsimp only
  generalize (if (integral != 0) = true then integerWidths else floatWidths) = allowed
  split
  · rw [failAt_bind]
    exact settles_failAt _ _ _
  · split
    · exact (settles_skip 6).weak.bind fun _ => settles_pure _
    · exact settles_pure _

theorem settles_rest53 : rest53.Settles 1 := by
  refine settles_nextByte.bind fun format => (settles_skip 6).weak.bind fun _ => ?_
  refine (settles_declaredWidth _ _).weak.bind fun intSize => ?_
  refine (settles_declaredWidth _ _).weak.bind fun sizeTSize => ?_
  refine (settles_declaredWidth _ _).weak.bind fun instructionSize => ?_
  refine (settles_declaredWidth _ _).weak.bind fun integerSize => ?_
  refine (settles_declaredWidth _ _).weak.bind fun numberSize => ?_
  refine (settles_sampleOrder _ _).weak.bind fun bigEndian => ?_
  exact settles_nextByte.weak.bind fun _ => settles_pure _

theorem settles_rest54 : rest54.Settles 1 := by
  refine settles_nextByte.bind fun format => (settles_skip 6).weak.bind fun _ => ?_
  refine (settles_declaredWidth _ _).weak.bind fun instructionSize => ?_
  refine (settles_declaredWidth _ _).weak.bind fun integerSize => ?_
  refine (settles_declaredWidth _ _).weak.bind fun numberSize => ?_
  refine (settles_sampleOrder _ _).weak.bind fun bigEndian => ?_
  exact settles_nextByte.weak.bind fun _ => settles_pure _

theorem settles_afterLua : afterLua.Settles 1 := by
  refine settles_position.bind_next fun offset => settles_nextByte.bind fun selector => ?_
  split
  · exact (settles_rest51 _).weak
  · exact (settles_rest51 _).weak
  · exact settles_rest53.weak
  · exact settles_rest54.weak
  · exact settles_failAt _ _ _

theorem settles_afterLuaJit : afterLuaJit.Settles 1 := by
  refine settles_position.bind_next fun offset => settles_nextByte.bind fun selector => ?_
  have hrest : ∀ dialect, (restJit dialect).Settles 0 :=
    fun _ => settles_nextByte.weak.bind fun _ => settles_pure _
  split
  · exact hrest _
  · exact hrest _
  · exact settles_failAt _ _ _

theorem settles_unknownSignature (least : Nat) : unknownSignature.Settles least := by
  intro w pos hw hpos hstop
  apply SettlesAt.of_failed rfl (Int.le_refl pos)
  apply SettledBy.of_alike hstop
  intro w' _ _
  exact ⟨.unknownSignature _ _, rfl, rfl⟩

theorem settles_sniff : sniff.Settles 0 := by
  have hjit : (do
      if ← matchSignature luaJitSignature then afterLuaJit else unknownSignature).Settles 4 :=
    settles_matchSignature_bind settles_afterLuaJit (settles_unknownSignature 4) (by decide)
      (by decide)
  have hlua : (do
      if ← matchSignature luaSignature then afterLua
      else if ← matchSignature luaJitSignature then afterLuaJit
      else unknownSignature).Settles 4 :=
    settles_matchSignature_bind settles_afterLua hjit (by decide) (by decide)
  exact (hlua.weak.named _).bind fun header => (settles_emit _).bind fun _ => settles_pure _

/-- A compiler's message takes up the rest of the input, whatever its length. -/
theorem settles_compileError (offset : Int) :
    (do
      let left ← remaining
      let message ← take left
      failAt offset (.compileError message) : Decoder (Nat × Nat)).Settles 0 := by
  have hfailed : ∀ (w : Window) (pos : Int), pos ≤ w.stop → (do
      let left ← remaining
      let message ← take left
      failAt offset (.compileError message) : Decoder (Nat × Nat)) w pos =
        .failed ⟨.compileError (w.slice pos w.stop), offset, []⟩ w.stop [] := by
    intro w pos hstop
    have htake : take (w.remaining pos) w pos = .done (w.slice pos w.stop) w.stop [] := by
      have hleft : pos + w.remaining pos = w.stop := by
        simp only [Window.remaining]
        omega
      rw [take, if_neg (by simp only [Window.remaining]; omega), if_pos (by omega), hleft]
    rw [bind_of_done rfl, bind_of_done htake]
    rfl
  intro w pos hw hpos hstop
  apply SettlesAt.of_failed (hfailed w pos hstop) (Int.le_refl pos)
  apply SettledBy.of_alike hstop
  intro w' _ hstop'
  rw [hfailed w pos hstop, hfailed w' pos hstop']
  exact ⟨.compileError _ _, rfl, rfl⟩

theorem settles_luauVersions : luauVersions.Settles 1 := by
  refine settles_position.bind_next fun offset => settles_nextByte.bind fun version => ?_
  split
  · exact settles_compileError offset
  · split
    · exact settles_failAt _ _ _
    · split
      · exact settles_pure _
      · refine settles_position.bind fun offset => settles_nextByte.weak.bind fun types => ?_
        split
        · exact settles_failAt _ _ _
        · exact settles_pure _

theorem settles_luau : luau.Settles 0 :=
  (settles_luauVersions.weak.named _).bind fun _ => (settles_emit _).bind fun _ => settles_pure _

end Header

end LuaDump
