import LuaDump.Decode
import LuaDump.Proofs.Reading
import LuaDump.Proofs.Settling.Header

/-! # Files are read back

A file whose header and main function are read back is decoded to them, and the bytes after
it are left alone.
-/

namespace LuaDump

open Decoder

namespace Header

theorem signatureHead_of_holds {signature bytes : Bytes} {w : Window} {pos : Int}
    (hlength : signature.length ≤ bytes.length) (hholds : w.Holds pos bytes) :
    signatureHead signature w pos = bytes.take signature.length := by
  have hinside := hholds.inside
  have htake : w.Holds pos (bytes.take signature.length) := by
    rw [← List.take_append_drop signature.length bytes] at hholds
    exact hholds.left
  have hslice := htake.slice_eq
  rw [List.length_take, Nat.min_eq_left hlength] at hslice
  rw [signatureHead, Int.min_eq_left (by omega), hslice]

theorem reads_matchSignature (signature : Bytes) :
    (matchSignature signature).Reads signature true := by
  intro w pos hw hholds
  have hhead := signatureHead_of_holds (Nat.le_refl _) hholds
  rw [List.take_length] at hhead
  exact ⟨[], matchSignature_of_eq hhead⟩

/-- A signature that does not match leaves the bytes where they are. -/
theorem reads_matchSignature_bind {α : Type} {signature bytes : Bytes} {next : Bool → Decoder α}
    {result : α} (hlength : signature.length ≤ bytes.length)
    (hdiffers : bytes.take signature.length ≠ signature) (hnext : (next false).Reads bytes result) :
    (matchSignature signature >>= next).Reads bytes result := by
  intro w pos hw hholds
  obtain ⟨trace, hdone⟩ := hnext w pos hw hholds
  have hmismatch : ¬ signatureHead signature w pos <+: signature := by
    rw [signatureHead_of_holds hlength hholds]
    intro hstarts
    exact hdiffers (hstarts.eq_of_length (by rw [List.length_take, Nat.min_eq_left hlength]))
  exact ⟨trace, by rw [bind_of_done (matchSignature_of_mismatch hmismatch), hdone]; rfl⟩

end Header

/-- A written header and a written main function are decoded, whatever follows them. -/
theorem decode_of_reads {options : Options} {header : Header} {main : Prototype}
    {headerBytes mainBytes : Bytes} (hheader : options.origin.header.Reads headerBytes header)
    (hmain : (mainFunction header options.maxDepth).Reads mainBytes main)
    (henabled : header.dialect ∉ options.disabled) (trailing : Bytes) :
    ∃ trace, decode options (headerBytes ++ mainBytes ++ trailing).toArray =
      .done ⟨header, main⟩ (headerBytes ++ mainBytes).length trace := by
  have hfile : (file options).Reads (headerBytes ++ mainBytes) ⟨header, main⟩ := by
    refine hheader.bind ?_
    simp only [if_neg henabled]
    refine hmain.bind_nil ?_
    intro w pos _ _
    exact ⟨_, by simp; rfl⟩
  obtain ⟨trace, hdone⟩ := hfile _ 0 (Window.whole_sound _) (Window.whole_holds _ trailing)
  exact ⟨trace, by rw [decode, hdone, Int.zero_add]⟩

end LuaDump
