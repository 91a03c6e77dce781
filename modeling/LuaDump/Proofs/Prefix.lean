import LuaDump.Decode
import LuaDump.Proofs.Settling.Function
import LuaDump.Proofs.Settling.Header

/-! # The prefix law of decoding

A file that decodes has a shortest prefix that decodes. Whatever follows this prefix
never matters, and every shorter prefix is reported as truncated.
-/

namespace LuaDump

open Decoder

theorem settles_mainFunction (h : Header) (maxDepth : Int) :
    (mainFunction h maxDepth).Settles 0 := by
  unfold mainFunction
  split
  · exact ((Standard.grammar51_settles h).chunk _ _).weak
  · exact ((Standard.grammar52_settles h).chunk _ _).weak
  · exact ((Standard.grammar53_settles h).chunk _ _).weak
  · exact ((Standard.grammar54_settles h).chunk _ _).weak
  · exact Jit.settles_main h maxDepth
  · exact Jit.settles_main h maxDepth
  · exact Luau.settles_main h maxDepth

/-- The last trace line tells how many bytes are left, but the result does not. -/
theorem settles_finish (header : Header) (main : Prototype) :
    (do
      let left ← remaining
      emit (.finished header.dialect left)
      pure { header, main } : Decoder Bytecode).Settles 0 := by
  intro w pos hw hpos hstop
  apply SettlesAt.of_done rfl (by omega)
  exact .of_alike hstop fun _ _ _ => ⟨rfl, rfl⟩

theorem settles_header (origin : Origin) : origin.header.Settles 0 := by
  cases origin with
  | sniffed => exact Header.settles_sniff
  | luau => exact Header.settles_luau

theorem settles_file (options : Options) : (file options).Settles 0 := by
  refine (settles_header options.origin).bind fun header => ?_
  split
  · rw [failAt_bind]
    exact settles_failAt _ _ _
  · exact (settles_mainFunction _ _).bind fun main => settles_finish header main

theorem whole_agree {data data' : Array UInt8} {count : Nat} (hcount : count ≤ data.size)
    (hstarts : data.toList.take count <+: data'.toList) :
    (Window.whole data).Agree (Window.whole data') 0 count := by
  intro i _ hi
  have hlength : i < (data.toList.take count).length := by
    rw [List.length_take, Array.length_toList]
    omega
  have hsame := List.prefix_iff_getElem?.mp hstarts i hlength
  rw [← List.getElem?_eq_getElem, List.getElem?_take_of_lt (by omega)] at hsame
  simpa [Window.whole] using hsame.symm

/-- The prefix law: what decodes is settled by the bytes before the final position. -/
theorem decode_prefix_law (options : Options) (data : Array UInt8) {bytecode : Bytecode}
    {last : Int} {trace : List Event} (hdone : decode options data = .done bytecode last trace) :
    ∃ count : Nat, last = count ∧ count ≤ data.size ∧
      (∀ data' : Array UInt8, data.toList.take count <+: data'.toList →
        ∃ trace', decode options data' = .done bytecode last trace') ∧
      ∀ n < count, ∃ failure pos trace',
        decode options (data.take n) = .failed failure pos trace' ∧
          failure.kind = .truncated := by
  obtain ⟨hlast, hsettled⟩ := (settles_file options (Window.whole data) 0 (Window.whole_sound data)
    (Int.le_refl 0) (Window.whole_sound data).nonneg).done hdone
  obtain ⟨count, rfl⟩ := Int.eq_ofNat_of_zero_le (by omega : 0 ≤ last)
  have hsize : (count : Int) ≤ data.size := hsettled.le_stop
  refine ⟨count, rfl, by omega, ?_, ?_⟩
  -- Other data with the same bytes before the final position.
  · intro data' hstarts
    have hlength := hstarts.length_le
    rw [List.length_take, Array.length_toList, Array.length_toList] at hlength
    have hstop : (count : Int) ≤ (Window.whole data').stop := by
      simp only [Window.whole]
      omega
    have hsame := hsettled.alike (Window.whole data') (Window.whole_sound data') hstop
      (whole_agree (by omega) hstarts)
    rw [← decode, hdone] at hsame
    exact hsame.eq_done
  -- Data that ends before the final position.
  · intro n hn
    have hstop : (Window.whole (data.take n)).stop = n := by
      simp only [Window.whole, Array.take_eq_extract, Array.size_extract]
      omega
    have hstarts : data.toList.take n <+: (data.take n).toList := by
      simp
    have hfew := hsettled.truncated (Window.whole (data.take n)) (Window.whole_sound _)
      (Window.whole_sound _).nonneg (by omega) (hstop ▸ whole_agree (by omega) hstarts)
    exact hfew.eq_failed

/-- A LuaJIT dump of one function inside another, and a byte that does not belong to it. -/
def nestedSample : Array UInt8 :=
  #[0x1B, 0x4C, 0x4A, 2, 2, 7, 0, 0, 2, 0, 0, 0, 0, 10, 1, 0, 2, 0, 2, 0, 0, 0, 6, 0x61, 0, 0xFF]

/-- All but the last byte of the sample are needed. -/
theorem decode_prefix_law_nestedSample :
    (∃ bytecode trace, decode {} nestedSample = .done bytecode 25 trace) ∧
      ∀ n < 25, ∃ failure pos trace,
        decode {} (nestedSample.take n) = .failed failure pos trace ∧
          failure.kind = .truncated := by
  obtain ⟨bytecode, trace, hdone⟩ :
      ∃ bytecode trace, decode {} nestedSample = .done bytecode 25 trace := ⟨_, _, rfl⟩
  obtain ⟨count, hcount, -, -, hshort⟩ := decode_prefix_law {} nestedSample hdone
  refine ⟨⟨bytecode, trace, hdone⟩, ?_⟩
  intro n hn
  exact hshort n (by omega)

end LuaDump
