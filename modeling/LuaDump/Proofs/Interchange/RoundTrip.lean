import LuaDump.Proofs.Interchange.Document
import LuaDump.Proofs.Interchange.RecordRange

/-! # Decoded dumps survive interchange

Every dump that is decoded from a file of less than 4 GiB has a document, and the dump is read
back from the bytes of the document as it was.
-/

namespace LuaDump

open Decoder

namespace Header

theorem isWord_four : IsWord 4 :=
  ⟨by decide, by decide⟩

theorem isWord_eight : IsWord 8 :=
  ⟨by decide, by decide⟩

theorem declaredWidth_isWord (field : String) (allowed : List Nat) :
    (declaredWidth field allowed).Yields fun width => IsWord width := by
  refine (Yields.any _).bind fun offset _ => (Yields.any _).bind fun width _ => ?_
  split
  · exact .pure (isWord_byte width)
  · exact .failAt _ _

theorem rest51_fits (dialect : Dialect) : (rest51 dialect).Yields Header.Fits := by
  refine (Yields.any _).bind fun format _ => (Yields.any _).bind fun order _ => ?_
  refine (declaredWidth_isWord _ _).bind fun intSize hintSize => ?_
  refine (declaredWidth_isWord _ _).bind fun sizeTSize hsizeTSize => ?_
  refine (declaredWidth_isWord _ _).bind fun instructionSize hinstructionSize => ?_
  refine (Yields.any _).bind fun offset _ => (Yields.any _).bind fun numberSize _ => ?_
  refine (Yields.any _).bind fun integral _ => ?_
  have hfits : ∀ bigEndian numberIntegral, Header.Fits
      { dialect, formatVersion := format.toNat, bigEndian, intSize, sizeTSize, instructionSize,
        numberSize := numberSize.toNat, numberIntegral } := fun _ _ =>
    ⟨isWord_byte format, hintSize, hsizeTSize, hinstructionSize, isWord_byte numberSize,
      isWord_eight, isWord_zero⟩
  dsimp only
  generalize (if (integral != 0) = true then integerWidths else floatWidths) = allowed
  split
  · rw [failAt_bind]
    exact .failAt _ _
  · split
    · exact (Yields.any _).bind fun _ _ => .pure (hfits _ _)
    · exact .pure (hfits _ _)

theorem rest53_fits : rest53.Yields Header.Fits := by
  refine (Yields.any _).bind fun format _ => (Yields.any _).bind fun _ _ => ?_
  refine (declaredWidth_isWord _ _).bind fun intSize hintSize => ?_
  refine (declaredWidth_isWord _ _).bind fun sizeTSize hsizeTSize => ?_
  refine (declaredWidth_isWord _ _).bind fun instructionSize hinstructionSize => ?_
  refine (declaredWidth_isWord _ _).bind fun integerSize hintegerSize => ?_
  refine (declaredWidth_isWord _ _).bind fun numberSize hnumberSize => ?_
  refine (Yields.any _).bind fun bigEndian _ => (Yields.any _).bind fun _ _ => .pure ?_
  exact ⟨isWord_byte format, hintSize, hsizeTSize, hinstructionSize, hnumberSize, hintegerSize,
    isWord_zero⟩

theorem rest54_fits : rest54.Yields Header.Fits := by
  refine (Yields.any _).bind fun format _ => (Yields.any _).bind fun _ _ => ?_
  refine (declaredWidth_isWord _ _).bind fun instructionSize hinstructionSize => ?_
  refine (declaredWidth_isWord _ _).bind fun integerSize hintegerSize => ?_
  refine (declaredWidth_isWord _ _).bind fun numberSize hnumberSize => ?_
  refine (Yields.any _).bind fun bigEndian _ => (Yields.any _).bind fun _ _ => .pure ?_
  exact ⟨isWord_byte format, isWord_four, isWord_eight, hinstructionSize, hnumberSize,
    hintegerSize, isWord_zero⟩

theorem restJit_fits (dialect : Dialect) : (restJit dialect).Yields Header.Fits :=
  (Yields.any _).bind fun _ _ => .pure ⟨isWord_zero, isWord_four, isWord_four, isWord_four,
    isWord_four, isWord_eight, isWord_zero⟩

theorem sniff_fits : sniff.Yields Header.Fits := by
  have hlua : afterLua.Yields Header.Fits := by
    refine (Yields.any _).bind fun offset _ => (Yields.any _).bind fun selector _ => ?_
    split
    · exact rest51_fits _
    · exact rest51_fits _
    · exact rest53_fits
    · exact rest54_fits
    · exact .failAt _ _
  have hjit : afterLuaJit.Yields Header.Fits := by
    refine (Yields.any _).bind fun offset _ => (Yields.any _).bind fun selector _ => ?_
    split
    · exact restJit_fits _
    · exact restJit_fits _
    · exact .failAt _ _
  have hunknown : unknownSignature.Yields Header.Fits := fun _ _ _ _ _ hdone =>
    absurd hdone (by simp [unknownSignature])
  refine .bind (.named ?_ _) fun header hheader => (Yields.any _).bind fun _ _ => .pure hheader
  refine (Yields.any _).bind fun isLua _ => ?_
  split
  · exact hlua
  · refine (Yields.any _).bind fun isJit _ => ?_
    split
    · exact hjit
    · exact hunknown

theorem luau_fits : luau.Yields Header.Fits := by
  have hversions : luauVersions.Yields fun versions =>
      IsWord versions.1 ∧ IsWord versions.2 := by
    refine (Yields.any _).bind fun offset _ => (Yields.any _).bind fun version _ => ?_
    split
    · exact (Yields.any _).bind fun _ _ => (Yields.any _).bind fun _ _ => .failAt _ _
    · split
      · exact .failAt _ _
      · split
        · exact .pure ⟨isWord_byte version, isWord_zero⟩
        · refine (Yields.any _).bind fun offset _ => (Yields.any _).bind fun types _ => ?_
          split
          · exact .failAt _ _
          · exact .pure ⟨isWord_byte version, isWord_byte types⟩
  refine .bind (.named hversions _) fun versions hwords => (Yields.any _).bind fun _ _ => .pure ?_
  exact ⟨hwords.1, isWord_four, isWord_four, isWord_four, isWord_eight, isWord_eight, hwords.2⟩

end Header

theorem header_fits (origin : Origin) : origin.header.Yields Header.Fits := by
  cases origin with
  | sniffed => exact Header.sniff_fits
  | luau => exact Header.luau_fits

theorem mainFunction_fits {room : Nat} (hroom : IsLength room) (h : Header) (maxDepth : Int) :
    (mainFunction h maxDepth).Delivers room (Prototype.Everywhere Prototype.Fits) := by
  have hearly : IsLength (room + 0) := hroom
  have hlate : IsLength (0 + room) := (Nat.zero_add room).symm ▸ hroom
  unfold mainFunction
  split
  · exact (Standard.grammar51_delivers h hroom).main_fits hroom isLength_zero maxDepth
  · exact (Standard.grammar52_delivers h hroom).main_fits hroom hlate maxDepth
  · exact (Standard.grammar53_delivers h hroom).main_fits hroom hearly maxDepth
  · exact (Standard.grammar54_delivers h hroom).main_fits hroom hearly maxDepth
  · exact Jit.main_fits hroom h maxDepth
  · exact Jit.main_fits hroom h maxDepth
  · exact Luau.main_fits hroom h maxDepth

namespace Interchange

open MessagePack

/-- What is decoded from less than 4 GiB has a document with integers and lengths in range.
The bytes of the document are read back as the same dump, wherever as many levels of values are
allowed as the document has; within the usual limit, packing and unpacking do this. -/
theorem unpack_pack_of_decode {options : Options} {data : Array UInt8} {bytecode : Bytecode}
    {last : Int} {trace : List Event} (hsize : data.size < 2 ^ 32)
    (hdecode : decode options data = .done bytecode last trace) :
    (ofBytecode bytecode).Encodable ∧ ∃ bytes, encode (ofBytecode bytecode) = some bytes ∧
      (∀ depth, (ofBytecode bytecode).levels ≤ depth →
        (decode? depth bytes).map ofDocument = some (.ok bytecode)) ∧
      ((ofBytecode bytecode).levels ≤ levelLimit →
        pack bytecode = .ok bytes ∧ unpack bytes = .ok bytecode) := by
  obtain ⟨hheader, hmain⟩ := decode_gives hdecode
  have hencodable : (ofBytecode bytecode).Encodable :=
    encodable_ofBytecode
      (((settles_header options.origin).yields (header_fits options.origin)).of_gives hheader)
      ((mainFunction_fits hsize _ _).of_gives hmain)
  obtain ⟨bytes, hbytes, hread⟩ := hencodable.isReadBack
  have hdocument := ofDocument_ofBytecode bytecode
  refine ⟨hencodable, bytes, hbytes, fun depth hdepth => ?_, fun hlevels => ⟨?_, ?_⟩⟩
  · rw [hread.decode? hdepth, Option.map_some, hdocument]
  · simp only [pack, if_neg (Nat.not_lt.mpr hlevels), hbytes]
  · have hdepth : (ofBytecode bytecode).levels ≤ depthLimit :=
      Nat.le_trans hlevels (by decide)
    simp only [unpack, hread.decode? hdepth, hdocument]

/-- A Luau dump of two functions. The main function has constants of most kinds: a truth value,
a NaN with a payload, a string, a table with the string as its key, and its child. Its only
line is negative. -/
def mixedSample : Array UInt8 :=
  #[3, 1, 1, 97, 2,
    0, 0, 0, 0, 0, 0, 0, 0, 0, 0, 0,
    2, 0, 0, 1, 1, 11, 0, 0, 0,
    5, 1, 1, 2, 1, 0, 0, 0, 0, 0, 248, 255, 3, 1, 5, 1, 2, 6, 0,
    1, 0, 1, 1,
    1, 0, 0, 255, 255, 255, 255,
    1, 1, 1, 0, 1, 0, 0,
    1]

theorem decode_mixedSample : ∃ bytecode last trace,
    decode { origin := .luau } mixedSample = .done bytecode last trace ∧
      bytecode.main.body.constants =
        [.boolean true, .float (.ofPattern 0xFFF8000000000001), .string [97],
          .table [] [(.string [97], .integer 0)], .proto 0] ∧
      bytecode.main.body.sourceLines = [(0, -1)] ∧
      (ofBytecode bytecode).levels ≤ levelLimit :=
  ⟨_, _, _, rfl, rfl, rfl, by decide⟩

theorem unpack_pack_of_decode_mixedSample : ∃ bytecode last trace bytes,
    mixedSample.size < 2 ^ 32 ∧
      decode { origin := .luau } mixedSample = .done bytecode last trace ∧
        (ofBytecode bytecode).Encodable ∧ pack bytecode = .ok bytes ∧
          unpack bytes = .ok bytecode := by
  obtain ⟨bytecode, last, trace, hdecode, -, -, hlevels⟩ := decode_mixedSample
  have hsize : mixedSample.size < 2 ^ 32 := by decide
  obtain ⟨hencodable, bytes, -, -, hpacked⟩ := unpack_pack_of_decode hsize hdecode
  exact ⟨bytecode, last, trace, bytes, hsize, hdecode, hencodable, hpacked hlevels⟩

end Interchange

end LuaDump
