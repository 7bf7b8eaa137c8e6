import PacketCapture.Proofs.Sctp.Framing
import PacketCapture.Proofs.Wire.Acceptance

/-! # Chunks put together

No chunk looks beyond its own padding. Chunks that fill a byte string are therefore decoded alike
with anything behind them, which decodes or fails as it does alone, and the data of a segment are
those of its parts in order.
-/
namespace PacketCapture.Sctp
open Decoder

namespace Segment
variable {fields bytes rest : Bytes} {segment : Segment}

theorem recognizes_decode : decode.Recognizes fun bytes =>
    headerSize ≤ bytes.length ∧ Chunk.decodeAll.Accepts (bytes.drop headerSize) := by
  have hword16 := fixed_word16 .bigEndian
  have hword32 := fixed_word32 .bigEndian
  have h : decode.Recognizes (Behind 2 (Behind 2 (Behind 4 (Behind 4 fun content =>
      Chunk.decodeAll.Accepts content)))) := by
    refine hword16.bind_recognizes fun sourcePort => ?_
    refine hword16.bind_recognizes fun destinationPort => ?_
    refine hword32.bind_recognizes fun verificationTag => ?_
    refine hword32.bind_recognizes fun checksum => ?_
    exact Recognizes.bind_pure (fun _ => Iff.rfl) _
  simp only [behind_behind] at h
  exact h

theorem exists_encodeFields (h : fields.length = headerSize) :
    ∃ segment : Segment, fields = segment.encodeFields := by
  have haccepts : decode.Accepts fields := by
    apply (recognizes_decode fields).mpr
    rw [← h, List.drop_length]
    exact ⟨Nat.le_refl _, [], [], run_many_nil⟩
  obtain ⟨segment, rest, hrun⟩ := haccepts
  obtain ⟨chunks, rfl, _⟩ := decode_eq_ok hrun
  rw [List.length_append, length_encodeFields] at h
  obtain rfl : chunks = [] := List.eq_nil_of_length_eq_zero (by omega)
  exact ⟨segment, List.append_nil _⟩

theorem run_decode_of_fields (segment : Segment) (bytes : Bytes) :
    decode.run (segment.encodeFields ++ bytes) = (Chunk.decodeAll.run bytes).map fun found =>
      ({ segment with chunks := found.1 }, found.2) := by
  simp only [encodeFields, List.append_assoc]
  rw [decode, (reads_bytes16 _ _).run_bind, (reads_bytes16 _ _).run_bind,
    (reads_bytes32 _ _).run_bind, (reads_bytes32 _ _).run_bind]
  cases hrun : Chunk.decodeAll.run bytes with
  | error error => exact run_bind_of_error hrun
  | ok found => exact run_bind_of_ok hrun

theorem chunks_of_fields {common : Segment}
    (h : decode.run (common.encodeFields ++ bytes) = .ok (segment, rest)) :
    Chunk.decodeAll.run bytes = .ok (segment.chunks, rest) := by
  rw [run_decode_of_fields] at h
  cases hrun : Chunk.decodeAll.run bytes with
  | error error =>
    rw [hrun] at h
    cases h
  | ok found =>
    rw [hrun] at h
    cases h
    rfl

end Segment

namespace Chunk
variable {bytes rest : Bytes} {chunks : List Chunk}

theorem run_decodeAll_append (h : decodeAll.run bytes = .ok (chunks, rest)) (more : Bytes) :
    decodeAll.run (bytes ++ more) =
      (decodeAll.run more).map fun found => (chunks ++ found.1, found.2) := by
  rw [decodeAll_eq_many_decode] at h ⊢
  exact many_append advances_decode delimited_decode h more

end Chunk

theorem Segment.data_of_append {fields bytes more left left' : Bytes} {first second : Segment}
    (hfields : fields.length = headerSize)
    (hfirst : decode.run (fields ++ bytes) = .ok (first, left))
    (hsecond : decode.run (fields ++ more) = .ok (second, left')) :
    ∃ whole, decode.run (fields ++ (bytes ++ more)) = .ok (whole, []) ∧
      whole.data = first.data ++ second.data := by
  obtain ⟨common, rfl⟩ := exists_encodeFields hfields
  have hbytes := chunks_of_fields hfirst
  have hmore := chunks_of_fields hsecond
  obtain ⟨_, rfl⟩ := Chunk.tiles_of_decodeAll hmore
  refine ⟨{ common with chunks := first.chunks ++ second.chunks }, ?_, ?_⟩
  · rw [run_decode_of_fields, Chunk.run_decodeAll_append hbytes, hmore]
    rfl
  · simp only [data, List.flatMap_append]

namespace Chunk
variable {bytes rest : Bytes} {chunks : List Chunk}

/-- Behind chunks that fill a byte string, anything decodes to chunks that come after them, or it
fails with the error that it has alone. A segment that carries both has the data of both. -/
theorem decodeAll_append (h : decodeAll.run bytes = .ok (chunks, rest)) (more : Bytes) :
    decodeAll.run (bytes ++ more) =
        (decodeAll.run more).map (fun found => (chunks ++ found.1, found.2)) ∧
      ∀ (fields left left' : Bytes) (first second : Segment),
        fields.length = Segment.headerSize →
        Segment.decode.run (fields ++ bytes) = .ok (first, left) →
        Segment.decode.run (fields ++ more) = .ok (second, left') →
        ∃ whole, Segment.decode.run (fields ++ (bytes ++ more)) = .ok (whole, []) ∧
          whole.data = first.data ++ second.data := by
  refine ⟨run_decodeAll_append h more, ?_⟩
  intro fields left left' first second hfields hfirst hsecond
  exact Segment.data_of_append hfields hfirst hsecond

def threeBytes : Bytes := [
  0, 3, 0, 19, 0, 0, 0, 1, 0, 0, 0, 0, 0, 0, 0, 0, 0x61, 0x62, 0x63, 0xee]

def twoBytes : Bytes := [
  11, 0, 0, 4, 0, 3, 0, 18, 0, 0, 0, 2, 0, 0, 0, 1, 0, 0, 0, 0, 0x64, 0x65, 0, 0]

theorem decodeAll_append_twoBytes : ∃ chunks others whole,
    decodeAll.run threeBytes = .ok (chunks, []) ∧ decodeAll.run twoBytes = .ok (others, []) ∧
      decodeAll.run (threeBytes ++ twoBytes) = .ok (chunks ++ others, []) ∧
      decodeAll.run (threeBytes ++ twoBytes.take 9) = .error .insufficientLength ∧
      Segment.decode.run (List.replicate 12 0 ++ (threeBytes ++ twoBytes)) = .ok (whole, []) ∧
      whole.data = [0x61, 0x62, 0x63, 0x64, 0x65] := by
  obtain ⟨chunks, first, hrun, hfirst, hdata⟩ : ∃ chunks first,
      decodeAll.run threeBytes = .ok (chunks, []) ∧
      Segment.decode.run (List.replicate 12 0 ++ threeBytes) = .ok (first, []) ∧
      first.data = [0x61, 0x62, 0x63] := ⟨_, _, rfl, rfl, rfl⟩
  obtain ⟨others, second, hmore, hsecond, hdata'⟩ : ∃ others second,
      decodeAll.run twoBytes = .ok (others, []) ∧
      Segment.decode.run (List.replicate 12 0 ++ twoBytes) = .ok (second, []) ∧
      second.data = [0x64, 0x65] := ⟨_, _, rfl, rfl, rfl⟩
  obtain ⟨hwhole, hsegments⟩ := decodeAll_append hrun twoBytes
  obtain ⟨hcut, _⟩ := decodeAll_append hrun (twoBytes.take 9)
  obtain ⟨whole, hsegment, hboth⟩ := hsegments _ _ _ _ _ (by decide) hfirst hsecond
  refine ⟨chunks, others, whole, hrun, hmore, ?_, hcut, hsegment, ?_⟩
  · rw [hwhole, hmore]
    rfl
  · rw [hboth, hdata, hdata']
    rfl

end Chunk
end PacketCapture.Sctp
