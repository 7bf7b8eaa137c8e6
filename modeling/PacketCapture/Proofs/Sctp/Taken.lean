import PacketCapture.Proofs.Sctp.Chunk
import PacketCapture.Proofs.Wire.Peeling
import PacketCapture.Proofs.Wire.Taken
import PacketCapture.Sctp.Segment

/-! # The bytes of decoded segments

A chunk or parameter that was decoded stands at the front of its input as the encoding of its header
and as many bytes more as the header declares. Its value was decoded from these bytes alone.
-/
namespace PacketCapture.Sctp
open Decoder
variable {bytes rest : Bytes}

namespace ParameterHeader

theorem decode_eq_ok {header : ParameterHeader} (h : decode.run bytes = .ok (header, rest)) :
    bytes = header.encode ++ rest := by
  obtain ⟨type, _, rfl, h₁⟩ := word16_bind_eq_ok h
  obtain ⟨length, _, rfl, h₂⟩ := word16_bind_eq_ok h₁
  cases h₂
  exact (List.append_assoc ..).symm

theorem fixed_decode : decode.Fixed size := by
  have hword16 := fixed_word16 .bigEndian
  change decode.Fixed (2 + (2 + 0))
  refine hword16.bind fun type => ?_
  exact hword16.bind fun length => fixed_pure _

theorem exists_encode (h : size ≤ bytes.length) :
    ∃ (header : ParameterHeader) (more : Bytes), bytes = header.encode ++ more := by
  obtain ⟨header, _, hrun⟩ := fixed_decode.run_of_le h
  exact ⟨header, _, decode_eq_ok hrun⟩

theorem eq_of_encode {header other : ParameterHeader} {left more : Bytes}
    (h : decode.run bytes = .ok (header, left)) (hbytes : bytes = other.encode ++ more) :
    header = other := by
  rw [hbytes, other.reads_encode] at h
  cases h
  rfl

theorem decodeWithValue_eq_ok {α : Type} {layouts : ParameterType → Option (Layout α)}
    {header : ParameterHeader} {a : α}
    (h : (decodeWithValue layouts).run bytes = .ok ((header, a), rest)) :
    ∃ layout value left, layouts header.type = some layout ∧
      layout.least ≤ header.length.toNat ∧ bytes = header.encode ++ (value ++ rest) ∧
      value.length = header.length.toNat - size ∧ layout.value.run value = .ok (a, left) := by
  rw [decodeWithValue] at h
  obtain ⟨found, more, hheader, h₁⟩ := bind_eq_ok h
  obtain rfl := decode_eq_ok hheader
  cases hlayout : layouts found.type with
  | none =>
    simp only [hlayout] at h₁
    cases h₁
  | some layout =>
    simp only [hlayout] at h₁
    obtain ⟨hleast, h₂⟩ := guard_eq_ok h₁
    obtain ⟨_, value, left, _, rfl, hlen, hvalue, h₃⟩ := within_bind_eq_ok h₂
    cases h₃
    exact ⟨layout, value, left, hlayout, Nat.le_of_not_lt hleast, rfl, hlen, hvalue⟩

end ParameterHeader

namespace Parameter

theorem decode_eq_ok {registry : Registry} {parameter : Parameter}
    (h : (decode registry).run bytes = .ok (parameter, rest)) :
    ∃ layout value left, registry parameter.header.type = some layout ∧
      layout.least ≤ parameter.header.length.toNat ∧
      bytes = parameter.header.encode ++ (value ++ rest) ∧
      value.length = parameter.header.length.toNat - ParameterHeader.size ∧
      layout.value.run value = .ok (parameter.value, left) := by
  obtain ⟨⟨header, value⟩, _, hparameter, h₁⟩ := bind_eq_ok h
  cases h₁
  exact ParameterHeader.decodeWithValue_eq_ok hparameter

theorem decodePadded_eq_ok {d : Decoder Parameter} {parameter : Parameter}
    (h : (decodePadded d).run bytes = .ok (parameter, rest)) :
    ∃ header left stretch used more, ParameterHeader.decode.run bytes = .ok (header, left) ∧
      ParameterHeader.size ≤ header.length.toNat ∧ bytes = stretch ++ more ∧
      stretch.length = header.length.toNat ∧ d.run stretch = .ok (parameter, used) ∧
      rest = more.drop (align4 header.length.toNat - header.length.toNat) := by
  rw [decodePadded] at h
  obtain ⟨header, left, hheader, h₁⟩ := peek_bind_eq_ok h
  obtain ⟨hlong, h₂⟩ := guard_eq_ok h₁
  obtain ⟨_, stretch, used, more, rfl, hlen, hparameter, h₃⟩ := within_bind_eq_ok h₂
  cases h₃
  exact ⟨header, left, stretch, used, more, hheader, Nat.le_of_not_lt hlong, rfl, hlen,
    hparameter, rfl⟩

theorem advances_decodePadded (d : Decoder Parameter) : (decodePadded d).Advances := by
  intro bytes rest parameter hrun
  obtain ⟨header, left, stretch, used, more, _, hlong, rfl, hlen, _, rfl⟩ :=
    decodePadded_eq_ok hrun
  rw [List.length_append, List.length_drop]
  unfold ParameterHeader.size at hlong
  omega

theorem tiles_of_decodeAll {d : Decoder Parameter} {parameters : List Parameter}
    (h : (decodeAll d).run bytes = .ok (parameters, rest)) :
    (decodePadded d).Tiles bytes parameters ∧ rest = [] :=
  tiles_of_many (fun hrun => advances_decodePadded d hrun) h

end Parameter

theorem HeartbeatInfo.decode_eq_ok {info : HeartbeatInfo}
    (h : decode.run bytes = .ok (info, rest)) :
    info.header.type = .heartbeatInfo ∧ ParameterHeader.size ≤ info.header.length.toNat ∧
      bytes = info.header.encode ++ (info.info ++ rest) ∧
      info.info.length = info.header.length.toNat - ParameterHeader.size := by
  obtain ⟨⟨header, value⟩, _, hinfo, h₁⟩ := bind_eq_ok h
  cases h₁
  obtain ⟨layout, raw, left, hlayout, hleast, hbytes, hlen, hvalue⟩ :=
    ParameterHeader.decodeWithValue_eq_ok hinfo
  split at hlayout
  · rename_i htype
    cases hlayout
    cases hvalue
    exact ⟨htype, hleast, hbytes, hlen⟩
  · cases hlayout

theorem Payload.decode_eq_ok {payload : Payload} (h : decode.run bytes = .ok (payload, rest)) :
    bytes = payload.encode ∧ rest = [] := by
  obtain ⟨tsn, _, rfl, h₁⟩ := word32_bind_eq_ok h
  obtain ⟨streamIdentifier, _, rfl, h₂⟩ := word16_bind_eq_ok h₁
  obtain ⟨streamSequenceNumber, _, rfl, h₃⟩ := word16_bind_eq_ok h₂
  obtain ⟨payloadProtocolIdentifier, _, rfl, h₄⟩ := word32_bind_eq_ok h₃
  cases h₄
  exact ⟨rfl, rfl⟩

theorem Initiation.decode_eq_ok {initiation : Initiation}
    (h : decode.run bytes = .ok (initiation, rest)) :
    ∃ parameters, bytes = initiation.encodeFields ++ parameters ∧
      (Parameter.decodeAll (Parameter.decode .init)).run parameters =
        .ok (initiation.parameters, rest) := by
  obtain ⟨tag, _, rfl, h₁⟩ := word32_bind_eq_ok h
  obtain ⟨advertisedReceiverWindowCredit, _, rfl, h₂⟩ := word32_bind_eq_ok h₁
  obtain ⟨outboundStreams, _, rfl, h₃⟩ := word16_bind_eq_ok h₂
  obtain ⟨inboundStreams, _, rfl, h₄⟩ := word16_bind_eq_ok h₃
  obtain ⟨initialTsn, more, rfl, h₅⟩ := word32_bind_eq_ok h₄
  obtain ⟨parameters, _, hparameters, h₆⟩ := bind_eq_ok h₅
  cases h₆
  refine ⟨more, ?_, hparameters⟩
  simp only [encodeFields, List.append_assoc]

theorem GapBlock.fixed_decode : decode.Fixed 4 := by
  have hword16 := fixed_word16 .bigEndian
  change decode.Fixed (2 + (2 + 0))
  refine hword16.bind fun first => ?_
  exact hword16.bind fun last => fixed_pure _

theorem Acknowledgement.length_of_decode {acknowledgement : Acknowledgement}
    (h : decode.run bytes = .ok (acknowledgement, rest)) :
    bytes.length = acknowledgement.encode.length + rest.length := by
  rw [decode] at h
  obtain ⟨cumulativeTsn, _, rfl, h₁⟩ := word32_bind_eq_ok h
  obtain ⟨advertisedReceiverWindowCredit, _, rfl, h₂⟩ := word32_bind_eq_ok h₁
  obtain ⟨gapBlockCount, _, rfl, h₃⟩ := word16_bind_eq_ok h₂
  obtain ⟨duplicateCount, _, rfl, h₄⟩ := word16_bind_eq_ok h₃
  obtain ⟨gapBlocks, _, hblocks, h₅⟩ := bind_eq_ok h₄
  obtain ⟨duplicateTsns, _, hduplicates, h₆⟩ := bind_eq_ok h₅
  cases h₆
  have hfirst := GapBlock.fixed_decode.times.length_of_run hblocks
  have hsecond := (fixed_word32 _).times.length_of_run hduplicates
  have hcount := length_of_times hblocks
  have hcount' := length_of_times hduplicates
  rw [length_encode]
  simp only [List.length_append, ByteOrder.length_bytes16, ByteOrder.length_bytes32]
  omega

theorem ChunkHeader.decode_eq_ok {header : ChunkHeader}
    (h : decode.run bytes = .ok (header, rest)) : bytes = header.encode ++ rest := by
  obtain ⟨type, _, rfl, h₁⟩ := byte_bind_eq_ok h
  obtain ⟨flags, _, rfl, h₂⟩ := byte_bind_eq_ok h₁
  obtain ⟨length, _, rfl, h₃⟩ := word16_bind_eq_ok h₂
  cases h₃
  rfl

theorem ChunkHeader.fixed_decode : decode.Fixed size := by
  change decode.Fixed (1 + (1 + (2 + 0)))
  refine fixed_byte.bind fun type => ?_
  refine fixed_byte.bind fun flags => ?_
  exact (fixed_word16 .bigEndian).bind fun length => fixed_pure _

theorem ChunkHeader.exists_encode (h : size ≤ bytes.length) :
    ∃ (header : ChunkHeader) (more : Bytes), bytes = header.encode ++ more := by
  obtain ⟨header, _, hrun⟩ := fixed_decode.run_of_le h
  exact ⟨header, _, decode_eq_ok hrun⟩

namespace Chunk

theorem decode_eq_ok {chunk : Chunk} (h : decode.run bytes = .ok (chunk, rest)) :
    ∃ content padding left,
      (ChunkBody.layout chunk.header.type).least ≤ chunk.header.length.toNat ∧
      bytes = chunk.header.encode ++ (content ++ (padding ++ rest)) ∧
      content.length = chunk.header.length.toNat - ChunkHeader.size ∧
      padding.length = chunk.header.alignedLength - chunk.header.length.toNat ∧
      (ChunkBody.layout chunk.header.type).value.run content = .ok (chunk.body, left) := by
  rw [decode] at h
  obtain ⟨header, more, hheader, h₁⟩ := bind_eq_ok h
  obtain rfl := ChunkHeader.decode_eq_ok hheader
  obtain ⟨hleast, h₂⟩ := guard_eq_ok h₁
  obtain ⟨content, _, rfl, hcontent, h₃⟩ := take_bind_eq_ok h₂
  obtain ⟨padding, _, rfl, hpadding, h₄⟩ := take_bind_eq_ok h₃
  obtain ⟨body, left, hbody, h₅⟩ := on_bind_eq_ok h₄
  cases h₅
  exact ⟨content, padding, left, Nat.le_of_not_lt hleast, rfl, hcontent, hpadding, hbody⟩

theorem decodeBounded_eq_ok {chunk : Chunk} (h : decodeBounded.run bytes = .ok (chunk, rest)) :
    ∃ stretch left, ChunkHeader.size ≤ chunk.header.length.toNat ∧ bytes = stretch ++ rest ∧
      stretch.length = chunk.header.alignedLength ∧ decode.run stretch = .ok (chunk, left) := by
  rw [decodeBounded] at h
  obtain ⟨header, more, hheader, h₁⟩ := peek_bind_eq_ok h
  obtain ⟨hlong, h₂⟩ := guard_eq_ok h₁
  obtain ⟨stretch, left, rfl, hlen, hchunk⟩ := within_eq_ok h₂
  obtain ⟨content, padding, _, _, rfl, _⟩ := decode_eq_ok hchunk
  rw [List.append_assoc, chunk.header.reads_encode] at hheader
  cases hheader
  exact ⟨_, left, Nat.le_of_not_lt hlong, rfl, hlen, hchunk⟩

theorem tiles_of_decodeAll {chunks : List Chunk} (h : decodeAll.run bytes = .ok (chunks, rest)) :
    decodeBounded.Tiles bytes chunks ∧ rest = [] := by
  refine tiles_of_many ?_ h
  intro bytes rest chunk hrun
  obtain ⟨stretch, left, hlong, rfl, hlen, _⟩ := decodeBounded_eq_ok hrun
  have hle := chunk.header.length_le_alignedLength
  unfold ChunkHeader.size at hlong
  rw [List.length_append]
  omega

end Chunk

namespace Segment

def encodeFields (segment : Segment) : Bytes :=
  let order := ByteOrder.bigEndian
  order.bytes16 segment.sourcePort ++ (order.bytes16 segment.destinationPort ++
    (order.bytes32 segment.verificationTag ++ order.bytes32 segment.checksum))

@[simp] theorem length_encodeFields (segment : Segment) :
    segment.encodeFields.length = headerSize := by
  simp [encodeFields, headerSize]

theorem decode_eq_ok {segment : Segment} (h : decode.run bytes = .ok (segment, rest)) :
    ∃ chunks, bytes = segment.encodeFields ++ chunks ∧
      Chunk.decodeAll.run chunks = .ok (segment.chunks, rest) := by
  obtain ⟨sourcePort, _, rfl, h₁⟩ := word16_bind_eq_ok h
  obtain ⟨destinationPort, _, rfl, h₂⟩ := word16_bind_eq_ok h₁
  obtain ⟨verificationTag, _, rfl, h₃⟩ := word32_bind_eq_ok h₂
  obtain ⟨checksum, more, rfl, h₄⟩ := word32_bind_eq_ok h₃
  obtain ⟨chunks, _, hchunks, h₅⟩ := bind_eq_ok h₄
  cases h₅
  refine ⟨more, ?_, hchunks⟩
  simp only [encodeFields, List.append_assoc]

end Segment
end PacketCapture.Sctp
