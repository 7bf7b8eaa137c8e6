import PacketCapture.Proofs.Sctp.Framing
import PacketCapture.Proofs.Sctp.Grammar
import PacketCapture.Proofs.Wire.Refusals

/-! # Mismatched segments

Heartbeats are the only chunks that insist on the type of their parameter, so that a segment is
mismatched where a heartbeat with another parameter follows chunks that decode. Everything else that
a segment is refused for is a want of bytes.
-/
namespace PacketCapture.Sctp
open Decoder

theorem ParameterHeader.refuses_decodeWithValue {α : Type}
    {layouts : ParameterType → Option (Layout α)}
    (h : ∀ type layout, layouts type = some layout → layout.value.Wants) :
    (decodeWithValue layouts).Refuses fun bytes =>
      ∃ header rest, decode.run bytes = .ok (header, rest) ∧ layouts header.type = none := by
  refine fixed_decode.wants.bind_refuses fun header => ?_
  cases hlayout : layouts header.type with
  | none => exact refuses_fail.congr fun _ => by simp
  | some layout =>
    have hvalue := (h header.type layout hlayout).within (header.length.toNat - size)
    exact (Wants.guard (hvalue.bind fun value => wants_pure _)).refuses.congr fun _ => by simp

theorem Parameter.wants_decode {registry : Registry}
    (h : ∀ type, ∃ layout, registry type = some layout ∧ layout.value.Wants) :
    (decode registry).Wants := by
  have hvalue : ∀ type layout, registry type = some layout → layout.value.Wants := by
    intro type layout hlayout
    obtain ⟨other, hother, hwants⟩ := h type
    rw [hlayout] at hother
    cases hother
    exact hwants
  refine Wants.bind ?_ fun _ => wants_pure _
  refine (ParameterHeader.refuses_decodeWithValue hvalue).wants ?_
  rintro bytes ⟨header, rest, _, hnone⟩
  obtain ⟨layout, hlayout, _⟩ := h header.type
  rw [hnone] at hlayout
  cases hlayout

theorem Parameter.wants_decode_init : (decode .init).Wants := by
  refine wants_decode fun type => ?_
  unfold Registry.init
  split
  · exact ⟨_, rfl, (fixed_octets 4).wants.map _⟩
  · exact ⟨_, rfl, (fixed_octets 16).wants.map _⟩
  · exact ⟨_, rfl, (fixed_word32 _).wants.map _⟩
  · exact ⟨_, rfl, wants_rest.map _⟩

theorem Parameter.wants_decode_error : (decode .error).Wants :=
  wants_decode fun _ => ⟨_, rfl, wants_rest.map _⟩

theorem Parameter.wants_decodeAll {d : Decoder Parameter} (hd : d.Wants) : (decodeAll d).Wants := by
  intro bytes error h
  obtain ⟨_, _, _, _, hobstacle⟩ := decodeAll_eq_error_iff.mp h
  cases hobstacle with
  | headless => rfl
  | undersized => rfl
  | overrun => rfl
  | refused _ hrun => exact hd _ _ hrun

theorem Payload.wants_decode : decode.Wants := by
  have hword16 := (fixed_word16 .bigEndian).wants
  have hword32 := (fixed_word32 .bigEndian).wants
  refine hword32.bind fun tsn => ?_
  refine hword16.bind fun streamIdentifier => ?_
  refine hword16.bind fun streamSequenceNumber => ?_
  refine hword32.bind fun payloadProtocolIdentifier => ?_
  exact wants_rest.bind fun data => wants_pure _

theorem Initiation.wants_decode : decode.Wants := by
  have hword16 := (fixed_word16 .bigEndian).wants
  have hword32 := (fixed_word32 .bigEndian).wants
  have hparameters := Parameter.wants_decodeAll Parameter.wants_decode_init
  refine hword32.bind fun tag => ?_
  refine hword32.bind fun advertisedReceiverWindowCredit => ?_
  refine hword16.bind fun outboundStreams => ?_
  refine hword16.bind fun inboundStreams => ?_
  refine hword32.bind fun initialTsn => ?_
  exact hparameters.bind fun parameters => wants_pure _

theorem Acknowledgement.wants_decode : decode.Wants := by
  have hword16 := (fixed_word16 .bigEndian).wants
  have hword32 := (fixed_word32 .bigEndian).wants
  refine hword32.bind fun cumulativeTsn => ?_
  refine hword32.bind fun advertisedReceiverWindowCredit => ?_
  refine hword16.bind fun gapBlockCount => ?_
  refine hword16.bind fun duplicateCount => ?_
  have hgapBlocks := GapBlock.fixed_decode.wants.times gapBlockCount.toNat
  have hduplicates := hword32.times duplicateCount.toNat
  refine hgapBlocks.bind fun gapBlocks => ?_
  exact hduplicates.bind fun duplicateTsns => wants_pure _

theorem ParameterHeader.type_eq_heartbeatInfo_iff (header : ParameterHeader) (more : Bytes) :
    header.type = .heartbeatInfo ↔ [0, 1] <+: header.encode ++ more := by
  constructor
  · intro h
    rw [encode, h]
    exact ⟨ByteOrder.bigEndian.bytes16 header.length ++ more, rfl⟩
  · rintro ⟨rest, h⟩
    have hrun := reads_bytes16 .bigEndian 1 rest
    change (word16 .bigEndian).run ([0, 1] ++ rest) = _ at hrun
    rw [h, encode, List.append_assoc, reads_bytes16] at hrun
    obtain ⟨hcode, _⟩ := Prod.mk.inj (Except.ok.inj hrun)
    exact congrArg ParameterType.mk hcode

theorem HeartbeatInfo.refuses_decode : decode.Refuses fun bytes =>
    ParameterHeader.size ≤ bytes.length ∧ ¬ [0, 1] <+: bytes := by
  refine (Refuses.bind_pure (ParameterHeader.refuses_decodeWithValue ?_) _).congr fun bytes => ?_
  · intro type layout hlayout
    split at hlayout
    · cases hlayout
      exact wants_rest
    · cases hlayout
  · constructor
    · rintro ⟨header, rest, hrun, hnone⟩
      obtain rfl := ParameterHeader.decode_eq_ok hrun
      rw [← header.type_eq_heartbeatInfo_iff]
      refine ⟨?_, ?_⟩
      · simp
      · intro htype
        rw [htype] at hnone
        cases hnone
    · rintro ⟨hsize, hother⟩
      obtain ⟨header, more, rfl⟩ := ParameterHeader.exists_encode hsize
      rw [← header.type_eq_heartbeatInfo_iff] at hother
      refine ⟨header, more, header.reads_encode more, ?_⟩
      split
      · exact absurd ‹_› hother
      · rfl

namespace ChunkBody
variable {type : ChunkType}

theorem wants_value (hheartbeat : type ≠ .heartbeat) (hack : type ≠ .heartbeatAck) :
    (layout type).value.Wants := by
  cases type using ChunkType.byLayout with
  | data => exact Payload.wants_decode.map _
  | init | initAck => exact Initiation.wants_decode.map _
  | sack => exact Acknowledgement.wants_decode.map _
  | heartbeat => exact absurd rfl hheartbeat
  | heartbeatAck => exact absurd rfl hack
  | abort | shutdown => exact (fixed_word32 _).wants.map _
  | shutdownAck | cookieAck | shutdownComplete => exact wants_pure _
  | error => exact (Parameter.wants_decodeAll Parameter.wants_decode_error).map _
  | cookieEcho => exact wants_rest.map _
  | other type hother =>
    rw [layout_of_unknown hother]
    exact wants_rest.map _

theorem refuses_value (type : ChunkType) : (layout type).value.Refuses fun content =>
    (type = .heartbeat ∨ type = .heartbeatAck) ∧ ParameterHeader.size ≤ content.length ∧
      ¬ [0, 1] <+: content := by
  by_cases hheartbeat : type = .heartbeat
  · subst hheartbeat
    exact (HeartbeatInfo.refuses_decode.map _).congr fun _ => by simp
  · by_cases hack : type = .heartbeatAck
    · subst hack
      exact (HeartbeatInfo.refuses_decode.map _).congr fun _ => by simp
    · exact (wants_value hheartbeat hack).refuses.congr fun _ => by simp [hheartbeat, hack]

end ChunkBody

namespace Chunk

/-- A heartbeat is there in full, with its padding, and another parameter opens its body. -/
inductive Mismatched : Bytes → Prop
  | heartbeat {header : ChunkHeader} {content padding : Bytes} (rest : Bytes) :
      header.type = .heartbeat ∨ header.type = .heartbeatAck → 8 ≤ header.length.toNat →
      content.length = header.length.toNat - ChunkHeader.size →
      padding.length = header.alignedLength - header.length.toNat → ¬ [0, 1] <+: content →
      Mismatched (header.encode ++ (content ++ (padding ++ rest)))

theorem Mismatched.ne_nil {bytes : Bytes} (h : Mismatched bytes) : bytes ≠ [] := by
  obtain @⟨header⟩ := h
  refine List.ne_nil_of_length_pos ?_
  rw [List.length_append, ChunkHeader.length_encode, ChunkHeader.size]
  omega

theorem decode_eq_error {bytes : Bytes} {error : DecodeError}
    (h : decode.run bytes = .error error) : error = .insufficientLength ∨
      ∃ (header : ChunkHeader) (content padding rest : Bytes),
        bytes = header.encode ++ (content ++ (padding ++ rest)) ∧
        (ChunkBody.layout header.type).least ≤ header.length.toNat ∧
        content.length = header.length.toNat - ChunkHeader.size ∧
        padding.length = header.alignedLength - header.length.toNat ∧
        (ChunkBody.layout header.type).value.run content = .error error := by
  cases framing bytes with
  | headless hsize =>
    rw [decode_of_headless hsize] at h
    cases h
    exact .inl rfl
  | undersized more hshort =>
    rw [decode_of_undersized more hshort] at h
    cases h
    exact .inl rfl
  | cut hleast hcut =>
    rw [decode_of_cut hleast hcut] at h
    cases h
    exact .inl rfl
  | @whole header content padding rest hleast hcontent hpadding =>
    rw [decode_of_whole rest hleast hcontent hpadding] at h
    cases hbody : (ChunkBody.layout header.type).value.run content with
    | ok found =>
      rw [hbody] at h
      cases h
    | error other =>
      rw [hbody] at h
      cases h
      exact .inr ⟨header, content, padding, rest, rfl, hleast, hcontent, hpadding, hbody⟩

theorem refuses_decode : decode.Refuses Mismatched := by
  constructor
  · intro bytes error h
    rcases decode_eq_error h with hwant | ⟨header, content, _, _, _, _, _, _, hbody⟩
    · exact .inl hwant
    · exact (ChunkBody.refuses_value header.type).kinds content error hbody
  · intro bytes
    constructor
    · intro h
      rcases decode_eq_error h with hwant | ⟨header, content, _, rest, rfl, hleast, hcontent,
        hpadding, hbody⟩
      · cases hwant
      · obtain ⟨htype, _, hother⟩ := ((ChunkBody.refuses_value header.type).iff content).mp hbody
        refine .heartbeat rest htype ?_ hcontent hpadding hother
        rcases htype with htype | htype
        · rwa [htype] at hleast
        · rwa [htype] at hleast
    · rintro @⟨header, content, padding, rest, htype, height, hcontent, hpadding, hother⟩
      have hleast : (ChunkBody.layout header.type).least = 8 := by
        rcases htype with htype | htype
        · rw [htype]; rfl
        · rw [htype]; rfl
      have hsize : ParameterHeader.size ≤ content.length := by
        rw [hcontent, ParameterHeader.size, ChunkHeader.size]
        omega
      have hbody := ((ChunkBody.refuses_value header.type).iff content).mpr ⟨htype, hsize, hother⟩
      rw [decode_of_whole rest (hleast ▸ height) hcontent hpadding, hbody]
      rfl

theorem refuses_decodeAll : decodeAll.Refuses fun bytes =>
    ∃ chunks rest, decode.Peels bytes chunks rest ∧ Mismatched rest := by
  rw [decodeAll_eq_many_decode]
  refine (refuses_decode.many advances_decode).congr fun bytes => ?_
  constructor
  · rintro ⟨chunks, rest, hpeels, _, h⟩
    exact ⟨chunks, rest, hpeels, h⟩
  · rintro ⟨chunks, rest, hpeels, h⟩
    exact ⟨chunks, rest, hpeels, h.ne_nil, h⟩

end Chunk

namespace Segment

/-- Behind the common header, a mismatched chunk follows chunks that decode. -/
def Mismatched (bytes : Bytes) : Prop :=
  headerSize ≤ bytes.length ∧ ∃ chunks rest,
    Chunk.decode.Peels (bytes.drop headerSize) chunks rest ∧ Chunk.Mismatched rest

theorem refuses_decode : decode.Refuses Mismatched := by
  have hword16 := fixed_word16 .bigEndian
  have hword32 := fixed_word32 .bigEndian
  have h : decode.Refuses (Behind 2 (Behind 2 (Behind 4 (Behind 4 fun bytes =>
      ∃ chunks rest, Chunk.decode.Peels bytes chunks rest ∧ Chunk.Mismatched rest)))) := by
    refine hword16.bind_refuses fun sourcePort => ?_
    refine hword16.bind_refuses fun destinationPort => ?_
    refine hword32.bind_refuses fun verificationTag => ?_
    refine hword32.bind_refuses fun checksum => ?_
    exact Chunk.refuses_decodeAll.bind_pure _
  simp only [behind_behind] at h
  exact h

end Segment
end PacketCapture.Sctp
