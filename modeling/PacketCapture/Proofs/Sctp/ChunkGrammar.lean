import PacketCapture.Proofs.Sctp.Refusals
import PacketCapture.Proofs.Wire.Acceptance

/-! # The grammar of a chunk

A chunk is accepted just where its declared length is enough for its type, body and padding are
there, and the body is what the type asks for. Only lists of parameters, the two counts of an
acknowledgement and the one parameter of a heartbeat can be wrong in a body that is long enough.
-/
namespace PacketCapture.Sctp
open Decoder

theorem Payload.recognizes_decode : decode.Recognizes fun content => 12 ≤ content.length := by
  have hword16 := fixed_word16 .bigEndian
  have hword32 := fixed_word32 .bigEndian
  have h : decode.Recognizes (Behind 4 (Behind 2 (Behind 2 (Behind 4 fun _ => True)))) := by
    refine hword32.bind_recognizes fun tsn => ?_
    refine hword16.bind_recognizes fun streamIdentifier => ?_
    refine hword16.bind_recognizes fun streamSequenceNumber => ?_
    refine hword32.bind_recognizes fun payloadProtocolIdentifier => ?_
    exact recognizes_rest.bind_pure _
  simp only [behind_behind] at h
  exact h.congr fun _ => by simp [Behind]

theorem Initiation.recognizes_decode : decode.Recognizes fun content => 16 ≤ content.length ∧
    (Parameter.decodeAll (Parameter.decode .init)).Accepts (content.drop 16) := by
  have hword16 := fixed_word16 .bigEndian
  have hword32 := fixed_word32 .bigEndian
  have h : decode.Recognizes (Behind 4 (Behind 4 (Behind 2 (Behind 2 (Behind 4 fun content =>
      (Parameter.decodeAll (Parameter.decode .init)).Accepts content))))) := by
    refine hword32.bind_recognizes fun tag => ?_
    refine hword32.bind_recognizes fun advertisedReceiverWindowCredit => ?_
    refine hword16.bind_recognizes fun outboundStreams => ?_
    refine hword16.bind_recognizes fun inboundStreams => ?_
    refine hword32.bind_recognizes fun initialTsn => ?_
    exact Recognizes.bind_pure (fun _ => Iff.rfl) _
  simp only [behind_behind] at h
  exact h

namespace Acknowledgement

/-- The counts of the gap blocks and of the duplicates stand behind two words, and as many of them
are there. -/
def Counted (content : Bytes) : Prop :=
  ∃ blocks duplicates : UInt16,
    ByteOrder.bigEndian.bytes16 blocks ++ ByteOrder.bigEndian.bytes16 duplicates <+:
      content.drop 8 ∧ 12 + 4 * (blocks.toNat + duplicates.toNat) ≤ content.length

theorem recognizes_decode : decode.Recognizes Counted := by
  have hword32 := fixed_word32 .bigEndian
  have h : decode.Recognizes (Behind 4 (Behind 4 fun content =>
      ∃ blocks more, content = ByteOrder.bigEndian.bytes16 blocks ++ more ∧
        ∃ duplicates lists, more = ByteOrder.bigEndian.bytes16 duplicates ++ lists ∧
          blocks.toNat * 4 + (duplicates.toNat * 4 + 0) ≤ lists.length)) := by
    refine hword32.bind_recognizes fun cumulativeTsn => ?_
    refine hword32.bind_recognizes fun advertisedReceiverWindowCredit => ?_
    refine recognizes_word16_bind fun gapBlockCount => ?_
    refine recognizes_word16_bind fun duplicateCount => ?_
    have hgapBlocks := GapBlock.fixed_decode.times (n := gapBlockCount.toNat)
    have hduplicates := hword32.times (n := duplicateCount.toNat)
    have hlists := hgapBlocks.bind fun gapBlocks => hduplicates.bind fun duplicateTsns =>
      fixed_pure (Acknowledgement.mk cumulativeTsn advertisedReceiverWindowCredit gapBlocks
        duplicateTsns)
    exact hlists.recognizes
  simp only [behind_behind] at h
  refine h.congr fun content => ?_
  constructor
  · rintro ⟨height, blocks, _, hmore, duplicates, more, rfl, hcount⟩
    refine ⟨blocks, duplicates, ⟨more, ?_⟩, ?_⟩
    · rw [hmore, List.append_assoc]
    · have hlen := congrArg List.length hmore
      simp only [List.length_drop, List.length_append, ByteOrder.length_bytes16] at hlen
      omega
  · rintro ⟨blocks, duplicates, ⟨more, hmore⟩, hcount⟩
    have hlen := congrArg List.length hmore
    simp only [List.length_drop, List.length_append, ByteOrder.length_bytes16] at hlen
    rw [List.append_assoc] at hmore
    exact ⟨by omega, blocks, _, hmore.symm, duplicates, more, rfl, by omega⟩

end Acknowledgement

/-- A heartbeat's parameter stands in front and is all there. -/
def HeartbeatInfo.Opens (content : Bytes) : Prop :=
  ∃ header : ParameterHeader, header.encode <+: content ∧ header.type = .heartbeatInfo ∧
    ParameterHeader.size ≤ header.length.toNat ∧ header.length.toNat ≤ content.length

theorem HeartbeatInfo.recognizes_decode : decode.Recognizes Opens := by
  intro content
  constructor
  · rintro ⟨info, rest, hrun⟩
    obtain ⟨htype, hfour, rfl, hlen⟩ := decode_eq_ok hrun
    refine ⟨info.header, List.prefix_append _ _, htype, hfour, ?_⟩
    simp only [List.length_append, ParameterHeader.length_encode, hlen]
    omega
  · rintro ⟨header, ⟨more, rfl⟩, htype, hfour, hle⟩
    rw [List.length_append, ParameterHeader.length_encode] at hle
    let info : HeartbeatInfo := ⟨header, more.take (header.length.toNat - ParameterHeader.size)⟩
    have hwell : info.WellFormed := by
      constructor
      · exact htype
      · have hlen : info.info.length = header.length.toNat - ParameterHeader.size :=
          List.length_take_of_le (by omega)
        rw [hlen]
        exact (Nat.add_sub_cancel' hfour).symm
    have hrun := reads_encode hwell (more.drop (header.length.toNat - ParameterHeader.size))
    rw [List.append_assoc, List.take_append_drop] at hrun
    exact ⟨info, _, hrun⟩

namespace ChunkBody

def leastLength : ChunkType → Nat
  | .data | .sack => 16
  | .init | .initAck => 20
  | .heartbeat | .heartbeatAck | .abort | .shutdown => 8
  | _ => 4

/-- What the type asks of a body that is long enough. -/
def Grammatical (content : Bytes) : ChunkType → Prop
  | .sack => Acknowledgement.Counted content
  | .init | .initAck => (Parameter.decodeAll (Parameter.decode .init)).Accepts (content.drop 16)
  | .error => (Parameter.decodeAll (Parameter.decode .error)).Accepts content
  | .heartbeat | .heartbeatAck => HeartbeatInfo.Opens content
  | _ => True

/-- The type whose layout makes such a body, if there is one. -/
def kind : ChunkBody → Option ChunkType
  | .data _ => some .data
  | .init _ => some .init
  | .initAck _ => some .initAck
  | .sack _ => some .sack
  | .heartbeat _ => some .heartbeat
  | .heartbeatAck _ => some .heartbeatAck
  | .abort _ => some .abort
  | .shutdown _ => some .shutdown
  | .shutdownAck => some .shutdownAck
  | .error _ => some .error
  | .cookieEcho _ => some .cookieEcho
  | .cookieAck => some .cookieAck
  | .shutdownComplete => some .shutdownComplete
  | .unknown _ => none

variable {type : ChunkType} {content left : Bytes} {body : ChunkBody}

theorem leastLength_of_unknown (h : type ∉ decodedTypes) : leastLength type = 4 := by
  unfold leastLength
  split <;> first | rfl | exact absurd (by decide) h

theorem grammatical_of_unknown (h : type ∉ decodedTypes) : Grammatical content type := by
  unfold Grammatical
  split <;> trivial

theorem least_layout (type : ChunkType) : (layout type).least = leastLength type := by
  cases type using ChunkType.byLayout with
  | other type h => rw [layout_of_unknown h, leastLength_of_unknown h]
  | _ => rfl

theorem accepts_value_iff (hleast : (layout type).least ≤ ChunkHeader.size + content.length) :
    (layout type).value.Accepts content ↔ Grammatical content type := by
  cases type using ChunkType.byLayout with
  | data =>
    have hlong : 12 ≤ content.length := Nat.le_of_add_le_add_left hleast
    exact (Payload.recognizes_decode.map _ _).trans (iff_true_intro hlong)
  | init | initAck =>
    have hlong : 16 ≤ content.length := Nat.le_of_add_le_add_left hleast
    exact (Initiation.recognizes_decode.map _ _).trans (and_iff_right hlong)
  | sack => exact Acknowledgement.recognizes_decode.map _ _
  | heartbeat | heartbeatAck => exact HeartbeatInfo.recognizes_decode.map _ _
  | abort | shutdown =>
    have hlong : 4 ≤ content.length := Nat.le_of_add_le_add_left hleast
    exact ((fixed_word32 _).recognizes.map _ _).trans (iff_true_intro hlong)
  | shutdownAck | cookieAck | shutdownComplete => exact recognizes_pure _ _
  | error => exact Recognizes.map (fun _ => Iff.rfl) _ _
  | cookieEcho => exact recognizes_rest.map _ _
  | other type h =>
    rw [layout_of_unknown h]
    exact (recognizes_rest.map _ _).trans (iff_of_true trivial (grammatical_of_unknown h))

theorem kind_of_value (h : (layout type).value.run content = .ok (body, left)) :
    body.kind = if type ∈ decodedTypes then some type else none := by
  cases type using ChunkType.byLayout with
  | other type hother =>
    rw [layout_of_unknown hother] at h
    obtain ⟨_, _, rfl⟩ := map_eq_ok h
    exact (if_neg hother).symm
  | shutdownAck | cookieAck | shutdownComplete =>
    cases h
    rfl
  | _ =>
    obtain ⟨_, _, rfl⟩ := map_eq_ok h
    rfl

end ChunkBody

namespace Chunk

/-- A header stands in front whose declared length is enough for its type, body and padding are
there, and the body is what the type asks for. -/
structure Grammatical (header : ChunkHeader) (bytes : Bytes) : Prop where
  front : header.encode <+: bytes
  least : ChunkBody.leastLength header.type ≤ header.length.toNat
  whole : header.alignedLength ≤ bytes.length
  body : ChunkBody.Grammatical ((bytes.take header.length.toNat).drop ChunkHeader.size) header.type

variable {header : ChunkHeader} {bytes content padding rest : Bytes}

theorem body_of_whole (hcontent : content.length = header.length.toNat - ChunkHeader.size)
    (more : Bytes) :
    ((header.encode ++ (content ++ more)).take header.length.toNat).drop ChunkHeader.size =
      content := by
  rw [List.drop_take, ← header.length_encode, List.drop_left, header.length_encode, ← hcontent,
    List.take_left]

theorem grammatical_of_decode {chunk : Chunk} (h : decode.run bytes = .ok (chunk, rest)) :
    Grammatical chunk.header bytes := by
  obtain ⟨content, padding, left, hleast, rfl, hcontent, hpadding, hbody⟩ := decode_eq_ok h
  have hle := chunk.header.length_le_alignedLength
  constructor
  · exact List.prefix_append _ _
  · rw [← ChunkBody.least_layout]
    exact hleast
  · simp only [List.length_append, ChunkHeader.length_encode]
    omega
  · rw [body_of_whole hcontent]
    exact (ChunkBody.accepts_value_iff (by omega)).mp ⟨_, left, hbody⟩

theorem decode_of_grammatical (h : Grammatical header bytes) :
    ∃ body rest, decode.run bytes = .ok (⟨header, body⟩, rest) := by
  obtain ⟨⟨more, rfl⟩, hleast, hwhole, hbody⟩ := h
  rw [← ChunkBody.least_layout] at hleast
  rw [List.length_append, ChunkHeader.length_encode] at hwhole
  obtain ⟨content, padding, rest, rfl, hcontent, hpadding⟩ :=
    exists_whole hleast (Nat.sub_le_iff_le_add'.mpr hwhole)
  rw [body_of_whole hcontent] at hbody
  obtain ⟨body, left, hrun⟩ := (ChunkBody.accepts_value_iff (by omega)).mpr hbody
  refine ⟨body, rest, ?_⟩
  rw [decode_of_whole rest hleast hcontent hpadding, hrun]
  rfl

theorem accepts_iff_grammatical (bytes : Bytes) :
    decode.Accepts bytes ↔ ∃ header, Grammatical header bytes := by
  constructor
  · rintro ⟨chunk, rest, hrun⟩
    exact ⟨chunk.header, grammatical_of_decode hrun⟩
  · rintro ⟨header, h⟩
    obtain ⟨body, rest, hrun⟩ := decode_of_grammatical h
    exact ⟨⟨header, body⟩, rest, hrun⟩

theorem rest_of_decode {chunk : Chunk} (h : decode.run bytes = .ok (chunk, rest)) :
    rest = bytes.drop chunk.header.alignedLength := by
  obtain ⟨front, rfl, hlen, _⟩ := front_of_decode h
  rw [← hlen, List.drop_left]

theorem kind_of_decode {chunk : Chunk} (h : decode.run bytes = .ok (chunk, rest)) :
    chunk.body.kind =
      if chunk.header.type ∈ decodedTypes then some chunk.header.type else none := by
  obtain ⟨_, _, _, _, _, _, _, hbody⟩ := decode_eq_ok h
  exact ChunkBody.kind_of_value hbody

/-- A chunk decodes just where a byte string is grammatical: its header is the one in front, its body
is of the kind that the type says, and what is behind its aligned length is left. Other byte strings
are heartbeats with another parameter, which are mismatched, or there are bytes wanting. -/
theorem decode_grammar (bytes : Bytes) :
    (decode.Accepts bytes ↔ ∃ header, Grammatical header bytes) ∧
    (∀ chunk rest, decode.run bytes = .ok (chunk, rest) →
      Grammatical chunk.header bytes ∧ rest = bytes.drop chunk.header.alignedLength ∧
        chunk.body.kind =
          if chunk.header.type ∈ decodedTypes then some chunk.header.type else none) ∧
    (decode.run bytes = .error .typeMismatch ↔ Mismatched bytes) ∧
    (decode.run bytes = .error .insufficientLength ↔
      (¬ ∃ header, Grammatical header bytes) ∧ ¬ Mismatched bytes) := by
  refine ⟨accepts_iff_grammatical bytes, ?_, refuses_decode.iff bytes, ?_⟩
  · intro chunk rest hrun
    exact ⟨grammatical_of_decode hrun, rest_of_decode hrun, kind_of_decode hrun⟩
  · rw [← accepts_iff_grammatical, ← refuses_decode.iff]
    constructor
    · intro hrun
      exact ⟨not_accepts_of_error hrun, by rw [hrun]; nofun⟩
    · rintro ⟨haccepts, hmismatch⟩
      cases hrun : decode.run bytes with
      | ok found => exact absurd ⟨found.1, found.2, hrun⟩ haccepts
      | error error =>
        rcases refuses_decode.kinds bytes error hrun with rfl | rfl
        · rfl
        · exact absurd hrun hmismatch

theorem decode_grammar_opening :
    decode.run (openingBytes ++ gapBytes) = .ok (openingChunk, gapBytes) ∧
      Grammatical openingChunk.header (openingBytes ++ gapBytes) ∧
      gapBytes = (openingBytes ++ gapBytes).drop 44 ∧
      openingChunk.body.kind = some .init := by
  have hrun : decode.run (openingBytes ++ gapBytes) = .ok (openingChunk, gapBytes) := rfl
  obtain ⟨_, hok, _⟩ := decode_grammar (openingBytes ++ gapBytes)
  obtain ⟨hgrammatical, hrest, hkind⟩ := hok _ _ hrun
  exact ⟨hrun, hgrammatical, hrest, hkind⟩

end Chunk
end PacketCapture.Sctp
