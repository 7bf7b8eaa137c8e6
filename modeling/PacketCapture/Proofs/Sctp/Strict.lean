import PacketCapture.Proofs.Sctp.ChunkGrammar
import PacketCapture.Proofs.Sctp.Registry
import PacketCapture.Proofs.Wire.Strict

/-! # Strict decoders of chunks and parameters

The declared length of a chunk or a parameter has been judged before anything is taken from it, and
the least length of its type is enough for the fields that every body of this type has. Read
strictly, neither chunks nor parameters slip.
-/
namespace PacketCapture.Sctp
open Decoder

/-- The least length has room for the header, and the data it leaves room for has a value. -/
structure Layout.Sufficient {α : Type} (layout : Layout α) : Prop where
  size_le : ParameterHeader.size ≤ layout.least
  accepts : ∀ data : Bytes, layout.least ≤ ParameterHeader.size + data.length →
    layout.value.Accepts data

namespace ParameterHeader
variable {α : Type} {layouts : ParameterType → Option (Layout α)}

def decodeWithValueStrictly (layouts : ParameterType → Option (Layout α)) :
    Strict (ParameterHeader × α) := do
  let header ← .sure decode
  let some layout := layouts header.type | .fail .typeMismatch
  if header.length.toNat < layout.least then .fail .insufficientLength
  let data ← .of (.take (← .subtract header.length.toNat size))
  let value ← (Strict.sure layout.value).on data
  return (header, value)

theorem agreesFrom_decodeWithValue
    (h : ∀ type layout, layouts type = some layout → layout.Sufficient) :
    (decodeWithValueStrictly layouts).AgreesFrom size (decodeWithValue layouts) := by
  refine (Strict.agreesFrom_sure fixed_decode).bind fun header => ?_
  cases hlayout : layouts header.type with
  | none => exact Strict.agrees_of (.fail .typeMismatch)
  | some layout =>
    obtain ⟨hsize, haccepts⟩ := h header.type layout hlayout
    refine Strict.AgreesFrom.guard fun hleast => ?_
    have hle := Nat.le_of_not_lt hleast
    rw [Strict.subtract_of_le (Nat.le_trans hsize hle), pure_bind, Decoder.within, bind_assoc]
    refine Strict.take_bind fun data hlen => ?_
    have haccepted := haccepts data (by omega)
    have hvalue := Strict.agrees_on (Strict.outcome_sure_of_accepts haccepted)
    exact hvalue.bind fun value => Strict.agrees_pure _

end ParameterHeader

theorem sufficient_rest {α : Type} (f : Bytes → α) : Layout.Sufficient ⟨4, f <$> .rest⟩ where
  size_le := Nat.le_refl _
  accepts data _ := (recognizes_rest.map f data).mpr trivial

namespace Registry

def Sufficient (registry : Registry) : Prop :=
  ∀ type layout, registry type = some layout → layout.Sufficient

theorem sufficient_init : init.Sufficient := by
  intro type layout hlayout
  refine ⟨?_, fun data => accepts_of_layout hlayout⟩
  cases type using byInitType with
  | ipv4Sender | ipv6Sender | cookieLifespanIncrement =>
    cases hlayout
    decide
  | other type hipv4 hipv6 hcookie =>
    rw [init_of_other hipv4 hipv6 hcookie] at hlayout
    cases hlayout
    decide

theorem sufficient_unknown : unknown.Sufficient := by
  intro type layout hlayout
  cases hlayout
  exact sufficient_rest _

theorem sufficient_heartbeat : heartbeat.Sufficient := by
  intro type layout hlayout
  unfold heartbeat at hlayout
  split at hlayout
  · cases hlayout
    exact sufficient_rest _
  · cases hlayout

end Registry

def HeartbeatInfo.decodeStrictly : Strict HeartbeatInfo := do
  let (header, info) ← ParameterHeader.decodeWithValueStrictly fun
    | .heartbeatInfo => some ⟨4, .rest⟩
    | _ => none
  return { header, info }

theorem HeartbeatInfo.agreesFrom_decode :
    decodeStrictly.AgreesFrom ParameterHeader.size decode := by
  refine (ParameterHeader.agreesFrom_decodeWithValue ?_).bind fun found => Strict.agrees_pure _
  intro type layout hlayout
  split at hlayout
  · cases hlayout
    exact ⟨Nat.le_refl _, fun data _ => (recognizes_rest data).mpr trivial⟩
  · cases hlayout

namespace Parameter

def decodeStrictly (registry : Registry) : Strict Parameter := do
  let (header, value) ← ParameterHeader.decodeWithValueStrictly registry
  return { header, value }

theorem agreesFrom_decode {registry : Registry} (h : registry.Sufficient) :
    (decodeStrictly registry).AgreesFrom ParameterHeader.size (decode registry) :=
  (ParameterHeader.agreesFrom_decodeWithValue h).bind fun _ => Strict.agrees_pure _

def decodePaddedStrictly (parameter : Strict Parameter) : Strict Parameter := do
  let header ← .of ParameterHeader.decode.peek
  let length := header.length.toNat
  if length < ParameterHeader.size then .fail .insufficientLength
  .atLeast length
  let decoded ← parameter.on (← .front length)
  .advance (min (align4 length) (← get).length)
  return decoded

def decodeAllStrictly (parameter : Strict Parameter) : Strict (List Parameter) :=
  .many (decodePaddedStrictly parameter)

variable {β : Type} {strict : Strict Parameter} {parameter : Decoder Parameter}

theorem drop_padded (raw : RawParameter) (more : Bytes) :
    (raw.bytes ++ more).drop (min (align4 raw.header.length.toNat) (raw.bytes ++ more).length) =
      more.drop raw.paddingLength := by
  have hle := le_align4 raw.header.length.toNat
  rw [raw.paddingLength_eq]
  rw [raw.length_header, ← raw.length_bytes] at hle ⊢
  rw [← List.drop_eq_drop_min, List.drop_append, List.drop_of_length_le hle, List.nil_append]

theorem outcome_peek_bind {header : ParameterHeader} {bytes rest : Bytes}
    (h : ParameterHeader.decode.run bytes = .ok (header, rest)) (f : ParameterHeader → Strict β) :
    (Strict.of ParameterHeader.decode.peek >>= f).outcome bytes = (f header).outcome bytes :=
  Strict.outcome_bind_of_ok (congrArg Except.ok (run_peek_of_ok h))

theorem outcome_decodePadded_of_whole {raw : RawParameter}
    (h : strict.outcome raw.bytes = .ok (parameter.run raw.bytes)) (more : Bytes) :
    (decodePaddedStrictly strict).outcome (raw.bytes ++ more) =
      .ok ((decodePadded parameter).run (raw.bytes ++ more)) := by
  have hlength := raw.length_header
  have hfour : ¬ raw.header.length.toNat < ParameterHeader.size := by
    rw [hlength, RawParameter.length]
    omega
  have hle : raw.header.length.toNat ≤ (raw.bytes ++ more).length := by
    rw [List.length_append, RawParameter.length_bytes, hlength]
    omega
  have hfront : (raw.bytes ++ more).take raw.header.length.toNat = raw.bytes := by
    rw [hlength, ← raw.length_bytes, List.take_left]
  rw [decodePaddedStrictly, decodePadded_of_whole, outcome_peek_bind (raw.run_decode_header more)]
  simp only [if_neg hfour]
  rw [Strict.outcome_atLeast_bind, if_neg (Nat.not_lt.mpr hle), Strict.outcome_front_bind hle,
    hfront]
  cases hparameter : parameter.run raw.bytes with
  | error error =>
    rw [hparameter] at h
    rw [Strict.outcome_bind_of_error (Strict.outcome_on_of_error h _)]
    rfl
  | ok found =>
    rw [hparameter] at h
    rw [Strict.outcome_bind_of_ok (Strict.outcome_on_of_ok h _), Strict.outcome_get_bind,
      Strict.outcome_advance_bind (Nat.min_le_right _ _), drop_padded]
    rfl

theorem agrees_decodePadded
    (h : ∀ raw : RawParameter, strict.outcome raw.bytes = .ok (parameter.run raw.bytes)) :
    (decodePaddedStrictly strict).Agrees (decodePadded parameter) := by
  refine Strict.agrees_of_outcome_eq fun bytes => ?_
  cases framing bytes with
  | headless hsize =>
    rw [decodePadded_of_headless hsize]
    have hheader := ParameterHeader.fixed_decode.short bytes hsize
    exact Strict.outcome_bind_of_error (congrArg Except.ok (run_peek_of_error hheader))
  | @undersized header more hshort =>
    rw [decodePaddedStrictly, decodePadded_of_undersized more hshort,
      outcome_peek_bind (header.reads_encode more)]
    simp only [if_pos hshort]
    rfl
  | @overrun header more hfour hover =>
    rw [decodePaddedStrictly, decodePadded_of_overrun hfour hover,
      outcome_peek_bind (header.reads_encode more)]
    simp only [if_neg (Nat.not_lt.mpr hfour)]
    rw [Strict.outcome_atLeast_bind, if_pos hover]
  | whole raw more => exact outcome_decodePadded_of_whole (h raw) more

theorem agrees_decodeAll
    (h : ∀ raw : RawParameter, strict.outcome raw.bytes = .ok (parameter.run raw.bytes)) :
    (decodeAllStrictly strict).Agrees (decodeAll parameter) :=
  (agrees_decodePadded h).many (advances_decodePadded parameter)

theorem agrees_decodeAll_decode {registry : Registry} (h : registry.Sufficient) :
    (decodeAllStrictly (decodeStrictly registry)).Agrees (decodeAll (decode registry)) := by
  refine agrees_decodeAll fun raw => (agreesFrom_decode h).outcome_eq raw.bytes ?_
  rw [raw.length_bytes]
  exact Nat.le_add_right _ _

end Parameter

def Payload.decodeStrictly : Strict Payload := do
  return {
    tsn := ← .sure (.word32 .bigEndian)
    streamIdentifier := ← .sure (.word16 .bigEndian)
    streamSequenceNumber := ← .sure (.word16 .bigEndian)
    payloadProtocolIdentifier := ← .sure (.word32 .bigEndian)
    data := ← .of .rest }

theorem Payload.agreesFrom_decode : decodeStrictly.AgreesFrom 12 decode := by
  have hword16 := fixed_word16 .bigEndian
  have hword32 := fixed_word32 .bigEndian
  change decodeStrictly.AgreesFrom (4 + (2 + (2 + (4 + 0)))) decode
  refine Strict.sure_bind hword32 fun tsn => ?_
  refine Strict.sure_bind hword16 fun streamIdentifier => ?_
  refine Strict.sure_bind hword16 fun streamSequenceNumber => ?_
  refine Strict.sure_bind hword32 fun payloadProtocolIdentifier => ?_
  exact (Strict.agrees_of .rest).bind fun data => Strict.agrees_pure _

def Initiation.decodeStrictly : Strict Initiation := do
  return {
    tag := ← .sure (.word32 .bigEndian)
    advertisedReceiverWindowCredit := ← .sure (.word32 .bigEndian)
    outboundStreams := ← .sure (.word16 .bigEndian)
    inboundStreams := ← .sure (.word16 .bigEndian)
    initialTsn := ← .sure (.word32 .bigEndian)
    parameters := ← Parameter.decodeAllStrictly (Parameter.decodeStrictly .init) }

theorem Initiation.agreesFrom_decode : decodeStrictly.AgreesFrom 16 decode := by
  have hword16 := fixed_word16 .bigEndian
  have hword32 := fixed_word32 .bigEndian
  have hparameters := Parameter.agrees_decodeAll_decode Registry.sufficient_init
  change decodeStrictly.AgreesFrom (4 + (4 + (2 + (2 + (4 + 0))))) decode
  refine Strict.sure_bind hword32 fun tag => ?_
  refine Strict.sure_bind hword32 fun advertisedReceiverWindowCredit => ?_
  refine Strict.sure_bind hword16 fun outboundStreams => ?_
  refine Strict.sure_bind hword16 fun inboundStreams => ?_
  refine Strict.sure_bind hword32 fun initialTsn => ?_
  exact hparameters.bind fun parameters => Strict.agrees_pure _

/-- The lists are counted on once there are as many bytes as the counts announce. -/
def Acknowledgement.decodeStrictly : Strict Acknowledgement := do
  let cumulativeTsn ← .sure (.word32 .bigEndian)
  let advertisedReceiverWindowCredit ← .sure (.word32 .bigEndian)
  let gapBlockCount ← Strict.sure (.word16 .bigEndian)
  let duplicateCount ← Strict.sure (.word16 .bigEndian)
  .atLeast (4 * (gapBlockCount.toNat + duplicateCount.toNat))
  let gapBlocks ← .sure (GapBlock.decode.times gapBlockCount.toNat)
  let duplicateTsns ← .sure ((Decoder.word32 .bigEndian).times duplicateCount.toNat)
  return { cumulativeTsn, advertisedReceiverWindowCredit, gapBlocks, duplicateTsns }

theorem Acknowledgement.agreesFrom_decode : decodeStrictly.AgreesFrom 12 decode := by
  have hsize (blocks duplicates : UInt16) : 4 * (blocks.toNat + duplicates.toNat) =
      blocks.toNat * 4 + (duplicates.toNat * 4 + 0) := by omega
  have hword16 := fixed_word16 .bigEndian
  have hword32 := fixed_word32 .bigEndian
  change decodeStrictly.AgreesFrom (4 + (4 + (2 + (2 + 0)))) decode
  refine Strict.sure_bind hword32 fun cumulativeTsn => ?_
  refine Strict.sure_bind hword32 fun advertisedReceiverWindowCredit => ?_
  refine Strict.sure_bind hword16 fun gapBlockCount => ?_
  refine Strict.sure_bind hword16 fun duplicateCount => ?_
  refine Strict.AgreesFrom.of_atLeast (hsize gapBlockCount duplicateCount) ?_
  refine Strict.sure_bind GapBlock.fixed_decode.times fun gapBlocks => ?_
  exact Strict.sure_bind hword32.times fun duplicateTsns => Strict.agrees_pure _

namespace ChunkBody

def decodeStrictly : ChunkType → Strict ChunkBody
  | .data => .data <$> Payload.decodeStrictly
  | .init => .init <$> Initiation.decodeStrictly
  | .initAck => .initAck <$> Initiation.decodeStrictly
  | .sack => .sack <$> Acknowledgement.decodeStrictly
  | .heartbeat => .heartbeat <$> HeartbeatInfo.decodeStrictly
  | .heartbeatAck => .heartbeatAck <$> HeartbeatInfo.decodeStrictly
  | .abort => .abort <$> .sure (.word32 .bigEndian)
  | .shutdown => .shutdown <$> .sure (.word32 .bigEndian)
  | .shutdownAck => pure .shutdownAck
  | .error => .error <$> Parameter.decodeAllStrictly (Parameter.decodeStrictly .error)
  | .cookieEcho => .cookieEcho <$> .of .rest
  | .cookieAck => pure .cookieAck
  | .shutdownComplete => pure .shutdownComplete
  | _ => .unknown <$> .of .rest

theorem decodeStrictly_of_unknown {type : ChunkType} (h : type ∉ decodedTypes) :
    decodeStrictly type = .unknown <$> .of .rest := by
  unfold decodeStrictly
  split <;> first | rfl | exact absurd (by decide) h

/-- The least length of each type is enough for what its body counts on. -/
theorem agreesFrom_value (type : ChunkType) : (decodeStrictly type).AgreesFrom
    ((layout type).least - ChunkHeader.size) (layout type).value := by
  cases type using ChunkType.byLayout with
  | data => exact Payload.agreesFrom_decode.map _
  | init | initAck => exact Initiation.agreesFrom_decode.map _
  | sack => exact Acknowledgement.agreesFrom_decode.map _
  | heartbeat | heartbeatAck => exact HeartbeatInfo.agreesFrom_decode.map _
  | abort | shutdown => exact (Strict.agreesFrom_sure (fixed_word32 _)).map _
  | shutdownAck | cookieAck | shutdownComplete => exact Strict.agrees_pure _
  | error =>
    exact (Parameter.agrees_decodeAll_decode Registry.sufficient_unknown).map _
  | cookieEcho => exact (Strict.agrees_of .rest).map _
  | other type h =>
    rw [layout_of_unknown h, decodeStrictly_of_unknown h]
    exact (Strict.agrees_of .rest).map _

example : (decodeStrictly .data).outcome (List.replicate 11 0) = .error .missing := rfl

end ChunkBody

namespace Chunk

def decodeStrictly : Strict Chunk := do
  let header ← .of ChunkHeader.decode
  let length := header.length.toNat
  if length < (ChunkBody.layout header.type).least then .fail .insufficientLength
  let content ← .of (.take (← .subtract length ChunkHeader.size))
  let _padding ← .of (.take (← .subtract header.alignedLength length))
  let body ← (ChunkBody.decodeStrictly header.type).on content
  return { header, body }

theorem agrees_decode : decodeStrictly.Agrees decode := by
  refine (Strict.agrees_of ChunkHeader.decode).bind fun header => ?_
  refine Strict.AgreesFrom.guard fun hleast => ?_
  have hle := Nat.le_of_not_lt hleast
  rw [Strict.subtract_of_le (ChunkBody.size_le hle),
    Strict.subtract_of_le header.length_le_alignedLength, pure_bind]
  refine Strict.take_bind fun content hcontent => ?_
  rw [pure_bind]
  refine Strict.take_bind fun _ _ => ?_
  have hbody := (ChunkBody.agreesFrom_value header.type).outcome_eq content
    (hcontent ▸ Nat.sub_le_sub_right hle _)
  exact (Strict.agrees_on hbody).bind fun body => Strict.agrees_pure _

def decodeBoundedStrictly : Strict Chunk := do
  let header ← .of ChunkHeader.decode.peek
  if header.length.toNat < ChunkHeader.size then .fail .insufficientLength
  decodeStrictly.within header.alignedLength

theorem agrees_decodeBounded : decodeBoundedStrictly.Agrees decodeBounded := by
  refine (Strict.agrees_of ChunkHeader.decode.peek).bind fun header => ?_
  exact Strict.AgreesFrom.guard fun hsize => agrees_decode.within header.alignedLength

def decodeAllStrictly : Strict (List Chunk) := .many decodeBoundedStrictly

theorem agrees_decodeAll : decodeAllStrictly.Agrees decodeAll :=
  agrees_decodeBounded.many (decodeBounded_eq_decode ▸ advances_decode)

end Chunk

namespace Segment

def decodeStrictly : Strict Segment := do
  .atLeast headerSize
  return {
    sourcePort := ← .sure (.word16 .bigEndian)
    destinationPort := ← .sure (.word16 .bigEndian)
    verificationTag := ← .sure (.word32 .bigEndian)
    checksum := ← .sure (.word32 .bigEndian)
    chunks := ← Chunk.decodeAllStrictly }

theorem agrees_decode : decodeStrictly.Agrees decode := by
  have hsize : headerSize = 2 + (2 + (4 + (4 + 0))) := rfl
  have hword16 := fixed_word16 .bigEndian
  have hword32 := fixed_word32 .bigEndian
  refine Strict.AgreesFrom.of_atLeast hsize ?_
  refine Strict.sure_bind hword16 fun sourcePort => ?_
  refine Strict.sure_bind hword16 fun destinationPort => ?_
  refine Strict.sure_bind hword32 fun verificationTag => ?_
  refine Strict.sure_bind hword32 fun checksum => ?_
  exact Chunk.agrees_decodeAll.bind fun chunks => Strict.agrees_pure _

end Segment
end PacketCapture.Sctp
