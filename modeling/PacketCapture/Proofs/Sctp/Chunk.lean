import Mathlib.Data.List.Forall2
import PacketCapture.Proofs.Sctp.Parameter
import PacketCapture.Sctp.Chunk

/-! # Encoded chunks

The encoding of a chunk is its header, an encoding of its body and padding of any value up to four
bytes. Well-formed chunks written one after another decode to just these chunks.
-/
namespace PacketCapture.Sctp

def Payload.encode (payload : Payload) : Bytes :=
  let order := ByteOrder.bigEndian
  order.bytes32 payload.tsn ++ (order.bytes16 payload.streamIdentifier ++
    (order.bytes16 payload.streamSequenceNumber ++
      (order.bytes32 payload.payloadProtocolIdentifier ++ payload.data)))

theorem Payload.run_decode (payload : Payload) :
    decode.run payload.encode = .ok (payload, []) := by
  rw [decode, encode, (Decoder.reads_bytes32 _ _).run_bind, (Decoder.reads_bytes16 _ _).run_bind,
    (Decoder.reads_bytes16 _ _).run_bind, (Decoder.reads_bytes32 _ _).run_bind]
  rfl

theorem Payload.length_encode (payload : Payload) : 12 ≤ payload.encode.length := by
  simp [encode]
  omega

namespace Initiation

/-- The ways to write the body of an INIT chunk, one for each way to write its parameters. -/
def Encodes (initiation : Initiation) (bytes : Bytes) : Prop :=
  let order := ByteOrder.bigEndian
  ∃ parameters : Bytes, Parameter.EncodesAll initiation.parameters parameters ∧
    bytes = order.bytes32 initiation.tag ++
      (order.bytes32 initiation.advertisedReceiverWindowCredit ++
        (order.bytes16 initiation.outboundStreams ++ (order.bytes16 initiation.inboundStreams ++
          (order.bytes32 initiation.initialTsn ++ parameters))))

variable {initiation : Initiation} {bytes : Bytes}

def encodeFields (initiation : Initiation) : Bytes :=
  let order := ByteOrder.bigEndian
  order.bytes32 initiation.tag ++ (order.bytes32 initiation.advertisedReceiverWindowCredit ++
    (order.bytes16 initiation.outboundStreams ++ (order.bytes16 initiation.inboundStreams ++
      order.bytes32 initiation.initialTsn)))

@[simp] theorem length_encodeFields (initiation : Initiation) :
    initiation.encodeFields.length = 16 := by
  simp [encodeFields]

theorem run_decode_of_fields {rest : Bytes}
    (h : (Parameter.decodeAll (Parameter.decode .init)).run bytes =
      .ok (initiation.parameters, rest)) :
    decode.run (initiation.encodeFields ++ bytes) = .ok (initiation, rest) := by
  simp only [encodeFields, List.append_assoc]
  rw [decode, (Decoder.reads_bytes32 _ _).run_bind, (Decoder.reads_bytes32 _ _).run_bind,
    (Decoder.reads_bytes16 _ _).run_bind, (Decoder.reads_bytes16 _ _).run_bind,
    (Decoder.reads_bytes32 _ _).run_bind, Decoder.run_bind_of_ok h]
  rfl

theorem run_decode
    (hwell : ∀ parameter ∈ initiation.parameters,
      parameter.WellFormed ParameterValue.FitsInit)
    (h : initiation.Encodes bytes) : decode.run bytes = .ok (initiation, []) := by
  obtain ⟨parameters, henc, rfl⟩ := h
  have hrun := run_decode_of_fields (Parameter.run_decodeAll_init henc hwell)
  simpa only [encodeFields, List.append_assoc] using hrun

theorem length_of_encodes (h : initiation.Encodes bytes) : 16 ≤ bytes.length := by
  obtain ⟨parameters, _, rfl⟩ := h
  simp
  omega

end Initiation

def GapBlock.encode (block : GapBlock) : Bytes :=
  ByteOrder.bigEndian.bytes16 block.first ++ ByteOrder.bigEndian.bytes16 block.last

theorem GapBlock.reads_encode (block : GapBlock) : decode.Reads block.encode block :=
  (Decoder.reads_bytes16 _ _).bind (Decoder.reads_bytes16 _ _).bind_pure

namespace Acknowledgement

def encode (acknowledgement : Acknowledgement) : Bytes :=
  let order := ByteOrder.bigEndian
  order.bytes32 acknowledgement.cumulativeTsn ++
    (order.bytes32 acknowledgement.advertisedReceiverWindowCredit ++
      (order.bytes16 (.ofNat acknowledgement.gapBlocks.length) ++
        (order.bytes16 (.ofNat acknowledgement.duplicateTsns.length) ++
          (acknowledgement.gapBlocks.flatMap GapBlock.encode ++
            acknowledgement.duplicateTsns.flatMap order.bytes32))))

theorem length_encode (acknowledgement : Acknowledgement) : acknowledgement.encode.length =
    12 + 4 * (acknowledgement.gapBlocks.length + acknowledgement.duplicateTsns.length) := by
  simp [encode, GapBlock.encode, List.length_flatMap]
  omega

theorem reads_encode {acknowledgement : Acknowledgement}
    (h : acknowledgement.encode.length < 65536) :
    decode.Reads acknowledgement.encode acknowledgement := by
  rw [length_encode] at h
  have hsize : UInt16.size = 65536 := rfl
  have hblocks : (UInt16.ofNat acknowledgement.gapBlocks.length).toNat =
    acknowledgement.gapBlocks.length := UInt16.toNat_ofNat_of_lt' (by omega)
  have hduplicates : (UInt16.ofNat acknowledgement.duplicateTsns.length).toNat =
    acknowledgement.duplicateTsns.length := UInt16.toNat_ofNat_of_lt' (by omega)
  have hgapBlocks := Decoder.reads_times GapBlock.reads_encode acknowledgement.gapBlocks
  have hduplicateTsns := Decoder.reads_times (Decoder.reads_bytes32 .bigEndian)
    acknowledgement.duplicateTsns
  refine (Decoder.reads_bytes32 _ acknowledgement.cumulativeTsn).bind ?_
  refine (Decoder.reads_bytes32 _ acknowledgement.advertisedReceiverWindowCredit).bind ?_
  refine (Decoder.reads_bytes16 _ (.ofNat acknowledgement.gapBlocks.length)).bind ?_
  refine (Decoder.reads_bytes16 _ (.ofNat acknowledgement.duplicateTsns.length)).bind ?_
  rw [hblocks, hduplicates]
  exact hgapBlocks.bind hduplicateTsns.bind_pure

end Acknowledgement

def decodedTypes : List ChunkType := [
  .data, .init, .initAck, .sack, .heartbeat, .heartbeatAck, .abort, .shutdown, .shutdownAck, .error,
  .cookieEcho, .cookieAck, .shutdownComplete]

/-- Types are told apart as far as they have a layout of their own. -/
@[elab_as_elim]
theorem ChunkType.byLayout {motive : ChunkType → Prop} (data : motive .data) (init : motive .init)
    (initAck : motive .initAck) (sack : motive .sack) (heartbeat : motive .heartbeat)
    (heartbeatAck : motive .heartbeatAck) (abort : motive .abort) (shutdown : motive .shutdown)
    (shutdownAck : motive .shutdownAck) (error : motive .error) (cookieEcho : motive .cookieEcho)
    (cookieAck : motive .cookieAck) (shutdownComplete : motive .shutdownComplete)
    (other : ∀ type ∉ decodedTypes, motive type) (type : ChunkType) : motive type := by
  by_cases h : type ∈ decodedTypes
  · simp only [decodedTypes, List.mem_cons, List.not_mem_nil, or_false] at h
    rcases h with rfl | rfl | rfl | rfl | rfl | rfl | rfl | rfl | rfl | rfl | rfl | rfl | rfl <;>
      assumption
  · exact other type h

namespace ChunkBody

/-- The body is of the kind that the type says, and its parameters are well formed. -/
def Fits (type : ChunkType) : ChunkBody → Prop
  | .data _ => type = .data
  | .init initiation => type = .init ∧
    ∀ parameter ∈ initiation.parameters, parameter.WellFormed ParameterValue.FitsInit
  | .initAck initiation => type = .initAck ∧
    ∀ parameter ∈ initiation.parameters, parameter.WellFormed ParameterValue.FitsInit
  | .sack _ => type = .sack
  | .heartbeat info => type = .heartbeat ∧ info.WellFormed
  | .heartbeatAck info => type = .heartbeatAck ∧ info.WellFormed
  | .abort _ => type = .abort
  | .shutdown _ => type = .shutdown
  | .shutdownAck => type = .shutdownAck
  | .error causes => type = .error ∧
    ∀ cause ∈ causes, cause.WellFormed ParameterValue.FitsError
  | .cookieEcho _ => type = .cookieEcho
  | .cookieAck => type = .cookieAck
  | .shutdownComplete => type = .shutdownComplete
  | .unknown _ => type ∉ decodedTypes

def Encodes (bytes : Bytes) : ChunkBody → Prop
  | .data payload => bytes = payload.encode
  | .init initiation | .initAck initiation => initiation.Encodes bytes
  | .sack acknowledgement => bytes = acknowledgement.encode
  | .heartbeat info | .heartbeatAck info => info.Encodes bytes
  | .abort word | .shutdown word => bytes = ByteOrder.bigEndian.bytes32 word
  | .error causes => Parameter.EncodesAll causes bytes
  | .cookieEcho raw | .unknown raw => bytes = raw
  | .shutdownAck | .cookieAck | .shutdownComplete => bytes = []

theorem layout_of_unknown {type : ChunkType} (h : type ∉ decodedTypes) :
    layout type = ⟨4, .unknown <$> .rest⟩ := by
  unfold layout
  split <;> first | rfl | exact absurd (by decide) h

theorem run_layout {type : ChunkType} {body : ChunkBody} {bytes : Bytes} (hfits : body.Fits type)
    (h : body.Encodes bytes) (hlength : bytes.length < 65536) :
    (layout type).least ≤ ChunkHeader.size + bytes.length ∧
      ∃ left, (layout type).value.run bytes = .ok (body, left) := by
  have hheader : 4 ≤ ChunkHeader.size + bytes.length := Nat.le_add_right _ _
  cases body with
  | data payload =>
    cases hfits
    cases h
    exact ⟨Nat.add_le_add_left payload.length_encode 4, _,
      Decoder.run_map_of_ok payload.run_decode _⟩
  | init initiation | initAck initiation =>
    obtain ⟨rfl, hwell⟩ := hfits
    exact ⟨Nat.add_le_add_left (Initiation.length_of_encodes h) 4, _,
      Decoder.run_map_of_ok (Initiation.run_decode hwell h) _⟩
  | sack acknowledgement =>
    cases hfits
    cases h
    have hle : 12 ≤ acknowledgement.encode.length := by
      rw [Acknowledgement.length_encode]
      exact Nat.le_add_right _ _
    exact ⟨Nat.add_le_add_left hle 4, _,
      Decoder.run_map_of_ok (Acknowledgement.reads_encode hlength).run_eq _⟩
  | heartbeat info | heartbeatAck info =>
    obtain ⟨rfl, hwell⟩ := hfits
    obtain ⟨left, hrun⟩ := HeartbeatInfo.run_decode hwell h
    exact ⟨Nat.add_le_add_left (HeartbeatInfo.length_of_encodes h) 4, left,
      Decoder.run_map_of_ok hrun _⟩
  | abort word | shutdown word =>
    cases hfits
    cases h
    exact ⟨Nat.le_refl _, _, Decoder.run_map_of_ok (Decoder.reads_bytes32 _ word).run_eq _⟩
  | error causes =>
    obtain ⟨rfl, hwell⟩ := hfits
    exact ⟨hheader, _, Decoder.run_map_of_ok (Parameter.run_decodeAll_error h hwell) _⟩
  | shutdownAck | cookieAck | shutdownComplete =>
    cases hfits
    exact ⟨hheader, _, rfl⟩
  | cookieEcho cookie =>
    cases hfits
    cases h
    exact ⟨hheader, _, rfl⟩
  | unknown data =>
    cases h
    rw [layout_of_unknown hfits]
    exact ⟨hheader, _, rfl⟩

end ChunkBody

def ChunkHeader.encode (header : ChunkHeader) : Bytes :=
  header.type.code :: header.flags :: ByteOrder.bigEndian.bytes16 header.length

theorem ChunkHeader.reads_encode (header : ChunkHeader) : decode.Reads header.encode header := by
  refine (Decoder.reads_byte header.type.code).bind ?_
  refine (Decoder.reads_byte header.flags).bind ?_
  exact (Decoder.reads_bytes16 _ header.length).bind_pure

@[simp] theorem ChunkHeader.length_encode (header : ChunkHeader) :
    header.encode.length = size := by simp [encode, size]

theorem ChunkHeader.length_le_alignedLength (header : ChunkHeader) :
    header.length.toNat ≤ header.alignedLength := le_align4 _

theorem ChunkHeader.length_whole {header : ChunkHeader} {content padding : Bytes}
    (hsize : size ≤ header.length.toNat) (hcontent : content.length = header.length.toNat - size)
    (hpadding : padding.length = header.alignedLength - header.length.toNat) :
    (header.encode ++ (content ++ padding)).length = header.alignedLength := by
  have hle := header.length_le_alignedLength
  rw [List.length_append, List.length_append, length_encode]
  omega

namespace Chunk

def WellFormed (chunk : Chunk) : Prop := chunk.body.Fits chunk.header.type

/-- The ways to write a chunk whose declared length is right. -/
inductive Encodes (chunk : Chunk) : Bytes → Prop
  | padded {body padding : Bytes} : chunk.body.Encodes body →
      chunk.header.length.toNat = ChunkHeader.size + body.length →
      padding.length = chunk.header.alignedLength - chunk.header.length.toNat →
      Encodes chunk (chunk.header.encode ++ (body ++ padding))

variable {chunk : Chunk} {bytes : Bytes}

theorem Encodes.length_eq (h : chunk.Encodes bytes) :
    bytes.length = chunk.header.alignedLength := by
  obtain ⟨_, hlength, hpadding⟩ := h
  exact ChunkHeader.length_whole (by omega) (by omega) hpadding

theorem reads_encoding (hwell : chunk.WellFormed) (h : chunk.Encodes bytes) :
    decode.Reads bytes chunk := by
  obtain @⟨body, padding, hbody, hlength, hpadding⟩ := h
  have hlt := chunk.header.length.toNat_lt
  obtain ⟨hleast, left, hrun⟩ := ChunkBody.run_layout hwell hbody (by omega)
  have hcontent : body.length = chunk.header.length.toNat - ChunkHeader.size := by omega
  have hlong : ¬ chunk.header.length.toNat < (ChunkBody.layout chunk.header.type).least := by omega
  intro more
  rw [decode, ← List.append_nil padding, List.append_assoc, chunk.header.reads_encode.run_bind]
  simp only [if_neg hlong]
  have hbody := Decoder.reads_on hrun
  refine (Decoder.reads_take hcontent).bind ?_ more
  refine (Decoder.reads_take hpadding).bind ?_
  exact hbody.bind_pure

theorem reads_decodeBounded (hwell : chunk.WellFormed) (h : chunk.Encodes bytes) :
    decodeBounded.Reads bytes chunk := by
  have hlen := h.length_eq
  have hreads := reads_encoding hwell h
  obtain @⟨body, padding, _, hlength, _⟩ := h
  have hlong : ¬ chunk.header.length.toNat < ChunkHeader.size := by omega
  intro more
  have hheader := chunk.header.reads_encode (body ++ padding ++ more)
  rw [← List.append_assoc] at hheader
  rw [decodeBounded, Decoder.run_bind_of_ok (Decoder.run_peek_of_ok hheader)]
  simp only [if_neg hlong]
  exact Decoder.reads_within hlen hreads.run_eq more

theorem tiles_encodings {chunks : List Chunk} {encodings : List Bytes}
    (h : List.Forall₂ (fun chunk bytes => chunk.WellFormed ∧ chunk.Encodes bytes) chunks
      encodings) : decodeBounded.Tiles encodings.flatten chunks := by
  induction h with
  | nil => exact .nil
  | @cons chunk bytes chunks encodings hchunk _ ih =>
    have hpos : 0 < bytes.length := by
      obtain ⟨_, _, _⟩ := hchunk.2
      rw [List.length_append, ChunkHeader.length_encode]
      exact Nat.add_pos_left (by decide) _
    refine .cons (reads_decodeBounded hchunk.1 hchunk.2 _) ?_ ih
    rw [List.flatten_cons, List.length_append]
    omega

/-- Well-formed chunks decode from every way to write them: each by itself whatever follows it, and
all of them from nothing but their encodings. -/
theorem decodeAll_encodings (chunks : List Chunk) (encodings : List Bytes)
    (h : List.Forall₂ (fun chunk bytes => chunk.WellFormed ∧ chunk.Encodes bytes) chunks
      encodings) :
    decodeAll.run encodings.flatten = .ok (chunks, []) ∧
      List.Forall₂ (fun chunk bytes => ∀ more, decode.run (bytes ++ more) = .ok (chunk, more))
        chunks encodings :=
  ⟨(tiles_encodings h).run_many, h.imp fun _ _ hchunk => reads_encoding hchunk.1 hchunk.2⟩

def openingChunk : Chunk where
  header := ⟨.init, 0, 41⟩
  body := .init {
    tag := 7
    advertisedReceiverWindowCredit := 0x10000
    outboundStreams := 10
    inboundStreams := 2048
    initialTsn := 0xfffffffe
    parameters := [
      ⟨⟨.ipv4Sender, 8⟩, .ipv4Sender ⟨[10, 0, 0, 1], rfl⟩⟩,
      ⟨⟨⟨0x8008⟩, 7⟩, .unknown [1, 2, 3]⟩,
      ⟨⟨⟨12⟩, 5⟩, .unknown [4]⟩] }

def openingParameters : Bytes := [
  0, 5, 0, 8, 10, 0, 0, 1, 0x80, 8, 0, 7, 1, 2, 3, 0xee, 0, 12, 0, 5, 4]

def openingBody : Bytes :=
  [0, 0, 0, 7, 0, 1, 0, 0, 0, 10, 8, 0, 0xff, 0xff, 0xff, 0xfe] ++ openingParameters

def openingBytes : Bytes := [1, 0, 0, 41] ++ openingBody ++ [0xaa, 0xbb, 0xcc]

theorem wellFormed_openingChunk : openingChunk.WellFormed := by
  refine ⟨rfl, ?_⟩
  simp only [List.forall_mem_cons, List.not_mem_nil, false_implies, implies_true, and_true]
  refine ⟨⟨.ipv4Sender _, rfl⟩, ⟨?_, rfl⟩, ⟨?_, rfl⟩⟩
  · exact .unknown _ (by decide) (by decide) (by decide)
  · exact .unknown _ (by decide) (by decide) (by decide)

theorem encodes_openingBytes : openingChunk.Encodes openingBytes := by
  have hlast : Parameter.EncodesAll [⟨⟨⟨12⟩, 5⟩, .unknown [4]⟩] [0, 12, 0, 5, 4] :=
    @Parameter.EncodesAll.last _ [] (Nat.zero_le _)
  have hbody : openingChunk.body.Encodes openingBody := by
    refine ⟨openingParameters, ?_, rfl⟩
    exact @Parameter.EncodesAll.cons _ [] _ _ rfl
      (@Parameter.EncodesAll.cons _ [0xee] _ _ rfl hlast)
  exact @Encodes.padded _ openingBody [0xaa, 0xbb, 0xcc] hbody rfl rfl

def gapChunk : Chunk := ⟨⟨.sack, 0, 24⟩, .sack ⟨9, 0x8000, [⟨2, 3⟩], [9]⟩⟩

def gapBytes : Bytes := [
  3, 0, 0, 24, 0, 0, 0, 9, 0, 0, 0x80, 0, 0, 1, 0, 1, 0, 2, 0, 3, 0, 0, 0, 9]

theorem encodes_gapBytes : gapChunk.Encodes gapBytes :=
  @Encodes.padded _ (gapBytes.drop 4) [] rfl rfl rfl

theorem decodeAll_opening_gap :
    List.Forall₂ (fun chunk bytes => chunk.WellFormed ∧ chunk.Encodes bytes)
      [openingChunk, gapChunk] [openingBytes, gapBytes] ∧
    decodeAll.run (openingBytes ++ gapBytes) = .ok ([openingChunk, gapChunk], []) := by
  have hboth : List.Forall₂ (fun chunk bytes => chunk.WellFormed ∧ chunk.Encodes bytes)
      [openingChunk, gapChunk] [openingBytes, gapBytes] :=
    .cons ⟨wellFormed_openingChunk, encodes_openingBytes⟩
      (.cons ⟨(rfl : gapChunk.WellFormed), encodes_gapBytes⟩ .nil)
  exact ⟨hboth, (decodeAll_encodings _ _ hboth).1⟩

end Chunk
end PacketCapture.Sctp
