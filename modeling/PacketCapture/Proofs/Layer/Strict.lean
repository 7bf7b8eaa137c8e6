import PacketCapture.Proofs.Layer.Data
import PacketCapture.Proofs.Sctp.Strict
import PacketCapture.Trace.Frame

/-! # Strict decoders of frames

The fixed part of a header is counted once in front and its fields are counted on. Options are sized
only above the words of the fixed part, and a payload only once the declared length covers the
header, so that no layer slips, whatever a record captured.
-/
namespace PacketCapture
open Decoder

def Strict.options (words : Nat) : Strict Bytes := do
  if 5 < words then
    .of (.take ((← .subtract words 5) * 4))
  else
    return []

theorem Strict.agrees_options (words : Nat) :
    (options words).Agrees (.take (words * 4 - 20)) := by
  by_cases h : 5 < words
  · rw [options, if_pos h, subtract_of_le (Nat.le_of_lt h), pure_bind, Nat.mul_sub_right_distrib]
    exact agrees_of _
  · have hnone : words * 4 - 20 = 0 := by omega
    rw [options, if_neg h, hnone]
    exact agrees_pure []

def Tcp.Segment.decodeStrictly : Strict Segment := do
  .atLeast headerSize
  let sourcePort ← .sure (.word16 .bigEndian)
  let destinationPort ← .sure (.word16 .bigEndian)
  let sequenceNumber ← .sure (.word32 .bigEndian)
  let ackNumber ← .sure (.word32 .bigEndian)
  let offsetAndFlags ← Strict.sure (.word16 .bigEndian)
  let windowSize ← .sure (.word16 .bigEndian)
  let checksum ← .sure (.word16 .bigEndian)
  let urgentPointer ← .sure (.word16 .bigEndian)
  let dataOffset := (offsetAndFlags / 0x1000).toUInt8
  let options ← .options dataOffset.toNat
  let data ← .of .rest
  return {
    sourcePort, destinationPort, sequenceNumber, ackNumber, dataOffset, windowSize, checksum,
    urgentPointer, options, data, flags := ⟨offsetAndFlags % 0x200⟩ }

theorem Tcp.Segment.agrees_decode : decodeStrictly.Agrees decode := by
  have hsize : headerSize = 2 + (2 + (4 + (4 + (2 + (2 + (2 + (2 + 0))))))) := rfl
  have hword16 := fixed_word16 .bigEndian
  have hword32 := fixed_word32 .bigEndian
  refine Strict.AgreesFrom.of_atLeast hsize ?_
  refine Strict.sure_bind hword16 fun sourcePort => ?_
  refine Strict.sure_bind hword16 fun destinationPort => ?_
  refine Strict.sure_bind hword32 fun sequenceNumber => ?_
  refine Strict.sure_bind hword32 fun ackNumber => ?_
  refine Strict.sure_bind hword16 fun offsetAndFlags => ?_
  refine Strict.sure_bind hword16 fun windowSize => ?_
  refine Strict.sure_bind hword16 fun checksum => ?_
  refine Strict.sure_bind hword16 fun urgentPointer => ?_
  have hoptions := Strict.agrees_options (offsetAndFlags / 0x1000).toUInt8.toNat
  refine hoptions.bind fun options => ?_
  exact (Strict.agrees_of .rest).bind fun data => Strict.agrees_pure _

def Udp.Datagram.decodeStrictly : Strict Datagram := do
  .atLeast headerSize
  let sourcePort ← .sure (.word16 .bigEndian)
  let destinationPort ← .sure (.word16 .bigEndian)
  let length ← Strict.sure (.word16 .bigEndian)
  let checksum ← .sure (.word16 .bigEndian)
  if length.toNat < headerSize then .fail .insufficientLength
  let data ← .of (.take (← .subtract length.toNat headerSize))
  return { sourcePort, destinationPort, length, checksum, data }

theorem Udp.Datagram.agrees_decode : decodeStrictly.Agrees decode := by
  have hsize : headerSize = 2 + (2 + (2 + (2 + 0))) := rfl
  have hword16 := fixed_word16 .bigEndian
  refine Strict.AgreesFrom.of_atLeast hsize ?_
  refine Strict.sure_bind hword16 fun sourcePort => ?_
  refine Strict.sure_bind hword16 fun destinationPort => ?_
  refine Strict.sure_bind hword16 fun length => ?_
  refine Strict.sure_bind hword16 fun checksum => ?_
  refine Strict.AgreesFrom.guard fun hlength => ?_
  rw [Strict.subtract_of_le (Nat.le_of_not_lt hlength), pure_bind]
  exact (Strict.agrees_of _).bind fun data => Strict.agrees_pure _

namespace TransportLayer

def decodeStrictly : IpProtocol → Strict TransportLayer
  | .tcp => .tcp <$> Tcp.Segment.decodeStrictly
  | .udp => .udp <$> Udp.Datagram.decodeStrictly
  | .sctp => .sctp <$> Sctp.Segment.decodeStrictly
  | _ => .unknown <$> .of .rest

theorem agrees_decode (protocol : IpProtocol) :
    (decodeStrictly protocol).Agrees (decode protocol) := by
  unfold decodeStrictly
  split
  · exact Tcp.Segment.agrees_decode.map _
  · exact Udp.Datagram.agrees_decode.map _
  · exact Sctp.Segment.agrees_decode.map _
  · rename_i htcp hudp hsctp
    rw [decode_of_other htcp hudp hsctp]
    exact (Strict.agrees_of .rest).map _

end TransportLayer

namespace Ip

def V4Header.decodeStrictly : Strict V4Header := do
  .atLeast fixedSize
  let versionAndIhl ← .sure .byte
  let dscpAndEcn ← .sure .byte
  let totalLength ← .sure (.word16 .bigEndian)
  let id ← .sure (.word16 .bigEndian)
  let flagsAndOffset ← Strict.sure (.word16 .bigEndian)
  let ttl ← .sure .byte
  let protocol ← .sure .byte
  let checksum ← .sure (.word16 .bigEndian)
  let source ← .sure (.octets 4)
  let destination ← .sure (.octets 4)
  if versionAndIhl / 0x10 ≠ 4 then .fail .typeMismatch
  let ihl := versionAndIhl % 0x10
  let options ← .options ihl.toNat
  return {
    ihl, totalLength, id, ttl, checksum, source, destination, options
    dscp := dscpAndEcn / 4
    ecn := dscpAndEcn % 4
    dontFragment := flagsAndOffset.toNat.testBit 14
    moreFragments := flagsAndOffset.toNat.testBit 13
    fragmentOffset := flagsAndOffset % 0x2000
    protocol := ⟨protocol⟩ }

theorem V4Header.agrees_decode : decodeStrictly.Agrees decode := by
  have hsize : fixedSize = 1 + (1 + (2 + (2 + (2 + (1 + (1 + (2 + (4 + (4 + 0))))))))) := rfl
  have hword16 := fixed_word16 .bigEndian
  have haddress := fixed_octets 4
  refine Strict.AgreesFrom.of_atLeast hsize ?_
  refine Strict.sure_bind fixed_byte fun versionAndIhl => ?_
  refine Strict.sure_bind fixed_byte fun dscpAndEcn => ?_
  refine Strict.sure_bind hword16 fun totalLength => ?_
  refine Strict.sure_bind hword16 fun id => ?_
  refine Strict.sure_bind hword16 fun flagsAndOffset => ?_
  refine Strict.sure_bind fixed_byte fun ttl => ?_
  refine Strict.sure_bind fixed_byte fun protocol => ?_
  refine Strict.sure_bind hword16 fun checksum => ?_
  refine Strict.sure_bind haddress fun source => ?_
  refine Strict.sure_bind haddress fun destination => ?_
  refine Strict.AgreesFrom.guard fun hversion => ?_
  have hoptions := Strict.agrees_options (versionAndIhl % 0x10).toNat
  exact hoptions.bind fun options => Strict.agrees_pure _

def V4Packet.decodeStrictly : Strict V4Packet := do
  let header ← V4Header.decodeStrictly
  if header.totalLength.toNat < header.length then .fail .insufficientLength
  let data ← .of (.take (← .subtract header.totalLength.toNat header.length))
  let payload ← (TransportLayer.decodeStrictly header.protocol).on data
  return { header, payload }

theorem V4Packet.agrees_decode : decodeStrictly.Agrees decode := by
  refine V4Header.agrees_decode.bind fun header => ?_
  refine Strict.AgreesFrom.guard fun hlength => ?_
  rw [Strict.subtract_of_le (Nat.le_of_not_lt hlength), pure_bind, Decoder.within, bind_assoc]
  refine (Strict.agrees_of _).bind fun data => ?_
  have hpayload := (TransportLayer.agrees_decode header.protocol).run_eq data
  exact (Strict.agrees_on hpayload).bind fun payload => Strict.agrees_pure _

def V6Header.decodeStrictly : Strict V6Header := do
  .atLeast size
  let versionClassAndLabel ← Strict.sure (.word32 .bigEndian)
  let payloadLength ← .sure (.word16 .bigEndian)
  let nextHeader ← .sure .byte
  let hopLimit ← .sure .byte
  let source ← .sure (.octets 16)
  let destination ← .sure (.octets 16)
  if versionClassAndLabel / 0x10000000 ≠ 6 then .fail .typeMismatch
  return {
    payloadLength, hopLimit, source, destination
    trafficClass := (versionClassAndLabel / 0x100000 % 0x100).toUInt8
    flowLabel := versionClassAndLabel % 0x100000
    nextHeader := ⟨nextHeader⟩ }

theorem V6Header.agrees_decode : decodeStrictly.Agrees decode := by
  have hsize : size = 4 + (2 + (1 + (1 + (16 + (16 + 0))))) := rfl
  have haddress := fixed_octets 16
  refine Strict.AgreesFrom.of_atLeast hsize ?_
  refine Strict.sure_bind (fixed_word32 .bigEndian) fun versionClassAndLabel => ?_
  refine Strict.sure_bind (fixed_word16 .bigEndian) fun payloadLength => ?_
  refine Strict.sure_bind fixed_byte fun nextHeader => ?_
  refine Strict.sure_bind fixed_byte fun hopLimit => ?_
  refine Strict.sure_bind haddress fun source => ?_
  refine Strict.sure_bind haddress fun destination => ?_
  exact Strict.AgreesFrom.guard fun hversion => Strict.agrees_pure _

def V6Packet.decodeStrictly : Strict V6Packet := do
  let header ← V6Header.decodeStrictly
  let payload ← TransportLayer.decodeStrictly header.nextHeader
  return { header, payload }

theorem V6Packet.agrees_decode : decodeStrictly.Agrees decode := by
  refine V6Header.agrees_decode.bind fun header => ?_
  have hpayload := TransportLayer.agrees_decode header.nextHeader
  exact hpayload.bind fun payload => Strict.agrees_pure _

end Ip

namespace InternetLayer

def decodeStrictly : EtherType → Strict InternetLayer
  | .ipv4 => .ipv4 <$> Ip.V4Packet.decodeStrictly
  | .ipv6 => .ipv6 <$> Ip.V6Packet.decodeStrictly
  | _ => .unknown <$> .of .rest

theorem agrees_decode (type : EtherType) : (decodeStrictly type).Agrees (decode type) := by
  unfold decodeStrictly
  split
  · exact Ip.V4Packet.agrees_decode.map _
  · exact Ip.V6Packet.agrees_decode.map _
  · rename_i hfour hsix
    rw [decode_of_other hfour hsix]
    exact (Strict.agrees_of .rest).map _

end InternetLayer

def Ethernet.Frame.decodeStrictly : Strict Frame := do
  let destination ← .of (.octets 6)
  let source ← .of (.octets 6)
  let (vlanTag, word) ← .of decodeTagAndWord
  let lengthOrType := LengthOrType.ofWord word
  let payload ← InternetLayer.decodeStrictly lengthOrType.typeValue
  return { destination, source, vlanTag, lengthOrType, payload }

theorem Ethernet.Frame.agrees_decode : decodeStrictly.Agrees decode := by
  have haddress := Strict.agrees_of (.octets 6)
  refine haddress.bind fun destination => ?_
  refine haddress.bind fun source => ?_
  refine (Strict.agrees_of decodeTagAndWord).bind fun found => ?_
  have hpayload := InternetLayer.agrees_decode (LengthOrType.ofWord found.2).typeValue
  exact hpayload.bind fun payload => Strict.agrees_pure _

namespace LinkLayer

def decodeStrictly : LinkType → Strict LinkLayer
  | .ethernet => .ethernet <$> Ethernet.Frame.decodeStrictly
  | _ => .unknown <$> .of .rest

theorem agrees_decode (type : LinkType) : (decodeStrictly type).Agrees (decode type) := by
  unfold decodeStrictly
  split
  · exact Ethernet.Frame.agrees_decode.map _
  · rename_i hother
    rw [decode_of_other hother]
    exact (Strict.agrees_of .rest).map _

end LinkLayer

namespace Trace.Frame

def decodeStrictly (order : ByteOrder) (linkType : LinkType) : Strict Frame := do
  let header ← .of (RecordHeader.decode order)
  let data ← .of (.take header.capturedLength.toNat)
  let link ← (LinkLayer.decodeStrictly linkType).on data
  return {
    timestamp := header.timestamp
    capturedLength := header.capturedLength
    wireLength := header.wireLength
    link }

theorem agrees_decode (order : ByteOrder) (linkType : LinkType) :
    (decodeStrictly order linkType).Agrees (decode order linkType) := by
  refine (Strict.agrees_of (RecordHeader.decode order)).bind fun header => ?_
  rw [Decoder.within, bind_assoc]
  refine (Strict.agrees_of _).bind fun data => ?_
  have hlink := (LinkLayer.agrees_decode linkType).run_eq data
  exact (Strict.agrees_on hlink).bind fun link => Strict.agrees_pure _

end Trace.Frame

open Sctp

/-- Whatever the bytes, no decoder slips, but comes to the same read strictly: records, frames,
segments and chunks, and lists of parameters with any decoder of single ones that does not slip
itself on just the bytes of one. All registries are such, and the body of a chunk has all the fields
it counts on, once the least length of its type was judged. -/
theorem decoders_never_slip (bytes : Bytes) :
    (∀ order linkType, (Trace.Frame.decodeStrictly order linkType).outcome bytes =
      .ok ((Trace.Frame.decode order linkType).run bytes)) ∧
    (∀ linkType, (LinkLayer.decodeStrictly linkType).outcome bytes =
      .ok ((LinkLayer.decode linkType).run bytes)) ∧
    Segment.decodeStrictly.outcome bytes = .ok (Segment.decode.run bytes) ∧
    Chunk.decodeAllStrictly.outcome bytes = .ok (Chunk.decodeAll.run bytes) ∧
    Chunk.decodeStrictly.outcome bytes = .ok (Chunk.decode.run bytes) ∧
    (∀ strict parameter,
      (∀ raw : RawParameter, strict.outcome raw.bytes = .ok (parameter.run raw.bytes)) →
      (Parameter.decodeAllStrictly strict).outcome bytes =
        .ok ((Parameter.decodeAll parameter).run bytes)) ∧
    (∀ registry ∈ [Registry.unknown, .init, .error, .heartbeat],
      (Parameter.decodeAllStrictly (Parameter.decodeStrictly registry)).outcome bytes =
        .ok ((Parameter.decodeAll (Parameter.decode registry)).run bytes)) ∧
    ∀ type, (ChunkBody.layout type).least ≤ ChunkHeader.size + bytes.length →
      (ChunkBody.decodeStrictly type).outcome bytes =
        .ok ((ChunkBody.layout type).value.run bytes) := by
  have hrecord (order : ByteOrder) (linkType : LinkType) :=
    (Trace.Frame.agrees_decode order linkType).run_eq bytes
  have hlink (linkType : LinkType) := (LinkLayer.agrees_decode linkType).run_eq bytes
  have hsegment := Segment.agrees_decode.run_eq bytes
  have hchunks := Chunk.agrees_decodeAll.run_eq bytes
  have hchunk := Chunk.agrees_decode.run_eq bytes
  refine ⟨hrecord, hlink, hsegment, hchunks, hchunk, ?_, ?_, ?_⟩
  · intro strict parameter hparameter
    exact (Parameter.agrees_decodeAll hparameter).run_eq bytes
  · intro registry hregistry
    have hsufficient : registry.Sufficient := by
      simp only [List.mem_cons, List.not_mem_nil, or_false] at hregistry
      rcases hregistry with rfl | rfl | rfl | rfl
      · exact Registry.sufficient_unknown
      · exact Registry.sufficient_init
      · exact Registry.sufficient_unknown
      · exact Registry.sufficient_heartbeat
    exact (Parameter.agrees_decodeAll_decode hsufficient).run_eq bytes
  · intro type hleast
    exact (ChunkBody.agreesFrom_value type).outcome_eq bytes (Nat.sub_le_iff_le_add'.mpr hleast)

theorem decoders_never_slip_twoDataFrame :
    (∃ link, (LinkLayer.decodeStrictly .ethernet).outcome LinkLayer.twoDataFrame =
      .ok (.ok (link, []))) ∧
    (Parameter.decodeAllStrictly (.of (Parameter.decode .init))).outcome
      Parameter.cutIncrementBytes = .ok (.error .insufficientLength) ∧
    (Parameter.decodeAllStrictly (Parameter.decodeStrictly .init)).outcome
      Parameter.cutIncrementBytes = .ok (.error .insufficientLength) ∧
    ∃ body, (ChunkBody.decodeStrictly .init).outcome Chunk.openingBody =
      .ok (.ok (body, [])) := by
  obtain ⟨link, hlink⟩ : ∃ link,
    (LinkLayer.decode .ethernet).run LinkLayer.twoDataFrame = .ok (link, []) := ⟨_, rfl⟩
  obtain ⟨body, hbody⟩ : ∃ body,
    (ChunkBody.layout .init).value.run Chunk.openingBody = .ok (body, []) := ⟨_, rfl⟩
  have hcut : (Parameter.decodeAll (Parameter.decode .init)).run Parameter.cutIncrementBytes =
    .error .insufficientLength := rfl
  obtain ⟨_, hframe, _⟩ := decoders_never_slip LinkLayer.twoDataFrame
  obtain ⟨_, _, _, _, _, hany, hregistry, _⟩ := decoders_never_slip Parameter.cutIncrementBytes
  obtain ⟨_, _, _, _, _, _, _, htype⟩ := decoders_never_slip Chunk.openingBody
  refine ⟨⟨link, ?_⟩, ?_, ?_, body, ?_⟩
  · rw [hframe, hlink]
  · rw [hany _ (Parameter.decode .init) fun _ => rfl, hcut]
  · rw [hregistry .init (by simp), hcut]
  · rw [htype .init (by decide), hbody]

end PacketCapture
