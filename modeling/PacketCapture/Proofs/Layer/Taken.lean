import PacketCapture.Layer.Link
import PacketCapture.Proofs.Wire.Taken

/-! # The bytes of decoded layers

A layer that was decoded stands at the front of its input field by field. Words that several fields
share are given as they were read, with the fields that were unpacked from them.
-/
namespace PacketCapture
open Decoder
variable {bytes rest : Bytes}

namespace Udp.Datagram

def encode (datagram : Datagram) : Bytes :=
  let order := ByteOrder.bigEndian
  order.bytes16 datagram.sourcePort ++ (order.bytes16 datagram.destinationPort ++
    (order.bytes16 datagram.length ++ (order.bytes16 datagram.checksum ++ datagram.data)))

@[simp] theorem length_encode (datagram : Datagram) :
    datagram.encode.length = headerSize + datagram.data.length := by
  simp [encode, headerSize]
  omega

theorem decode_eq_ok {datagram : Datagram} (h : decode.run bytes = .ok (datagram, rest)) :
    bytes = datagram.encode ++ rest ∧ headerSize ≤ datagram.length.toNat ∧
      datagram.data.length = datagram.length.toNat - headerSize := by
  rw [decode] at h
  obtain ⟨sourcePort, _, rfl, h₁⟩ := word16_bind_eq_ok h
  obtain ⟨destinationPort, _, rfl, h₂⟩ := word16_bind_eq_ok h₁
  obtain ⟨length, _, rfl, h₃⟩ := word16_bind_eq_ok h₂
  obtain ⟨checksum, _, rfl, h₄⟩ := word16_bind_eq_ok h₃
  obtain ⟨hlong, h₅⟩ := guard_eq_ok h₄
  obtain ⟨data, _, rfl, hdata, h₆⟩ := take_bind_eq_ok h₅
  cases h₆
  refine ⟨?_, Nat.le_of_not_lt hlong, hdata⟩
  simp only [encode, List.append_assoc]

end Udp.Datagram

namespace Tcp.Segment

/-- The header without options, with the word of data offset and flags as it was read. -/
def encodeFields (offsetAndFlags : UInt16) (segment : Segment) : Bytes :=
  let order := ByteOrder.bigEndian
  order.bytes16 segment.sourcePort ++ (order.bytes16 segment.destinationPort ++
    (order.bytes32 segment.sequenceNumber ++ (order.bytes32 segment.ackNumber ++
      (order.bytes16 offsetAndFlags ++ (order.bytes16 segment.windowSize ++
        (order.bytes16 segment.checksum ++ order.bytes16 segment.urgentPointer))))))

@[simp] theorem length_encodeFields (offsetAndFlags : UInt16) (segment : Segment) :
    (segment.encodeFields offsetAndFlags).length = headerSize := by
  simp [encodeFields, headerSize]

theorem decode_eq_ok {segment : Segment} (h : decode.run bytes = .ok (segment, rest)) :
    ∃ offsetAndFlags : UInt16,
      bytes = segment.encodeFields offsetAndFlags ++ (segment.options ++ segment.data) ∧
      segment.dataOffset = (offsetAndFlags / 0x1000).toUInt8 ∧
      segment.flags = ⟨offsetAndFlags % 0x200⟩ ∧
      segment.options.length = segment.dataOffset.toNat * 4 - headerSize ∧ rest = [] := by
  rw [decode] at h
  obtain ⟨sourcePort, _, rfl, h₁⟩ := word16_bind_eq_ok h
  obtain ⟨destinationPort, _, rfl, h₂⟩ := word16_bind_eq_ok h₁
  obtain ⟨sequenceNumber, _, rfl, h₃⟩ := word32_bind_eq_ok h₂
  obtain ⟨ackNumber, _, rfl, h₄⟩ := word32_bind_eq_ok h₃
  obtain ⟨offsetAndFlags, _, rfl, h₅⟩ := word16_bind_eq_ok h₄
  obtain ⟨windowSize, _, rfl, h₆⟩ := word16_bind_eq_ok h₅
  obtain ⟨checksum, _, rfl, h₇⟩ := word16_bind_eq_ok h₆
  obtain ⟨urgentPointer, _, rfl, h₈⟩ := word16_bind_eq_ok h₇
  obtain ⟨options, data, rfl, hoptions, h₉⟩ := take_bind_eq_ok h₈
  cases h₉
  refine ⟨offsetAndFlags, ?_, rfl, rfl, hoptions, rfl⟩
  simp only [encodeFields, List.append_assoc]

end Tcp.Segment

namespace Ip

namespace V4Header

def encodeFields (versionAndIhl dscpAndEcn : UInt8) (flagsAndOffset : UInt16)
    (header : V4Header) : Bytes :=
  let order := ByteOrder.bigEndian
  versionAndIhl :: dscpAndEcn :: (order.bytes16 header.totalLength ++ (order.bytes16 header.id ++
    (order.bytes16 flagsAndOffset ++ (header.ttl :: header.protocol.code ::
      (order.bytes16 header.checksum ++ (header.source.val ++ header.destination.val))))))

@[simp] theorem length_encodeFields (versionAndIhl dscpAndEcn : UInt8) (flagsAndOffset : UInt16)
    (header : V4Header) :
    (header.encodeFields versionAndIhl dscpAndEcn flagsAndOffset).length = fixedSize := by
  simp [encodeFields, fixedSize, header.source.property, header.destination.property]

/-- The fields of the header that were unpacked from shared words. -/
structure Unpacks (versionAndIhl dscpAndEcn : UInt8) (flagsAndOffset : UInt16)
    (header : V4Header) : Prop where
  version : versionAndIhl / 0x10 = 4
  ihl : header.ihl = versionAndIhl % 0x10
  dscp : header.dscp = dscpAndEcn / 4
  ecn : header.ecn = dscpAndEcn % 4
  dontFragment : header.dontFragment = flagsAndOffset.toNat.testBit 14
  moreFragments : header.moreFragments = flagsAndOffset.toNat.testBit 13
  fragmentOffset : header.fragmentOffset = flagsAndOffset % 0x2000

theorem decode_eq_ok {header : V4Header} (h : decode.run bytes = .ok (header, rest)) :
    ∃ versionAndIhl dscpAndEcn flagsAndOffset,
      bytes = header.encodeFields versionAndIhl dscpAndEcn flagsAndOffset ++
        (header.options ++ rest) ∧
      header.Unpacks versionAndIhl dscpAndEcn flagsAndOffset ∧
      header.options.length = header.length - fixedSize := by
  rw [decode] at h
  obtain ⟨versionAndIhl, _, rfl, h₁⟩ := byte_bind_eq_ok h
  obtain ⟨dscpAndEcn, _, rfl, h₂⟩ := byte_bind_eq_ok h₁
  obtain ⟨totalLength, _, rfl, h₃⟩ := word16_bind_eq_ok h₂
  obtain ⟨id, _, rfl, h₄⟩ := word16_bind_eq_ok h₃
  obtain ⟨flagsAndOffset, _, rfl, h₅⟩ := word16_bind_eq_ok h₄
  obtain ⟨ttl, _, rfl, h₆⟩ := byte_bind_eq_ok h₅
  obtain ⟨protocol, _, rfl, h₇⟩ := byte_bind_eq_ok h₆
  obtain ⟨checksum, _, rfl, h₈⟩ := word16_bind_eq_ok h₇
  obtain ⟨source, _, rfl, h₉⟩ := octets_bind_eq_ok h₈
  obtain ⟨destination, _, rfl, h₁₀⟩ := octets_bind_eq_ok h₉
  obtain ⟨hversion, h₁₁⟩ := guard_eq_ok h₁₀
  obtain ⟨options, _, rfl, hoptions, h₁₂⟩ := take_bind_eq_ok h₁₁
  cases h₁₂
  refine ⟨versionAndIhl, dscpAndEcn, flagsAndOffset, ?_,
    ⟨Decidable.not_not.mp hversion, rfl, rfl, rfl, rfl, rfl, rfl⟩, hoptions⟩
  simp only [encodeFields, List.cons_append, List.append_assoc]

end V4Header

theorem V4Packet.decode_eq_ok {packet : V4Packet} (h : decode.run bytes = .ok (packet, rest)) :
    ∃ more stretch left, V4Header.decode.run bytes = .ok (packet.header, more) ∧
      packet.header.length ≤ packet.header.totalLength.toNat ∧ more = stretch ++ rest ∧
      stretch.length = packet.header.totalLength.toNat - packet.header.length ∧
      (TransportLayer.decode packet.header.protocol).run stretch = .ok (packet.payload, left) := by
  rw [decode] at h
  obtain ⟨header, _, hheader, h₁⟩ := bind_eq_ok h
  obtain ⟨hlong, h₂⟩ := guard_eq_ok h₁
  obtain ⟨payload, stretch, left, _, rfl, hlen, hpayload, h₃⟩ := within_bind_eq_ok h₂
  cases h₃
  exact ⟨_, stretch, left, hheader, Nat.le_of_not_lt hlong, rfl, hlen, hpayload⟩

namespace V6Header

def encodeFields (versionClassAndLabel : UInt32) (header : V6Header) : Bytes :=
  let order := ByteOrder.bigEndian
  order.bytes32 versionClassAndLabel ++ (order.bytes16 header.payloadLength ++
    (header.nextHeader.code :: header.hopLimit :: (header.source.val ++ header.destination.val)))

@[simp] theorem length_encodeFields (versionClassAndLabel : UInt32) (header : V6Header) :
    (header.encodeFields versionClassAndLabel).length = size := by
  simp [encodeFields, size, header.source.property, header.destination.property]

structure Unpacks (versionClassAndLabel : UInt32) (header : V6Header) : Prop where
  version : versionClassAndLabel / 0x10000000 = 6
  trafficClass : header.trafficClass = (versionClassAndLabel / 0x100000 % 0x100).toUInt8
  flowLabel : header.flowLabel = versionClassAndLabel % 0x100000

theorem decode_eq_ok {header : V6Header} (h : decode.run bytes = .ok (header, rest)) :
    ∃ versionClassAndLabel, bytes = header.encodeFields versionClassAndLabel ++ rest ∧
      header.Unpacks versionClassAndLabel := by
  rw [decode] at h
  obtain ⟨versionClassAndLabel, _, rfl, h₁⟩ := word32_bind_eq_ok h
  obtain ⟨payloadLength, _, rfl, h₂⟩ := word16_bind_eq_ok h₁
  obtain ⟨nextHeader, _, rfl, h₃⟩ := byte_bind_eq_ok h₂
  obtain ⟨hopLimit, _, rfl, h₄⟩ := byte_bind_eq_ok h₃
  obtain ⟨source, _, rfl, h₅⟩ := octets_bind_eq_ok h₄
  obtain ⟨destination, _, rfl, h₆⟩ := octets_bind_eq_ok h₅
  obtain ⟨hversion, h₇⟩ := guard_eq_ok h₆
  cases h₇
  refine ⟨versionClassAndLabel, ?_, ⟨Decidable.not_not.mp hversion, rfl, rfl⟩⟩
  simp only [encodeFields, List.cons_append, List.append_assoc]

end V6Header

theorem V6Packet.decode_eq_ok {packet : V6Packet} (h : decode.run bytes = .ok (packet, rest)) :
    ∃ more, V6Header.decode.run bytes = .ok (packet.header, more) ∧
      (TransportLayer.decode packet.header.nextHeader).run more = .ok (packet.payload, rest) := by
  obtain ⟨header, more, hheader, h₁⟩ := bind_eq_ok h
  obtain ⟨payload, _, hpayload, h₂⟩ := bind_eq_ok h₁
  cases h₂
  exact ⟨more, hheader, hpayload⟩

end Ip

namespace Ethernet

def VlanTag.encode (vlanTag : Option VlanTag) : Bytes := vlanTag.elim [] VlanTag.bytes

namespace Frame

def headerSize (frame : Frame) : Nat := 14 + (VlanTag.encode frame.vlanTag).length

theorem decodeTagAndWord_eq_ok {vlanTag : Option VlanTag} {word : UInt16}
    (h : decodeTagAndWord.run bytes = .ok ((vlanTag, word), rest)) :
    bytes = VlanTag.encode vlanTag ++ (ByteOrder.bigEndian.bytes16 word ++ rest) ∧
      (vlanTag = none → word ≠ vlanTpid) := by
  rw [decodeTagAndWord] at h
  obtain ⟨first, _, rfl, h₁⟩ := word16_bind_eq_ok h
  by_cases htag : first = vlanTpid
  · rw [if_pos htag] at h₁
    obtain ⟨control, _, rfl, h₂⟩ := octets_bind_eq_ok h₁
    obtain ⟨second, _, rfl, h₃⟩ := word16_bind_eq_ok h₂
    cases h₃
    subst htag
    exact ⟨rfl, nofun⟩
  · rw [if_neg htag] at h₁
    cases h₁
    exact ⟨rfl, fun _ => htag⟩

theorem decode_eq_ok {frame : Frame} (h : decode.run bytes = .ok (frame, rest)) :
    ∃ word more, bytes = frame.destination.val ++ (frame.source.val ++
        (VlanTag.encode frame.vlanTag ++ (ByteOrder.bigEndian.bytes16 word ++ more))) ∧
      frame.lengthOrType = .ofWord word ∧ (frame.vlanTag = none → word ≠ vlanTpid) ∧
      (InternetLayer.decode frame.lengthOrType.typeValue).run more = .ok (frame.payload, rest) := by
  rw [decode] at h
  obtain ⟨destination, _, rfl, h₁⟩ := octets_bind_eq_ok h
  obtain ⟨source, _, rfl, h₂⟩ := octets_bind_eq_ok h₁
  obtain ⟨⟨vlanTag, word⟩, more, htag, h₃⟩ := bind_eq_ok h₂
  obtain ⟨rfl, huntagged⟩ := decodeTagAndWord_eq_ok htag
  obtain ⟨payload, _, hpayload, h₄⟩ := bind_eq_ok h₃
  cases h₄
  exact ⟨word, more, rfl, rfl, huntagged, hpayload⟩

end Frame
end Ethernet
end PacketCapture
