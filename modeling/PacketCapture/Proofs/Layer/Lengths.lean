import PacketCapture.Proofs.Layer.Taken
import PacketCapture.Proofs.Sctp.Lengths

/-! # Declared lengths of layers

A length that governs what is read is never beyond the bytes of its layer, and what it declares is
there in full. The length word of an Ethernet frame and the payload length of an IPv6 packet govern
nothing: all the bytes behind the header belong to the payload, be they as many as declared or not.
-/
namespace PacketCapture
variable {bytes rest : Bytes}

/-- Header, options and data fill the room, and the data offset does not point beyond it. -/
def Tcp.Segment.Within (room : Nat) (segment : Segment) : Prop :=
  segment.dataOffset.toNat * 4 ≤ room ∧
    headerSize + segment.options.length + segment.data.length = room

theorem Tcp.Segment.within_of_decode {segment : Segment}
    (h : decode.run bytes = .ok (segment, rest)) : segment.Within bytes.length := by
  obtain ⟨offsetAndFlags, rfl, _, _, hoptions, _⟩ := decode_eq_ok h
  simp only [Within, List.length_append, length_encodeFields]
  constructor <;> omega

/-- The declared length is that of header and data, and it fits into the room. -/
def Udp.Datagram.Within (room : Nat) (datagram : Datagram) : Prop :=
  datagram.length.toNat ≤ room ∧ headerSize + datagram.data.length = datagram.length.toNat

theorem Udp.Datagram.within_of_decode {datagram : Datagram}
    (h : decode.run bytes = .ok (datagram, rest)) : datagram.Within bytes.length := by
  obtain ⟨rfl, hlong, hdata⟩ := decode_eq_ok h
  simp only [Within, List.length_append, length_encode]
  constructor <;> omega

namespace TransportLayer

def Within (room : Nat) : TransportLayer → Prop
  | .tcp segment => segment.Within room
  | .udp datagram => datagram.Within room
  | .sctp segment => segment.Within room
  | .unknown raw => raw.length = room

theorem within_of_decode {protocol : IpProtocol} {layer : TransportLayer}
    (h : (decode protocol).run bytes = .ok (layer, rest)) : layer.Within bytes.length := by
  unfold decode at h
  split at h
  · obtain ⟨segment, hsegment, rfl⟩ := Decoder.map_eq_ok h
    exact Tcp.Segment.within_of_decode hsegment
  · obtain ⟨datagram, hdatagram, rfl⟩ := Decoder.map_eq_ok h
    exact Udp.Datagram.within_of_decode hdatagram
  · obtain ⟨segment, hsegment, rfl⟩ := Decoder.map_eq_ok h
    exact Sctp.Segment.within_of_decode hsegment
  · cases h
    rfl

end TransportLayer

namespace Ip

/-- The total length fits into the room, and what it leaves to the payload is all there. -/
def V4Packet.Within (room : Nat) (packet : V4Packet) : Prop :=
  packet.header.totalLength.toNat ≤ room ∧ packet.header.length ≤ packet.header.totalLength.toNat ∧
    packet.payload.Within (packet.header.totalLength.toNat - packet.header.length)

theorem V4Packet.within_of_decode {packet : V4Packet}
    (h : decode.run bytes = .ok (packet, rest)) : packet.Within bytes.length := by
  obtain ⟨_, stretch, left, hheader, hlong, rfl, hlen, hpayload⟩ := decode_eq_ok h
  obtain ⟨_, _, _, rfl, _, hoptions⟩ := V4Header.decode_eq_ok hheader
  have hwithin := TransportLayer.within_of_decode hpayload
  rw [hlen] at hwithin
  refine ⟨?_, hlong, hwithin⟩
  simp only [List.length_append, V4Header.length_encodeFields]
  omega

/-- All the room behind the header is the payload's, whatever length the header declares for it. -/
def V6Packet.Within (room : Nat) (packet : V6Packet) : Prop :=
  V6Header.size ≤ room ∧ packet.payload.Within (room - V6Header.size)

theorem V6Packet.within_of_decode {packet : V6Packet}
    (h : decode.run bytes = .ok (packet, rest)) : packet.Within bytes.length := by
  obtain ⟨more, hheader, hpayload⟩ := decode_eq_ok h
  obtain ⟨_, rfl, _⟩ := V6Header.decode_eq_ok hheader
  rw [Within, List.length_append, V6Header.length_encodeFields, Nat.add_sub_cancel_left]
  exact ⟨Nat.le_add_right _ _, TransportLayer.within_of_decode hpayload⟩

end Ip

namespace InternetLayer

def Within (room : Nat) : InternetLayer → Prop
  | .ipv4 packet => packet.Within room
  | .ipv6 packet => packet.Within room
  | .unknown raw => raw.length = room

theorem within_of_decode {type : EtherType} {layer : InternetLayer}
    (h : (decode type).run bytes = .ok (layer, rest)) : layer.Within bytes.length := by
  unfold decode at h
  split at h
  · obtain ⟨packet, hpacket, rfl⟩ := Decoder.map_eq_ok h
    exact Ip.V4Packet.within_of_decode hpacket
  · obtain ⟨packet, hpacket, rfl⟩ := Decoder.map_eq_ok h
    exact Ip.V6Packet.within_of_decode hpacket
  · cases h
    rfl

end InternetLayer

namespace Ethernet.Frame

def Within (room : Nat) (frame : Frame) : Prop :=
  frame.headerSize ≤ room ∧ frame.payload.Within (room - frame.headerSize)

theorem length_of_decode {frame : Frame} (h : decode.run bytes = .ok (frame, rest)) :
    ∃ more, bytes.length = frame.headerSize + more.length ∧
      (InternetLayer.decode frame.lengthOrType.typeValue).run more = .ok (frame.payload, rest) := by
  obtain ⟨word, more, rfl, _, _, hpayload⟩ := decode_eq_ok h
  refine ⟨more, ?_, hpayload⟩
  simp only [List.length_append, ByteOrder.length_bytes16, frame.destination.property,
    frame.source.property, headerSize]
  omega

theorem within_of_decode {frame : Frame} (h : decode.run bytes = .ok (frame, rest)) :
    frame.Within bytes.length := by
  obtain ⟨more, hlen, hpayload⟩ := length_of_decode h
  rw [Within, hlen, Nat.add_sub_cancel_left]
  exact ⟨Nat.le_add_right _ _, InternetLayer.within_of_decode hpayload⟩

end Ethernet.Frame

namespace LinkLayer

def Within (room : Nat) : LinkLayer → Prop
  | .ethernet frame => frame.Within room
  | .unknown raw => raw.length = room

/-- Wherever a length governs what is read, from the link layer down to the parameters of a chunk, it
is kept: no layer that was decoded is shorter than it declares. -/
theorem decoded_within {linkType : LinkType} {link : LinkLayer}
    (h : (decode linkType).run bytes = .ok (link, rest)) : link.Within bytes.length := by
  unfold decode at h
  split at h
  · obtain ⟨frame, hframe, rfl⟩ := Decoder.map_eq_ok h
    exact Ethernet.Frame.within_of_decode hframe
  · cases h
    rfl

/-- An IPv4 packet with a segment of one DATA chunk, the last two bytes of it padding. -/
def chunkFrame : Bytes := [
  0, 22, 227, 25, 39, 21, 0, 4, 118, 150, 123, 218, 8, 0,
  0x45, 0, 0, 52, 0, 1, 0, 0, 64, 132, 0, 0, 10, 0, 0, 1, 10, 0, 0, 2,
  0x0b, 0x59, 0x0b, 0x59, 0, 0, 0, 7, 0, 0, 0, 0,
  0, 3, 0, 18, 0, 0, 0, 1, 0, 2, 0, 0, 0, 0, 0, 0, 0xde, 0xad, 0, 0]

theorem decoded_within_chunkFrame :
    ∃ link, (decode .ethernet).run chunkFrame = .ok (link, []) ∧ link.data = [0xde, 0xad] ∧
      link.Within chunkFrame.length := by
  obtain ⟨link, hdecode, hdata⟩ : ∃ link, (decode .ethernet).run chunkFrame = .ok (link, []) ∧
    link.data = [0xde, 0xad] := ⟨_, rfl, rfl⟩
  exact ⟨link, hdecode, hdata, decoded_within hdecode⟩

/-- Four bytes behind the header of a frame that declares forty-six. -/
def cutLlcFrame : Bytes := [
  0, 22, 227, 25, 39, 21, 0, 4, 118, 150, 123, 218, 0, 46, 0xaa, 0xaa, 3, 0]

/-- Four bytes behind the header of a packet that declares twelve. -/
def cutV6Frame : Bytes := [
  0, 22, 227, 25, 39, 21, 0, 4, 118, 150, 123, 218, 0x86, 0xdd,
  0x60, 0, 0, 0, 0, 12, 59, 1, 0xfe, 0x80, 0, 0, 0, 0, 0, 0, 0, 0, 0, 0, 0, 0, 0, 1,
  0xff, 2, 0, 0, 0, 0, 0, 0, 0, 0, 0, 0, 0, 0, 0, 12, 1, 2, 3, 4]

theorem decode_of_overrun :
    (∃ frame, (decode .ethernet).run cutLlcFrame = .ok (.ethernet frame, []) ∧
      cutLlcFrame.length - frame.headerSize < frame.lengthOrType.lengthValue.toNat) ∧
    ∃ frame packet, (decode .ethernet).run cutV6Frame = .ok (.ethernet frame, []) ∧
      frame.payload = .ipv6 packet ∧
      cutV6Frame.length - frame.headerSize - Ip.V6Header.size <
        packet.header.payloadLength.toNat :=
  ⟨⟨_, rfl, by decide⟩, ⟨_, _, rfl, rfl, by decide⟩⟩

end LinkLayer
end PacketCapture
