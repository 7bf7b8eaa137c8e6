import PacketCapture.Proofs.Layer.Lengths
import PacketCapture.Proofs.Layer.Packets
import PacketCapture.Proofs.Layer.Refusals
import PacketCapture.Proofs.Sctp.UserData

/-! # Application data of frames

The data at the bottom of the layers are bytes of the frame, in order: one stretch of them, or one for
each DATA chunk of a segment. A layer that is not decoded any further is the bytes left to it as they
are.
-/
namespace PacketCapture
open Decoder

namespace TransportLayer
variable {bytes rest : Bytes} {layer : TransportLayer} {protocol : IpProtocol}

/-- The data are one stretch of the bytes; those of an SCTP segment are one for each DATA chunk. -/
def DataIn (bytes : Bytes) (layer : TransportLayer) : Prop :=
  match layer with
  | .sctp segment => ∃ spans, Sctp.Chunk.AllDataAt bytes segment.chunks spans ∧
      layer.data = spans.flatMap fun span => span.cut bytes
  | _ => layer.data <:+: bytes

theorem DataIn.mono {more : Bytes} (h : layer.DataIn bytes) (hmore : bytes <:+: more) :
    layer.DataIn more := by
  cases layer with
  | tcp _ | udp _ | unknown _ => exact List.IsInfix.trans h hmore
  | sctp segment =>
    obtain ⟨before, after, rfl⟩ := hmore
    obtain ⟨spans, hspans, _⟩ := h
    have hshift := hspans.shift before after
    rw [← List.append_assoc] at hshift
    exact ⟨_, hshift, hshift.flatMap_cut⟩

theorem dataIn_of_decode (h : (decode protocol).run bytes = .ok (layer, rest)) :
    layer.DataIn bytes := by
  unfold decode at h
  split at h
  · obtain ⟨segment, hsegment, rfl⟩ := map_eq_ok h
    obtain ⟨_, rfl, _⟩ := Tcp.Segment.decode_eq_ok hsegment
    rw [← List.append_assoc]
    exact (List.suffix_append ..).isInfix
  · obtain ⟨datagram, hdatagram, rfl⟩ := map_eq_ok h
    obtain ⟨rfl, _⟩ := Udp.Datagram.decode_eq_ok hdatagram
    simp only [Udp.Datagram.encode, ← List.append_assoc]
    exact ⟨_, rest, rfl⟩
  · obtain ⟨segment, hsegment, rfl⟩ := map_eq_ok h
    obtain ⟨spans, hspans⟩ := Sctp.Segment.allDataAt_of_decode hsegment
    exact ⟨spans, hspans, hspans.flatMap_cut⟩
  · cases h
    exact List.infix_rfl

theorem decode_of_other (htcp : protocol ≠ .tcp) (hudp : protocol ≠ .udp)
    (hsctp : protocol ≠ .sctp) : decode protocol = .unknown <$> .rest := by
  unfold decode
  split
  · exact absurd rfl htcp
  · exact absurd rfl hudp
  · exact absurd rfl hsctp
  · rfl

theorem data_of_other (htcp : protocol ≠ .tcp) (hudp : protocol ≠ .udp) (hsctp : protocol ≠ .sctp)
    (h : (decode protocol).run bytes = .ok (layer, rest)) : layer.data = bytes := by
  rw [decode_of_other htcp hudp hsctp] at h
  obtain ⟨raw, hrest, rfl⟩ := map_eq_ok h
  cases hrest
  rfl

end TransportLayer

namespace InternetLayer
variable {bytes rest : Bytes} {layer : InternetLayer} {type : EtherType}

/-- The protocol of the packet and the bytes left to the transport layer. -/
def carried? (bytes : Bytes) : InternetLayer → Option (IpProtocol × Bytes)
  | .ipv4 packet => some (packet.header.protocol, packet.carried bytes)
  | .ipv6 packet => some (packet.header.nextHeader, bytes.drop Ip.V6Header.size)
  | .unknown _ => none

theorem carried_of_decode (h : (decode type).run bytes = .ok (layer, rest)) :
    layer = .unknown bytes ∨ ∃ protocol carried left,
      layer.carried? bytes = some (protocol, carried) ∧ carried <:+: bytes ∧
        (TransportLayer.decode protocol).run carried = .ok (layer.transport, left) := by
  unfold decode at h
  split at h
  · obtain ⟨packet, hpacket, rfl⟩ := map_eq_ok h
    obtain ⟨front, left, _, hbytes, _, hpayload⟩ := Ip.V4Packet.carried_of_decode hpacket
    rw [← List.append_assoc] at hbytes
    exact .inr ⟨_, _, left, rfl, ⟨front, rest, hbytes.symm⟩, hpayload⟩
  · obtain ⟨packet, hpacket, rfl⟩ := map_eq_ok h
    obtain ⟨more, hheader, hpayload⟩ := Ip.V6Packet.decode_eq_ok hpacket
    obtain ⟨front, hfront, rfl⟩ := Ip.V6Header.encodes_of_decode hheader
    refine .inr ⟨_, more, rest, ?_, (List.suffix_append front more).isInfix, hpayload⟩
    rw [carried?, ← hfront.length_eq, List.drop_left]
  · cases h
    exact .inl rfl

theorem transport_of_carried {protocol : IpProtocol} {carried : Bytes}
    (h : (decode type).run bytes = .ok (layer, rest))
    (hcarried : layer.carried? bytes = some (protocol, carried)) :
    ∃ left, (TransportLayer.decode protocol).run carried = .ok (layer.transport, left) := by
  rcases carried_of_decode h with rfl | ⟨_, _, left, hfound, _, htransport⟩
  · cases hcarried
  · rw [hcarried] at hfound
    cases hfound
    exact ⟨left, htransport⟩

theorem dataIn_of_decode (h : (decode type).run bytes = .ok (layer, rest)) :
    layer.transport.DataIn bytes := by
  rcases carried_of_decode h with rfl | ⟨_, _, _, _, hstretch, hpayload⟩
  · exact List.infix_rfl
  · exact (TransportLayer.dataIn_of_decode hpayload).mono hstretch

theorem decode_of_other (hfour : type ≠ .ipv4) (hsix : type ≠ .ipv6) :
    decode type = .unknown <$> .rest := by
  unfold decode
  split
  · exact absurd rfl hfour
  · exact absurd rfl hsix
  · rfl

end InternetLayer

namespace Ethernet.Frame

def encodeHeader (destination source : Octets 6) (vlanTag : Option VlanTag) (word : UInt16) :
    Bytes :=
  destination.val ++ (source.val ++
    (VlanTag.encode vlanTag ++ ByteOrder.bigEndian.bytes16 word))

theorem run_decode_of_encodeHeader (destination source : Octets 6) {vlanTag : Option VlanTag}
    {word : UInt16} (h : vlanTag = none → word ≠ vlanTpid) (payload : Bytes) :
    decode.run (encodeHeader destination source vlanTag word ++ payload) =
      ((InternetLayer.decode (LengthOrType.ofWord word).typeValue).run payload).map fun found =>
        (⟨destination, source, vlanTag, .ofWord word, found.1⟩, found.2) := by
  have hword := reads_decodeTagAndWord h payload
  simp only [encodeHeader, List.append_assoc] at hword ⊢
  rw [decode, (reads_octets destination).run_bind, (reads_octets source).run_bind,
    run_bind_of_ok hword]
  cases hrun : (InternetLayer.decode (LengthOrType.ofWord word).typeValue).run payload with
  | error error => exact run_bind_of_error hrun
  | ok found => exact run_bind_of_ok hrun

theorem length_encodeHeader (destination source : Octets 6) (vlanTag : Option VlanTag)
    (word : UInt16) : (encodeHeader destination source vlanTag word).length =
      14 + (VlanTag.encode vlanTag).length := by
  simp only [encodeHeader, List.length_append, ByteOrder.length_bytes16, destination.property,
    source.property]
  omega

theorem header_of_decode {frame : Frame} {bytes rest : Bytes}
    (h : decode.run bytes = .ok (frame, rest)) : ∃ word more,
      bytes = encodeHeader frame.destination frame.source frame.vlanTag word ++ more ∧
      frame.lengthOrType = .ofWord word ∧
      (InternetLayer.decode frame.lengthOrType.typeValue).run more = .ok (frame.payload, rest) := by
  obtain ⟨word, more, hbytes, hword, _, hpayload⟩ := decode_eq_ok h
  refine ⟨word, more, ?_, hword, hpayload⟩
  simpa only [encodeHeader, List.append_assoc] using hbytes

theorem payload_of_decode {frame : Frame} {bytes rest : Bytes}
    (h : decode.run bytes = .ok (frame, rest)) :
    (InternetLayer.decode frame.lengthOrType.typeValue).run (bytes.drop frame.headerSize) =
      .ok (frame.payload, rest) := by
  obtain ⟨word, more, rfl, _, hpayload⟩ := header_of_decode h
  rw [headerSize, ← length_encodeHeader _ frame.source _ word, List.drop_left]
  exact hpayload

end Ethernet.Frame

namespace LinkLayer
variable {bytes rest : Bytes} {linkType : LinkType}

theorem frame_of_decode {frame : Ethernet.Frame}
    (h : (decode linkType).run bytes = .ok (.ethernet frame, rest)) :
    Ethernet.Frame.decode.run bytes = .ok (frame, rest) := by
  unfold decode at h
  split at h
  · obtain ⟨_, hframe, hlink⟩ := map_eq_ok h
    cases hlink
    exact hframe
  · cases h

theorem dataIn_of_decode {link : LinkLayer}
    (h : (decode linkType).run bytes = .ok (link, rest)) :
    link.internet.transport.DataIn bytes := by
  unfold decode at h
  split at h
  · obtain ⟨frame, hframe, rfl⟩ := map_eq_ok h
    exact (InternetLayer.dataIn_of_decode (Ethernet.Frame.payload_of_decode hframe)).mono
      (List.drop_suffix ..).isInfix
  · cases h
    exact List.infix_rfl

theorem decode_of_other (h : linkType ≠ .ethernet) : decode linkType = .unknown <$> .rest := by
  unfold decode
  split
  · exact absurd rfl h
  · rfl

/-- The data of a decoded frame are bytes of it, in order. Where a layer is of no type that is decoded
any further, be it the frame, its payload or that of a packet, all the bytes of that layer are data,
and it is never refused. -/
theorem data_of_frame (linkType : LinkType) (bytes : Bytes) :
    (∀ link rest, (decode linkType).run bytes = .ok (link, rest) →
      link.internet.transport.DataIn bytes) ∧
    (linkType ≠ .ethernet → ∃ link, (decode linkType).run bytes = .ok (link, []) ∧
      link.data = bytes) ∧
    (∀ destination source vlanTag word payload, linkType = .ethernet →
      bytes = Ethernet.Frame.encodeHeader destination source vlanTag word ++ payload →
      (vlanTag = none → word ≠ Ethernet.vlanTpid) →
      (Ethernet.LengthOrType.ofWord word).typeValue ≠ .ipv4 →
      (Ethernet.LengthOrType.ofWord word).typeValue ≠ .ipv6 →
      ∃ link, (decode linkType).run bytes = .ok (link, []) ∧ link.data = payload) ∧
    ∀ frame rest protocol carried, (decode linkType).run bytes = .ok (.ethernet frame, rest) →
      frame.payload.carried? (bytes.drop frame.headerSize) = some (protocol, carried) →
      (∃ left, (TransportLayer.decode protocol).run carried =
        .ok (frame.payload.transport, left)) ∧
      (protocol ≠ .tcp → protocol ≠ .udp → protocol ≠ .sctp →
        (ethernet frame).data = carried) := by
  refine ⟨?_, ?_, ?_, ?_⟩
  · intro link rest h
    exact dataIn_of_decode h
  · intro hother
    rw [decode_of_other hother]
    exact ⟨.unknown bytes, rfl, rfl⟩
  · rintro destination source vlanTag word payload rfl rfl huntagged hfour hsix
    have hrun := Ethernet.Frame.run_decode_of_encodeHeader destination source huntagged payload
    rw [InternetLayer.decode_of_other hfour hsix] at hrun
    exact ⟨_, run_map_of_ok hrun _, rfl⟩
  · intro frame rest protocol carried h hcarried
    have hpayload := Ethernet.Frame.payload_of_decode (frame_of_decode h)
    obtain ⟨left, htransport⟩ := InternetLayer.transport_of_carried hpayload hcarried
    refine ⟨⟨left, htransport⟩, ?_⟩
    intro htcp hudp hsctp
    exact TransportLayer.data_of_other htcp hudp hsctp htransport

/-- A segment of two DATA chunks that end in padding, with a COOKIE ACK between them. -/
def twoDataFrame : Bytes := [
  0, 22, 227, 25, 39, 21, 0, 4, 118, 150, 123, 218, 8, 0,
  0x45, 0, 0, 76, 0, 1, 0, 0, 64, 132, 0, 0, 10, 0, 0, 1, 10, 0, 0, 2,
  0x0b, 0x59, 0x0b, 0x59, 0, 0, 0, 7, 0, 0, 0, 0,
  0, 3, 0, 18, 0, 0, 0, 1, 0, 2, 0, 0, 0, 0, 0, 0, 0xde, 0xad, 0, 0,
  11, 0, 0, 4,
  0, 3, 0, 17, 0, 0, 0, 2, 0, 2, 0, 1, 0, 0, 0, 0, 0xbe, 0, 0, 0]

theorem data_of_frame_twoDataFrame :
    (∃ link, (decode .ethernet).run twoDataFrame = .ok (link, []) ∧
      link.data = [0xde, 0xad, 0xbe] ∧ link.internet.transport.DataIn twoDataFrame) ∧
    (∃ link, (decode ⟨0⟩).run twoDataFrame = .ok (link, []) ∧ link.data = twoDataFrame) ∧
    (∃ link, (decode .ethernet).run cutLlcFrame = .ok (link, []) ∧
      link.data = [0xaa, 0xaa, 3, 0]) ∧
    ∃ frame, (decode .ethernet).run cutV6Frame = .ok (.ethernet frame, []) ∧
      (ethernet frame).data = [1, 2, 3, 4] := by
  obtain ⟨link, hrun, hdata⟩ : ∃ link, (decode .ethernet).run twoDataFrame = .ok (link, []) ∧
    link.data = [0xde, 0xad, 0xbe] := ⟨_, rfl, rfl⟩
  obtain ⟨frame, hframe, hcarried⟩ : ∃ frame,
    (decode .ethernet).run cutV6Frame = .ok (.ethernet frame, []) ∧
      frame.payload.carried? (cutV6Frame.drop frame.headerSize) =
        some (⟨59⟩, [1, 2, 3, 4]) := ⟨_, rfl, rfl⟩
  have hall := data_of_frame .ethernet
  refine ⟨⟨link, hrun, hdata, (hall _).1 link [] hrun⟩, ?_, ?_, frame, hframe, ?_⟩
  · exact (data_of_frame ⟨0⟩ twoDataFrame).2.1 (by decide)
  · exact (hall cutLlcFrame).2.2.1 ⟨[0, 22, 227, 25, 39, 21], rfl⟩ ⟨[0, 4, 118, 150, 123, 218], rfl⟩
      none 46 [0xaa, 0xaa, 3, 0] rfl rfl (by decide) (by decide) (by decide)
  · exact ((hall cutV6Frame).2.2.2 frame [] ⟨59⟩ _ hframe hcarried).2 (by decide) (by decide)
      (by decide)

end LinkLayer
end PacketCapture
