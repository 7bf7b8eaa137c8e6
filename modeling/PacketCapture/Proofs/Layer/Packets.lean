import PacketCapture.Proofs.Layer.Taken

/-! # Packets and what they carry

A packet is a header and the bytes it leaves to the transport layer. The header of version 4 says how
many these are, and bytes behind them are left over; behind the header of version 6 all bytes are.
What comes of them is up to the protocol alone, so that both versions carry the same.
-/
namespace PacketCapture.Ip
open Decoder

namespace V4Header

/-- The ways to write a header, one for each value of the bit that no field takes up. -/
inductive Encodes (header : V4Header) : Bytes → Prop
  | words {versionAndIhl dscpAndEcn : UInt8} {flagsAndOffset : UInt16} :
      header.Unpacks versionAndIhl dscpAndEcn flagsAndOffset →
      header.options.length = header.length - fixedSize →
      Encodes header (header.encodeFields versionAndIhl dscpAndEcn flagsAndOffset ++ header.options)

variable {header : V4Header} {bytes front rest : Bytes}

theorem Encodes.length_eq (h : header.Encodes front) :
    front.length = fixedSize + header.options.length := by
  obtain ⟨_, _⟩ := h
  rw [List.length_append, length_encodeFields]

theorem Encodes.length_options (h : header.Encodes front) :
    header.options.length = header.length - fixedSize := by
  obtain ⟨_, hoptions⟩ := h
  exact hoptions

theorem Encodes.reads (h : header.Encodes front) : decode.Reads front header := by
  obtain @⟨versionAndIhl, dscpAndEcn, flagsAndOffset, hunpacks, hoptions⟩ := h
  obtain ⟨ihl, dscp, ecn, totalLength, id, dontFragment, moreFragments, fragmentOffset, ttl, protocol,
    checksum, source, destination, options⟩ := header
  obtain ⟨hversion, hihl, hdscp, hecn, hdont, hmore, hoffset⟩ := hunpacks
  simp only at hihl hdscp hecn hdont hmore hoffset
  subst hihl hdscp hecn hdont hmore hoffset
  simp only [encodeFields, List.cons_append, List.append_assoc]
  refine (reads_byte versionAndIhl).bind ?_
  refine (reads_byte dscpAndEcn).bind ?_
  refine (reads_bytes16 _ totalLength).bind ?_
  refine (reads_bytes16 _ id).bind ?_
  refine (reads_bytes16 _ flagsAndOffset).bind ?_
  refine (reads_byte ttl).bind ?_
  refine (reads_byte protocol.code).bind ?_
  refine (reads_bytes16 _ checksum).bind ?_
  refine (reads_octets source).bind ?_
  refine (reads_octets destination).bind ?_
  rw [if_neg (not_not_intro hversion)]
  exact (reads_take hoptions).bind_pure

theorem encodes_of_decode (h : decode.run bytes = .ok (header, rest)) :
    ∃ front, header.Encodes front ∧ bytes = front ++ rest := by
  obtain ⟨versionAndIhl, dscpAndEcn, flagsAndOffset, rfl, hunpacks, hoptions⟩ := decode_eq_ok h
  exact ⟨_, .words hunpacks hoptions, (List.append_assoc ..).symm⟩

end V4Header

namespace V6Header

inductive Encodes (header : V6Header) : Bytes → Prop
  | word {versionClassAndLabel : UInt32} : header.Unpacks versionClassAndLabel →
      Encodes header (header.encodeFields versionClassAndLabel)

variable {header : V6Header} {bytes front rest : Bytes}

theorem Encodes.length_eq (h : header.Encodes front) : front.length = size := by
  obtain ⟨_⟩ := h
  exact length_encodeFields _ header

theorem Encodes.reads (h : header.Encodes front) : decode.Reads front header := by
  obtain @⟨versionClassAndLabel, hunpacks⟩ := h
  obtain ⟨trafficClass, flowLabel, payloadLength, nextHeader, hopLimit, source, destination⟩ := header
  obtain ⟨hversion, htraffic, hlabel⟩ := hunpacks
  simp only at htraffic hlabel
  subst htraffic hlabel
  simp only [encodeFields]
  rw [← List.append_nil destination.val]
  refine (reads_bytes32 _ versionClassAndLabel).bind ?_
  refine (reads_bytes16 _ payloadLength).bind ?_
  refine (reads_byte nextHeader.code).bind ?_
  refine (reads_byte hopLimit).bind ?_
  refine (reads_octets source).bind ?_
  refine (reads_octets destination).bind ?_
  rw [if_neg (not_not_intro hversion)]
  exact reads_pure _

theorem encodes_of_decode (h : decode.run bytes = .ok (header, rest)) :
    ∃ front, header.Encodes front ∧ bytes = front ++ rest := by
  obtain ⟨versionClassAndLabel, rfl, hunpacks⟩ := decode_eq_ok h
  exact ⟨_, .word hunpacks, rfl⟩

end V6Header

/-- A packet whose total length is that of header and payload decodes as its payload does, and leaves
just what is behind that. -/
theorem V4Packet.run_decode_of_encodes {header : V4Header} {front payload : Bytes}
    (hfront : header.Encodes front)
    (htotal : header.totalLength.toNat = header.length + payload.length) (padding : Bytes) :
    decode.run (front ++ (payload ++ padding)) =
      ((TransportLayer.decode header.protocol).run payload).map fun found =>
        (⟨header, found.1⟩, padding) := by
  have hlong : ¬ header.totalLength.toNat < header.length := by omega
  have hsize : payload.length = header.totalLength.toNat - header.length := by omega
  rw [decode, hfront.reads.run_bind]
  simp only [if_neg hlong]
  cases hrun : (TransportLayer.decode header.protocol).run payload with
  | error error => exact run_bind_of_error (run_within_of_error hsize hrun padding)
  | ok found => exact (reads_within hsize hrun).bind_pure padding

theorem V6Packet.run_decode_of_encodes {header : V6Header} {front : Bytes}
    (hfront : header.Encodes front) (payload : Bytes) :
    decode.run (front ++ payload) =
      ((TransportLayer.decode header.nextHeader).run payload).map fun found =>
        (⟨header, found.1⟩, found.2) := by
  rw [decode, hfront.reads.run_bind]
  cases hrun : (TransportLayer.decode header.nextHeader).run payload with
  | error error => exact run_bind_of_error hrun
  | ok found => exact run_bind_of_ok hrun

/-- A payload is the same to a packet of either version, be it decoded or refused. Padding behind the
packet of version 4 is left over, whatever it is; version 6 declares a length that bounds nothing. -/
theorem decode_same_payload {header₄ : V4Header} {header₆ : V6Header} {front₄ front₆ : Bytes}
    (payload padding : Bytes) (hfront₄ : header₄.Encodes front₄)
    (htotal : header₄.totalLength.toNat = header₄.ihl.toNat * 4 + payload.length)
    (hfront₆ : header₆.Encodes front₆) (hprotocol : header₆.nextHeader = header₄.protocol) :
    (∃ transport rest,
      V4Packet.decode.run (front₄ ++ (payload ++ padding)) = .ok (⟨header₄, transport⟩, padding) ∧
      V6Packet.decode.run (front₆ ++ payload) = .ok (⟨header₆, transport⟩, rest)) ∨
    ∃ error, V4Packet.decode.run (front₄ ++ (payload ++ padding)) = .error error ∧
      V6Packet.decode.run (front₆ ++ payload) = .error error := by
  rw [V4Packet.run_decode_of_encodes hfront₄ htotal, V6Packet.run_decode_of_encodes hfront₆,
    hprotocol]
  cases (TransportLayer.decode header₄.protocol).run payload with
  | error error => exact .inr ⟨error, rfl, rfl⟩
  | ok found => exact .inl ⟨found.1, found.2, rfl, rfl⟩

def optionHeader : V4Header where
  ihl := 6
  dscp := 0
  ecn := 0
  totalLength := 36
  id := 1
  dontFragment := false
  moreFragments := false
  fragmentOffset := 0
  ttl := 64
  protocol := .udp
  checksum := 0
  source := ⟨[10, 0, 0, 7], rfl⟩
  destination := ⟨[10, 0, 0, 2], rfl⟩
  options := [1, 1, 1, 0]

def emptyHeader : V6Header where
  trafficClass := 0
  flowLabel := 0
  payloadLength := 0
  nextHeader := .udp
  hopLimit := 1
  source := ⟨[0xfe, 0x80, 0, 0, 0, 0, 0, 0, 0, 0, 0, 0, 0, 0, 0, 1], rfl⟩
  destination := ⟨[0xff, 2, 0, 0, 0, 0, 0, 0, 0, 0, 0, 0, 0, 0, 0, 0x0c], rfl⟩

theorem encodes_optionHeader :
    optionHeader.Encodes (optionHeader.encodeFields 0x46 0 0 ++ optionHeader.options) :=
  .words ⟨by decide, by decide, by decide, by decide, by decide, by decide, by decide⟩ rfl

theorem encodes_emptyHeader : emptyHeader.Encodes (emptyHeader.encodeFields 0x60000000) :=
  .word ⟨by decide, by decide, by decide⟩

def datagramBytes : Bytes := [0, 53, 0, 53, 0, 12, 0, 0, 0xde, 0xad, 0xbe, 0xef]

theorem decode_same_payload_datagram : ∃ front₄ front₆ transport,
    optionHeader.Encodes front₄ ∧ emptyHeader.Encodes front₆ ∧
    optionHeader.totalLength.toNat = optionHeader.ihl.toNat * 4 + datagramBytes.length ∧
    V4Packet.decode.run (front₄ ++ (datagramBytes ++ [0, 0])) =
      .ok (⟨optionHeader, transport⟩, [0, 0]) ∧
    V6Packet.decode.run (front₆ ++ datagramBytes) = .ok (⟨emptyHeader, transport⟩, []) ∧
    transport.data = [0xde, 0xad, 0xbe, 0xef] := by
  have htotal : optionHeader.totalLength.toNat =
    optionHeader.ihl.toNat * 4 + datagramBytes.length := by decide
  obtain ⟨transport, hrun, hdata⟩ : ∃ transport,
      V6Packet.decode.run (emptyHeader.encodeFields 0x60000000 ++ datagramBytes) =
        .ok (⟨emptyHeader, transport⟩, []) ∧ transport.data = [0xde, 0xad, 0xbe, 0xef] :=
    ⟨_, rfl, rfl⟩
  have hsame := decode_same_payload datagramBytes [0, 0] encodes_optionHeader htotal
    encodes_emptyHeader rfl
  rw [hrun] at hsame
  rcases hsame with ⟨_, _, hrun₄, hrun₆⟩ | ⟨_, _, hrun₆⟩
  · cases hrun₆
    exact ⟨_, _, transport, encodes_optionHeader, encodes_emptyHeader, htotal, hrun₄, hrun, hdata⟩
  · cases hrun₆

namespace V4Packet
variable {packet : V4Packet} {bytes rest : Bytes}

/-- The bytes left to the transport layer: behind header and options, as many as the total length
adds to the declared length of these. -/
def carried (packet : V4Packet) (bytes : Bytes) : Bytes :=
  (bytes.drop (V4Header.fixedSize + packet.header.options.length)).take
    (packet.header.totalLength.toNat - packet.header.length)

theorem carried_of_decode (h : decode.run bytes = .ok (packet, rest)) :
    ∃ front left, packet.header.Encodes front ∧ bytes = front ++ (packet.carried bytes ++ rest) ∧
      packet.header.totalLength.toNat = packet.header.length + (packet.carried bytes).length ∧
      (TransportLayer.decode packet.header.protocol).run (packet.carried bytes) =
        .ok (packet.payload, left) := by
  obtain ⟨_, stretch, left, hheader, hlong, rfl, hlen, hpayload⟩ := decode_eq_ok h
  obtain ⟨front, hfront, rfl⟩ := V4Header.encodes_of_decode hheader
  have hcarried : packet.carried (front ++ (stretch ++ rest)) = stretch := by
    rw [carried, ← hfront.length_eq, List.drop_left, ← hlen, List.take_left]
  rw [hcarried]
  exact ⟨front, left, hfront, rfl, by omega, hpayload⟩

/-- The packet is as long as its total length: its header is as long as declared, its payload is what
is behind that up to the total length, and the rest is left over. -/
structure Fills (packet : V4Packet) (bytes rest : Bytes) : Prop where
  header : packet.header.length = V4Header.fixedSize + packet.header.options.length
  payload : ∃ left, (TransportLayer.decode packet.header.protocol).run
    ((bytes.take packet.header.totalLength.toNat).drop packet.header.length) =
      .ok (packet.payload, left)
  consumed : bytes.length = packet.header.totalLength.toNat + rest.length
  rest : rest = bytes.drop packet.header.totalLength.toNat

theorem fills_of_decode (h : decode.run bytes = .ok (packet, rest))
    (hheader : packet.header.length = V4Header.fixedSize + packet.header.options.length) :
    packet.Fills bytes rest := by
  obtain ⟨front, left, hfront, hbytes, htotal, hpayload⟩ := carried_of_decode h
  have hfrontLen := hfront.length_eq
  have hconsumed : packet.header.totalLength.toNat =
      (front ++ packet.carried bytes).length := by
    rw [List.length_append]
    omega
  rw [← List.append_assoc] at hbytes
  constructor
  · exact hheader
  · refine ⟨left, ?_⟩
    rw [List.drop_take, hheader]
    rw [carried, hheader] at hpayload
    exact hpayload
  · rw [hconsumed, ← List.length_append, ← hbytes]
  · have hrest := congrArg (List.drop (front ++ packet.carried bytes).length) hbytes
    rw [List.drop_left] at hrest
    rw [hconsumed]
    exact hrest.symm

/-- A packet is as long as its total length just if it declares a header of five words or more. The
fixed header is taken in any case, so that below five the payload reaches beyond the total length by
as much as the declared header falls short of the fixed one. -/
theorem fills_iff_five_le_ihl (h : decode.run bytes = .ok (packet, rest)) :
    (packet.Fills bytes rest ↔ 5 ≤ packet.header.ihl.toNat) ∧
      bytes.length = packet.header.totalLength.toNat +
        (V4Header.fixedSize - packet.header.length) + rest.length := by
  obtain ⟨front, _, hfront, hbytes, htotal, _⟩ := carried_of_decode h
  have hlen := congrArg List.length hbytes
  have hfrontLen := hfront.length_eq
  have hoptions := hfront.length_options
  rw [List.length_append, List.length_append] at hlen
  have hlength : packet.header.length = packet.header.ihl.toNat * 4 := rfl
  have hfixed : V4Header.fixedSize = 20 := rfl
  refine ⟨⟨?_, ?_⟩, ?_⟩
  · intro hfills
    have hheader := hfills.header
    omega
  · intro hihl
    apply fills_of_decode h
    omega
  · omega

def optionPacket : Bytes := [
  0x46, 0, 0, 36, 0, 1, 0, 0, 64, 17, 0, 0, 10, 0, 0, 7, 10, 0, 0, 2, 1, 1, 1, 0] ++
    (datagramBytes ++ [0, 0])

theorem fills_iff_five_le_ihl_optionPacket :
    ∃ packet, decode.run optionPacket = .ok (packet, [0, 0]) ∧ packet.header = optionHeader ∧
      packet.Fills optionPacket [0, 0] := by
  obtain ⟨packet, hrun, hheader⟩ : ∃ packet, decode.run optionPacket = .ok (packet, [0, 0]) ∧
    packet.header = optionHeader := ⟨_, rfl, rfl⟩
  refine ⟨packet, hrun, hheader, (fills_iff_five_le_ihl hrun).1.mpr ?_⟩
  rw [hheader]
  decide

/-- Four bytes of payload and four of padding, behind a header that declares four words only. -/
def shortHeaderPacket : Bytes := [
  0x44, 0, 0, 24, 0, 1, 0, 0, 64, 0x59, 0, 0, 10, 0, 0, 1, 10, 0, 0, 2,
  0x61, 0x62, 0x63, 0x64, 0, 0, 0, 0]

theorem decode_shortHeaderPacket : ∃ packet, decode.run shortHeaderPacket = .ok (packet, []) ∧
    packet.payload = .unknown [0x61, 0x62, 0x63, 0x64, 0, 0, 0, 0] ∧
    shortHeaderPacket.length = packet.header.totalLength.toNat + 4 ∧
    ¬ packet.Fills shortHeaderPacket [] :=
  ⟨_, rfl, rfl, rfl, fun hfills => absurd hfills.header (by decide)⟩

end V4Packet

end PacketCapture.Ip
