import PacketCapture.Proofs.Layer.Taken
import PacketCapture.Proofs.Sctp.Refusals

/-! # Mismatched frames

From the link layer down, a frame is refused for want of bytes or because a layer is not of the kind
that the layer above announces. Only the version of an IP header and the parameter of an SCTP
heartbeat are judged; a layer of any other type is kept as it is, or is cut.
-/
namespace PacketCapture
open Decoder

theorem Tcp.Segment.wants_decode : decode.Wants := by
  have hword16 := (fixed_word16 .bigEndian).wants
  have hword32 := (fixed_word32 .bigEndian).wants
  refine hword16.bind fun sourcePort => ?_
  refine hword16.bind fun destinationPort => ?_
  refine hword32.bind fun sequenceNumber => ?_
  refine hword32.bind fun ackNumber => ?_
  refine hword16.bind fun offsetAndFlags => ?_
  refine hword16.bind fun windowSize => ?_
  refine hword16.bind fun checksum => ?_
  refine hword16.bind fun urgentPointer => ?_
  have hoptions := (fixed_take ((offsetAndFlags / 0x1000).toUInt8.toNat * 4 - headerSize)).wants
  refine hoptions.bind fun options => ?_
  exact wants_rest.bind fun data => wants_pure _

theorem Udp.Datagram.wants_decode : decode.Wants := by
  have hword16 := (fixed_word16 .bigEndian).wants
  refine hword16.bind fun sourcePort => ?_
  refine hword16.bind fun destinationPort => ?_
  refine hword16.bind fun length => ?_
  refine hword16.bind fun checksum => ?_
  have hdata := (fixed_take (length.toNat - headerSize)).wants
  exact Wants.guard (hdata.bind fun data => wants_pure _)

/-- Only SCTP segments are mismatched, of all that IP packets carry. -/
def TransportLayer.Mismatched (protocol : IpProtocol) (bytes : Bytes) : Prop :=
  protocol = .sctp ∧ Sctp.Segment.Mismatched bytes

theorem TransportLayer.refuses_decode (protocol : IpProtocol) :
    (decode protocol).Refuses (Mismatched protocol) := by
  unfold decode
  split
  · exact (Tcp.Segment.wants_decode.map _).refuses.congr fun _ => by
      simp [Mismatched, IpProtocol.sctp]
  · exact (Udp.Datagram.wants_decode.map _).refuses.congr fun _ => by
      simp [Mismatched, IpProtocol.sctp]
  · exact (Sctp.Segment.refuses_decode.map _).congr fun _ => by simp [Mismatched, IpProtocol.sctp]
  · rename_i hother
    exact (wants_rest.map _).refuses.congr fun _ => ⟨False.elim, fun h => hother h.1⟩

namespace Ip

/-- The version of an IP packet, in the high half of its first byte; zero of no bytes. -/
def version (bytes : Bytes) : Nat := (bytes.headD 0).toNat / 16

theorem version_of_byte {bytes rest : Bytes} {first : UInt8}
    (h : byte.run bytes = .ok (first, rest)) : (first / 0x10).toNat = version bytes := by
  cases bytes with
  | nil => cases h
  | cons head more =>
    cases h
    rw [UInt8.toNat_div]
    rfl

theorem version_of_word32 {bytes rest : Bytes} {word : UInt32}
    (h : (word32 .bigEndian).run bytes = .ok (word, rest)) :
    (word / 0x10000000).toNat = version bytes := by
  obtain ⟨hle, _, hreads⟩ := (fixed_word32 _).eq_of_run h
  have hword := (reads_word32 .bigEndian (List.length_take_of_le hle)).run_eq
  rw [hreads.run_eq] at hword
  cases hword
  obtain ⟨a, b, c, d, more, rfl⟩ : ∃ a b c d more, bytes = a :: b :: c :: d :: more := by
    match bytes, hle with
    | a :: b :: c :: d :: more, _ => exact ⟨a, b, c, d, more, rfl⟩
  have ha := a.toNat_lt
  have hb := b.toNat_lt
  have hc := c.toNat_lt
  have hd := d.toNat_lt
  have hvalue : ByteOrder.bigEndian.value ((a :: b :: c :: d :: more).take 4) =
      256 * (256 * (256 * a.toNat + b.toNat) + c.toNat) + d.toNat := by
    simp [ByteOrder.value, Bytes.value]
  rw [UInt32.toNat_div, UInt32.toNat_ofNat', hvalue]
  change _ / 0x10000000 = a.toNat / 16
  omega

theorem V4Header.refuses_decode : decode.Refuses fun bytes =>
    fixedSize ≤ bytes.length ∧ version bytes ≠ 4 := by
  have h : decode.Refuses fun bytes => ∃ first rest, byte.run bytes = .ok (first, rest) ∧
      Behind 1 (Behind 2 (Behind 2 (Behind 2 (Behind 1 (Behind 1 (Behind 2 (Behind 4 (Behind 4
        fun _ => first / 0x10 ≠ 4)))))))) rest := by
    have hword16 := fixed_word16 .bigEndian
    have haddress := fixed_octets 4
    refine fixed_byte.wants.bind_refuses fun versionAndIhl => ?_
    refine fixed_byte.bind_refuses fun dscpAndEcn => ?_
    refine hword16.bind_refuses fun totalLength => ?_
    refine hword16.bind_refuses fun id => ?_
    refine hword16.bind_refuses fun flagsAndOffset => ?_
    refine fixed_byte.bind_refuses fun ttl => ?_
    refine fixed_byte.bind_refuses fun protocol => ?_
    refine hword16.bind_refuses fun checksum => ?_
    refine haddress.bind_refuses fun source => ?_
    refine haddress.bind_refuses fun destination => ?_
    have hoptions := (fixed_take ((versionAndIhl % 0x10).toNat * 4 - fixedSize)).wants
    exact Wants.guard_refuses (hoptions.bind fun options => wants_pure _)
  simp only [behind_behind] at h
  refine h.congr fun bytes => fixed_byte.exists_behind_iff fun first rest hrun => ?_
  rw [← version_of_byte hrun, ne_eq, ← UInt8.toNat_inj]
  rfl

theorem V6Header.refuses_decode : decode.Refuses fun bytes =>
    size ≤ bytes.length ∧ version bytes ≠ 6 := by
  have h : decode.Refuses fun bytes => ∃ first rest,
      (word32 .bigEndian).run bytes = .ok (first, rest) ∧ Behind 2 (Behind 1 (Behind 1 (Behind 16
        (Behind 16 fun _ => first / 0x10000000 ≠ 6)))) rest := by
    have hversion := (fixed_word32 .bigEndian).wants
    have haddress := fixed_octets 16
    refine hversion.bind_refuses fun versionClassAndLabel => ?_
    refine (fixed_word16 .bigEndian).bind_refuses fun payloadLength => ?_
    refine fixed_byte.bind_refuses fun nextHeader => ?_
    refine fixed_byte.bind_refuses fun hopLimit => ?_
    refine haddress.bind_refuses fun source => ?_
    refine haddress.bind_refuses fun destination => ?_
    exact Wants.guard_refuses (wants_pure _)
  simp only [behind_behind] at h
  refine h.congr fun bytes => (fixed_word32 _).exists_behind_iff fun word rest hrun => ?_
  rw [← version_of_word32 hrun, ne_eq, ← UInt32.toNat_inj]
  rfl

/-- The fixed header is complete and of another version, or the header is accepted, the total length
has room for it, and what it leaves to the payload is there and mismatched. -/
inductive V4Packet.Mismatched : Bytes → Prop
  | version {bytes : Bytes} : V4Header.fixedSize ≤ bytes.length → version bytes ≠ 4 →
      Mismatched bytes
  | payload {bytes more : Bytes} {header : V4Header} :
      V4Header.decode.run bytes = .ok (header, more) →
      header.length ≤ header.totalLength.toNat →
      header.totalLength.toNat - header.length ≤ more.length →
      TransportLayer.Mismatched header.protocol
        (more.take (header.totalLength.toNat - header.length)) → Mismatched bytes

theorem V4Packet.refuses_decode : decode.Refuses Mismatched := by
  have hpayload (header : V4Header) := (TransportLayer.refuses_decode header.protocol).within
    (header.totalLength.toNat - header.length)
  refine Refuses.congr (V4Header.refuses_decode.bind fun header =>
    Refuses.guard ((hpayload header).bind_pure _)) fun bytes => ?_
  constructor
  · rintro (⟨hsize, hversion⟩ | ⟨header, more, hheader, hlong, hmore, h⟩)
    · exact .version hsize hversion
    · exact .payload hheader (Nat.le_of_not_lt hlong) hmore h
  · rintro (⟨hsize, hversion⟩ | ⟨hheader, hlong, hmore, h⟩)
    · exact .inl ⟨hsize, hversion⟩
    · exact .inr ⟨_, _, hheader, Nat.not_lt_of_le hlong, hmore, h⟩

inductive V6Packet.Mismatched : Bytes → Prop
  | version {bytes : Bytes} : V6Header.size ≤ bytes.length → version bytes ≠ 6 → Mismatched bytes
  | payload {bytes more : Bytes} {header : V6Header} :
      V6Header.decode.run bytes = .ok (header, more) →
      TransportLayer.Mismatched header.nextHeader more → Mismatched bytes

theorem V6Packet.refuses_decode : decode.Refuses Mismatched := by
  have hpayload (header : V6Header) := TransportLayer.refuses_decode header.nextHeader
  have h := V6Header.refuses_decode.bind fun header =>
    (hpayload header).bind_pure (V6Packet.mk header)
  refine h.congr fun bytes => ?_
  constructor
  · rintro (⟨hsize, hversion⟩ | ⟨header, more, hheader, h⟩)
    · exact .version hsize hversion
    · exact .payload hheader h
  · rintro (⟨hsize, hversion⟩ | ⟨hheader, h⟩)
    · exact .inl ⟨hsize, hversion⟩
    · exact .inr ⟨_, _, hheader, h⟩

end Ip

def InternetLayer.Mismatched (type : EtherType) (bytes : Bytes) : Prop :=
  type = .ipv4 ∧ Ip.V4Packet.Mismatched bytes ∨ type = .ipv6 ∧ Ip.V6Packet.Mismatched bytes

theorem InternetLayer.refuses_decode (type : EtherType) :
    (decode type).Refuses (Mismatched type) := by
  unfold decode
  split
  · exact (Ip.V4Packet.refuses_decode.map _).congr fun _ => by
      simp [Mismatched, EtherType.ipv4, EtherType.ipv6]
  · exact (Ip.V6Packet.refuses_decode.map _).congr fun _ => by
      simp [Mismatched, EtherType.ipv4, EtherType.ipv6]
  · rename_i hfour hsix
    refine (wants_rest.map _).refuses.congr fun _ => ⟨False.elim, ?_⟩
    rintro (⟨htype, _⟩ | ⟨htype, _⟩)
    · exact hfour htype
    · exact hsix htype

namespace Ethernet.Frame

theorem reads_decodeTagAndWord {vlanTag : Option VlanTag} {word : UInt16}
    (h : vlanTag = none → word ≠ vlanTpid) :
    decodeTagAndWord.Reads (VlanTag.encode vlanTag ++ ByteOrder.bigEndian.bytes16 word)
      (vlanTag, word) := by
  intro more
  cases vlanTag with
  | none =>
    change (decodeTagAndWord).run (ByteOrder.bigEndian.bytes16 word ++ more) = _
    rw [decodeTagAndWord, (reads_bytes16 .bigEndian word).run_bind, if_neg (h rfl)]
    rfl
  | some tag =>
    change (decodeTagAndWord).run (ByteOrder.bigEndian.bytes16 vlanTpid ++
      (tag.control.val ++ ByteOrder.bigEndian.bytes16 word) ++ more) = _
    rw [decodeTagAndWord, List.append_assoc, (reads_bytes16 .bigEndian vlanTpid).run_bind,
      if_pos rfl, List.append_assoc, (reads_octets tag.control).run_bind,
      (reads_bytes16 .bigEndian word).run_bind]
    rfl

theorem wants_decodeTagAndWord : decodeTagAndWord.Wants := by
  have hword16 := (fixed_word16 .bigEndian).wants
  refine hword16.bind fun word => ?_
  split
  · refine (fixed_octets 2).wants.bind fun control => ?_
    exact hword16.bind fun word => wants_pure _
  · exact wants_pure _

/-- Behind a complete header is a mismatched payload. -/
def Mismatched (bytes : Bytes) : Prop :=
  ∃ (destination source : Octets 6) (vlanTag : Option VlanTag) (word : UInt16) (payload : Bytes),
    bytes = destination.val ++ (source.val ++
      (VlanTag.encode vlanTag ++ (ByteOrder.bigEndian.bytes16 word ++ payload))) ∧
    (vlanTag = none → word ≠ vlanTpid) ∧
    InternetLayer.Mismatched (LengthOrType.ofWord word).typeValue payload

theorem refuses_decode : decode.Refuses Mismatched := by
  have haddress := (fixed_octets 6).wants
  have hpayload (word : UInt16) := InternetLayer.refuses_decode (LengthOrType.ofWord word).typeValue
  have h := haddress.bind_refuses fun destination => haddress.bind_refuses fun source =>
    wants_decodeTagAndWord.bind_refuses fun found => (hpayload found.2).bind_pure
      fun payload => Frame.mk destination source found.1 (.ofWord found.2) payload
  refine h.congr fun bytes => ?_
  constructor
  · rintro ⟨destination, _, hdestination, source, _, hsource, ⟨vlanTag, word⟩, payload, hword,
      hpayload⟩
    obtain rfl := octets_eq_ok hdestination
    obtain rfl := octets_eq_ok hsource
    obtain ⟨rfl, huntagged⟩ := decodeTagAndWord_eq_ok hword
    exact ⟨destination, source, vlanTag, word, payload, rfl, huntagged, hpayload⟩
  · rintro ⟨destination, source, vlanTag, word, payload, rfl, huntagged, hpayload⟩
    have hword := reads_decodeTagAndWord huntagged payload
    rw [List.append_assoc] at hword
    exact ⟨destination, _, reads_octets destination _, source, _, reads_octets source _, _, payload,
      hword, hpayload⟩

end Ethernet.Frame

def LinkLayer.Mismatched (linkType : LinkType) (bytes : Bytes) : Prop :=
  linkType = .ethernet ∧ Ethernet.Frame.Mismatched bytes

theorem LinkLayer.refuses_decode (linkType : LinkType) :
    (decode linkType).Refuses (Mismatched linkType) := by
  unfold decode
  split
  · exact (Ethernet.Frame.refuses_decode.map _).congr fun _ => by
      simp [Mismatched, LinkType.ethernet]
  · rename_i hother
    exact (wants_rest.map _).refuses.congr fun _ => ⟨False.elim, fun h => hother h.1⟩

/-- A frame of any link type is decoded, or refused for want of bytes or for a mismatch, the latter
just where a version or a heartbeat does not match, in a layer that all the layers above announce
and leave room for. -/
theorem LinkLayer.decode_eq_typeMismatch_iff (linkType : LinkType) (bytes : Bytes) :
    ((∃ link rest, (decode linkType).run bytes = .ok (link, rest)) ∨
      (decode linkType).run bytes = .error .insufficientLength ∨
      (decode linkType).run bytes = .error .typeMismatch) ∧
    ((decode linkType).run bytes = .error .typeMismatch ↔ Mismatched linkType bytes) := by
  have hrefuses := refuses_decode linkType
  refine ⟨?_, hrefuses.iff bytes⟩
  cases hrun : (decode linkType).run bytes with
  | ok found => exact .inl ⟨found.1, found.2, rfl⟩
  | error error =>
    rcases hrefuses.kinds bytes error hrun with rfl | rfl
    · exact .inr (.inl rfl)
    · exact .inr (.inr rfl)

/-- An IPv4 packet with a segment of a COOKIE ACK and a HEARTBEAT, whose parameter is of type 2. -/
def heartbeatFrame : Bytes := [
  0, 22, 227, 25, 39, 21, 0, 4, 118, 150, 123, 218, 8, 0,
  0x45, 0, 0, 44, 0, 1, 0, 0, 64, 132, 0, 0, 10, 0, 0, 1, 10, 0, 0, 2,
  0x0b, 0x59, 0x0b, 0x59, 0, 0, 0, 7, 0, 0, 0, 0,
  11, 0, 0, 4, 4, 0, 0, 8, 0, 2, 0, 4]

theorem LinkLayer.decode_eq_typeMismatch_iff_heartbeatFrame :
    (decode .ethernet).run heartbeatFrame = .error .typeMismatch ∧
      Mismatched .ethernet heartbeatFrame ∧
      ¬ Mismatched .ethernet (heartbeatFrame.take 57) := by
  have hrun : (decode .ethernet).run heartbeatFrame = .error .typeMismatch := rfl
  have hcut : (decode .ethernet).run (heartbeatFrame.take 57) = .error .insufficientLength := rfl
  obtain ⟨_, hiff⟩ := decode_eq_typeMismatch_iff .ethernet heartbeatFrame
  obtain ⟨_, hiffCut⟩ := decode_eq_typeMismatch_iff .ethernet (heartbeatFrame.take 57)
  refine ⟨hrun, hiff.mp hrun, fun h => ?_⟩
  rw [hiffCut.mpr h] at hcut
  cases hcut

end PacketCapture
