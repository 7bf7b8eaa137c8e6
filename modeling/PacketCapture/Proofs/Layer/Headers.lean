import PacketCapture.Proofs.Layer.Data
import PacketCapture.Proofs.Wire.Packing

/-! # Headers put together again

The fields of a header are put together to the bytes they were unpacked from. Nothing is lost but
the reserved bit of an IPv4 header, and no field holds bits of another: each is below the power of
two that its width allows.
-/
namespace PacketCapture
variable {bytes rest : Bytes}

namespace Ethernet

def LengthOrType.word (lengthOrType : LengthOrType) : UInt16 :=
  if lengthOrType.typeValue.code = 0 then lengthOrType.lengthValue else lengthOrType.typeValue.code

theorem LengthOrType.ofWord_spec (word : UInt16) : (ofWord word).word = word ∧
    ((ofWord word).lengthValue < 1536 ∧ (ofWord word).typeValue.code = 0 ∨
      (ofWord word).lengthValue = 0 ∧ 1536 ≤ (ofWord word).typeValue.code) := by
  by_cases hlength : word < minEtherType
  · rw [ofWord, if_pos hlength]
    exact ⟨rfl, .inl ⟨hlength, rfl⟩⟩
  · rw [ofWord, if_neg hlength]
    have htype : 1536 ≤ word := UInt16.not_lt.mp hlength
    have hne : word ≠ 0 := by
      rintro rfl
      exact absurd htype (by decide)
    exact ⟨if_neg hne, .inr ⟨rfl, htype⟩⟩

namespace Frame

theorem headerSize_eq (frame : Frame) :
    frame.headerSize = if frame.vlanTag.isSome then 18 else 14 := by
  rw [headerSize]
  cases frame.vlanTag with
  | none => rfl
  | some tag => simp [VlanTag.encode, VlanTag.bytes, tag.control.property]

theorem encodeHeader_of_decode {frame : Frame} (h : decode.run bytes = .ok (frame, rest)) :
    encodeHeader frame.destination frame.source frame.vlanTag frame.lengthOrType.word =
      bytes.take frame.headerSize := by
  obtain ⟨word, more, rfl, hword, -⟩ := header_of_decode h
  rw [hword, (LengthOrType.ofWord_spec word).1, headerSize,
    ← length_encodeHeader _ frame.source _ word, List.take_left]

theorem lengthOrType_of_decode {frame : Frame} (h : decode.run bytes = .ok (frame, rest)) :
    frame.lengthOrType.lengthValue < 1536 ∧ frame.lengthOrType.typeValue.code = 0 ∨
      frame.lengthOrType.lengthValue = 0 ∧ 1536 ≤ frame.lengthOrType.typeValue.code := by
  obtain ⟨word, -, -, hword, -⟩ := header_of_decode h
  rw [hword]
  exact (LengthOrType.ofWord_spec word).2

end Frame
end Ethernet

namespace Ip

namespace V4Header
variable {header : V4Header} {versionAndIhl dscpAndEcn : UInt8} {flagsAndOffset : UInt16}

def encode (header : V4Header) : Bytes :=
  header.encodeFields (.ofNat (4 <<< 4 ||| header.ihl.toNat))
    (.ofNat (header.dscp.toNat <<< 2 ||| header.ecn.toNat))
    (.ofNat (header.dontFragment.toNat <<< 14 ||| header.moreFragments.toNat <<< 13 |||
      header.fragmentOffset.toNat)) ++ header.options

/-- The top bit of byte six is reserved. -/
def clearReserved (bytes : Bytes) : Bytes := bytes.modify 6 (· &&& 0x7f)

theorem Unpacks.toNat_ihl (h : header.Unpacks versionAndIhl dscpAndEcn flagsAndOffset) :
    header.ihl.toNat = versionAndIhl.toNat % 16 := by
  rw [h.ihl]
  exact UInt8.toNat_mod ..

theorem Unpacks.toNat_dscp (h : header.Unpacks versionAndIhl dscpAndEcn flagsAndOffset) :
    header.dscp.toNat = dscpAndEcn.toNat / 4 := by
  rw [h.dscp]
  exact UInt8.toNat_div ..

theorem Unpacks.toNat_ecn (h : header.Unpacks versionAndIhl dscpAndEcn flagsAndOffset) :
    header.ecn.toNat = dscpAndEcn.toNat % 4 := by
  rw [h.ecn]
  exact UInt8.toNat_mod ..

theorem Unpacks.toNat_fragmentOffset
    (h : header.Unpacks versionAndIhl dscpAndEcn flagsAndOffset) :
    header.fragmentOffset.toNat = flagsAndOffset.toNat % 8192 := by
  rw [h.fragmentOffset]
  exact UInt16.toNat_mod ..

theorem Unpacks.pack_versionAndIhl (h : header.Unpacks versionAndIhl dscpAndEcn flagsAndOffset) :
    UInt8.ofNat (4 <<< 4 ||| header.ihl.toNat) = versionAndIhl := by
  have hversion : versionAndIhl.toNat / 16 = 4 :=
    (UInt8.toNat_div ..).symm.trans (congrArg UInt8.toNat h.version)
  have hihl : versionAndIhl.toNat % 16 < 2 ^ 4 := Nat.mod_lt _ (by decide)
  have hpack : 4 <<< 4 ||| versionAndIhl.toNat % 16 = versionAndIhl.toNat := by
    rw [shiftLeft_or 4 hihl]
    omega
  rw [h.toNat_ihl, hpack, UInt8.ofNat_toNat]

theorem Unpacks.pack_dscpAndEcn (h : header.Unpacks versionAndIhl dscpAndEcn flagsAndOffset) :
    UInt8.ofNat (header.dscp.toNat <<< 2 ||| header.ecn.toNat) = dscpAndEcn := by
  have hecn : dscpAndEcn.toNat % 4 < 2 ^ 2 := Nat.mod_lt _ (by decide)
  have hpack : (dscpAndEcn.toNat / 4) <<< 2 ||| dscpAndEcn.toNat % 4 = dscpAndEcn.toNat := by
    rw [shiftLeft_or _ hecn]
    omega
  rw [h.toNat_dscp, h.toNat_ecn, hpack, UInt8.ofNat_toNat]

theorem Unpacks.pack_flagsAndOffset (h : header.Unpacks versionAndIhl dscpAndEcn flagsAndOffset) :
    header.dontFragment.toNat <<< 14 ||| header.moreFragments.toNat <<< 13 |||
      header.fragmentOffset.toNat = flagsAndOffset.toNat % 32768 := by
  have hdont : header.dontFragment.toNat = flagsAndOffset.toNat / 16384 % 2 := by
    rw [h.dontFragment]
    exact Nat.toNat_testBit ..
  have hmore : header.moreFragments.toNat = flagsAndOffset.toNat / 8192 % 2 := by
    rw [h.moreFragments]
    exact Nat.toNat_testBit ..
  -- from the lowest field up, what is below a shift fits below it
  have hoffset : flagsAndOffset.toNat % 8192 < 2 ^ 13 := Nat.mod_lt _ (by decide)
  have hlow : flagsAndOffset.toNat / 8192 % 2 * 2 ^ 13 + flagsAndOffset.toNat % 8192 < 2 ^ 14 := by
    omega
  rw [h.toNat_fragmentOffset, hdont, hmore, Nat.or_assoc, shiftLeft_or _ hoffset,
    shiftLeft_or _ hlow]
  omega

theorem bytes16_clear (word : UInt16) :
    ByteOrder.bigEndian.bytes16 (.ofNat (word.toNat % 32768)) =
      [.ofNat (word.toNat / 256) &&& 0x7f, .ofNat word.toNat] := by
  have hword : (UInt16.ofNat (word.toNat % 32768)).toNat = word.toNat % 32768 := by
    rw [UInt16.toNat_ofNat']
    omega
  have hhigh : UInt8.ofNat (word.toNat % 32768 / 256) = .ofNat (word.toNat / 256) &&& 0x7f := by
    apply UInt8.toNat_inj.mp
    rw [UInt8.toNat_and, UInt8.toNat_ofNat', UInt8.toNat_ofNat']
    change _ = word.toNat / 256 % 256 &&& 2 ^ 7 - 1
    rw [Nat.and_two_pow_sub_one_eq_mod]
    omega
  have hlow : UInt8.ofNat (word.toNat % 32768) = .ofNat word.toNat := by
    apply UInt8.toNat_inj.mp
    rw [UInt8.toNat_ofNat', UInt8.toNat_ofNat']
    omega
  rw [ByteOrder.bytes16_bigEndian, hword, hhigh, hlow]

theorem encode_of_decode (h : decode.run bytes = .ok (header, rest)) :
    header.encode = clearReserved (bytes.take (fixedSize + header.options.length)) := by
  obtain ⟨versionAndIhl, dscpAndEcn, flagsAndOffset, rfl, hunpacks, -⟩ := decode_eq_ok h
  let order := ByteOrder.bigEndian
  have hfront : (versionAndIhl :: dscpAndEcn ::
      (order.bytes16 header.totalLength ++ order.bytes16 header.id)).length = 6 := by
    simp
  have hclear := Bytes.modify_append hfront (· &&& 0x7f) (.ofNat (flagsAndOffset.toNat / 256))
    (.ofNat flagsAndOffset.toNat :: header.ttl :: header.protocol.code ::
      (order.bytes16 header.checksum ++ (header.source.val ++ (header.destination.val ++
        header.options))))
  have htake : (header.encodeFields versionAndIhl dscpAndEcn flagsAndOffset ++
      (header.options ++ rest)).take (fixedSize + header.options.length) =
        header.encodeFields versionAndIhl dscpAndEcn flagsAndOffset ++ header.options := by
    rw [← List.append_assoc]
    apply List.take_left'
    rw [List.length_append, length_encodeFields]
  rw [htake, encode, hunpacks.pack_versionAndIhl, hunpacks.pack_dscpAndEcn,
    hunpacks.pack_flagsAndOffset, clearReserved, encodeFields, encodeFields, bytes16_clear,
    ByteOrder.bytes16_bigEndian flagsAndOffset]
  simp only [List.append_assoc, List.cons_append, List.nil_append] at hclear ⊢
  exact hclear.symm

theorem bounds_of_decode (h : decode.run bytes = .ok (header, rest)) :
    header.dscp.toNat < 64 ∧ header.ecn.toNat < 4 ∧ header.fragmentOffset.toNat < 8192 := by
  obtain ⟨versionAndIhl, dscpAndEcn, flagsAndOffset, -, hunpacks, -⟩ := decode_eq_ok h
  have hbyte : dscpAndEcn.toNat < 256 := dscpAndEcn.toNat_lt
  rw [hunpacks.toNat_dscp, hunpacks.toNat_ecn, hunpacks.toNat_fragmentOffset]
  omega

end V4Header

namespace V6Header
variable {header : V6Header} {versionClassAndLabel : UInt32}

def encode (header : V6Header) : Bytes :=
  header.encodeFields (.ofNat (6 <<< 28 ||| header.trafficClass.toNat <<< 20 |||
    header.flowLabel.toNat))

theorem Unpacks.toNat_flowLabel (h : header.Unpacks versionClassAndLabel) :
    header.flowLabel.toNat = versionClassAndLabel.toNat % 1048576 := by
  rw [h.flowLabel]
  exact UInt32.toNat_mod ..

theorem Unpacks.toNat_trafficClass (h : header.Unpacks versionClassAndLabel) :
    header.trafficClass.toNat = versionClassAndLabel.toNat / 1048576 % 256 := by
  rw [h.trafficClass, UInt32.toNat_toUInt8, UInt32.toNat_mod, UInt32.toNat_div]
  change versionClassAndLabel.toNat / 1048576 % 256 % 256 = _
  exact Nat.mod_mod ..

theorem Unpacks.pack (h : header.Unpacks versionClassAndLabel) :
    UInt32.ofNat (6 <<< 28 ||| header.trafficClass.toNat <<< 20 ||| header.flowLabel.toNat) =
      versionClassAndLabel := by
  have hversion : versionClassAndLabel.toNat / 268435456 = 6 :=
    (UInt32.toNat_div ..).symm.trans (congrArg UInt32.toNat h.version)
  have hlabel : versionClassAndLabel.toNat % 1048576 < 2 ^ 20 := Nat.mod_lt _ (by decide)
  have hlow : versionClassAndLabel.toNat / 1048576 % 256 * 2 ^ 20 +
      versionClassAndLabel.toNat % 1048576 < 2 ^ 28 := by
    omega
  have hpack : 6 <<< 28 ||| (versionClassAndLabel.toNat / 1048576 % 256) <<< 20 |||
      versionClassAndLabel.toNat % 1048576 = versionClassAndLabel.toNat := by
    rw [Nat.or_assoc, shiftLeft_or _ hlabel, shiftLeft_or _ hlow]
    omega
  rw [h.toNat_trafficClass, h.toNat_flowLabel, hpack, UInt32.ofNat_toNat]

theorem encode_of_decode (h : decode.run bytes = .ok (header, rest)) :
    header.encode = bytes.take size ∧ header.flowLabel.toNat < 2 ^ 20 := by
  obtain ⟨versionClassAndLabel, rfl, hunpacks⟩ := decode_eq_ok h
  constructor
  · rw [encode, hunpacks.pack, ← length_encodeFields versionClassAndLabel header, List.take_left]
  · rw [hunpacks.toNat_flowLabel]
    exact Nat.mod_lt _ (by decide)

end V6Header
end Ip

/-- The header of a frame or packet that was decoded is put together from its fields to the bytes in
front of the payload. The reserved bit of an IPv4 header is the only one lost, a frame has either a
length or a type, and the fields of fewer bits than a byte or a word stay below their bounds. -/
theorem encode_header_of_decode (bytes : Bytes) :
    (∀ frame rest, Ethernet.Frame.decode.run bytes = .ok (frame, rest) →
      Ethernet.Frame.encodeHeader frame.destination frame.source frame.vlanTag
          frame.lengthOrType.word = bytes.take (if frame.vlanTag.isSome then 18 else 14) ∧
      (frame.lengthOrType.lengthValue < 1536 ∧ frame.lengthOrType.typeValue.code = 0 ∨
        frame.lengthOrType.lengthValue = 0 ∧ 1536 ≤ frame.lengthOrType.typeValue.code)) ∧
    (∀ packet rest, Ip.V4Packet.decode.run bytes = .ok (packet, rest) →
      packet.header.encode =
        Ip.V4Header.clearReserved (bytes.take (20 + packet.header.options.length)) ∧
      packet.header.dscp.toNat < 64 ∧ packet.header.ecn.toNat < 4 ∧
      packet.header.fragmentOffset.toNat < 8192) ∧
    ∀ packet rest, Ip.V6Packet.decode.run bytes = .ok (packet, rest) →
      packet.header.encode = bytes.take 40 ∧ packet.header.flowLabel.toNat < 2 ^ 20 := by
  refine ⟨?_, ?_, ?_⟩
  · intro frame rest h
    rw [← frame.headerSize_eq]
    exact ⟨Ethernet.Frame.encodeHeader_of_decode h, Ethernet.Frame.lengthOrType_of_decode h⟩
  · intro packet rest h
    obtain ⟨_, _, _, hheader, -⟩ := Ip.V4Packet.decode_eq_ok h
    exact ⟨Ip.V4Header.encode_of_decode hheader, Ip.V4Header.bounds_of_decode hheader⟩
  · intro packet rest h
    obtain ⟨_, hheader, -⟩ := Ip.V6Packet.decode_eq_ok h
    exact Ip.V6Header.encode_of_decode hheader

def taggedFrame : Bytes := [
  0, 22, 227, 25, 39, 21, 0, 4, 118, 150, 123, 218, 0x81, 0, 0x20, 0x64, 0, 4, 0xaa, 0xaa, 3, 0]

/-- No payload behind a word of options; every flag is set, the reserved bit too. -/
def flaggedPacket : Bytes := [
  0x46, 0xb9, 0, 24, 0, 1, 0xff, 0xff, 64, 0x59, 0, 0, 10, 0, 0, 1, 10, 0, 0, 2, 1, 1, 1, 0]

def labelledPacket : Bytes := [
  0x6a, 0xbc, 0xde, 0xf0, 0, 0, 59, 1, 0xfe, 0x80, 0, 0, 0, 0, 0, 0, 0, 0, 0, 0, 0, 0, 0, 1,
  0xff, 2, 0, 0, 0, 0, 0, 0, 0, 0, 0, 0, 0, 0, 0, 12]

theorem encode_header_of_decode_flagged :
    (∃ frame, Ethernet.Frame.decode.run taggedFrame = .ok (frame, []) ∧
      Ethernet.Frame.encodeHeader frame.destination frame.source frame.vlanTag
        frame.lengthOrType.word = taggedFrame.take 18 ∧ frame.lengthOrType = .length 4) ∧
    (∃ packet, Ip.V4Packet.decode.run flaggedPacket = .ok (packet, []) ∧
      packet.header.encode = flaggedPacket.set 6 0x7f ∧ packet.header.fragmentOffset = 8191) ∧
    ∃ packet, Ip.V6Packet.decode.run labelledPacket = .ok (packet, []) ∧
      packet.header.encode = labelledPacket ∧ packet.header.trafficClass = 0xab ∧
      packet.header.flowLabel = 0xcdef0 := by
  obtain ⟨frame, hframe, htag, hword⟩ : ∃ frame,
    Ethernet.Frame.decode.run taggedFrame = .ok (frame, []) ∧ frame.vlanTag.isSome ∧
      frame.lengthOrType = .length 4 := ⟨_, rfl, rfl, rfl⟩
  obtain ⟨four, hfour, hoptions, hoffset⟩ : ∃ packet,
    Ip.V4Packet.decode.run flaggedPacket = .ok (packet, []) ∧
      packet.header.options = [1, 1, 1, 0] ∧ packet.header.fragmentOffset = 8191 :=
        ⟨_, rfl, rfl, rfl⟩
  obtain ⟨six, hsix, hclass, hlabel⟩ : ∃ packet,
    Ip.V6Packet.decode.run labelledPacket = .ok (packet, []) ∧
      packet.header.trafficClass = 0xab ∧ packet.header.flowLabel = 0xcdef0 := ⟨_, rfl, rfl, rfl⟩
  refine ⟨⟨frame, hframe, ?_, hword⟩, ⟨four, hfour, ?_, hoffset⟩, six, hsix, ?_, hclass, hlabel⟩
  · have h := ((encode_header_of_decode taggedFrame).1 frame [] hframe).1
    rwa [if_pos htag] at h
  · have h := ((encode_header_of_decode flaggedPacket).2.1 four [] hfour).1
    rw [hoptions] at h
    exact h
  · exact ((encode_header_of_decode labelledPacket).2.2 six [] hsix).1

end PacketCapture
