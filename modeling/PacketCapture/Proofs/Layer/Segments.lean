import PacketCapture.Proofs.Layer.Refusals
import PacketCapture.Proofs.Wire.Acceptance
import PacketCapture.Proofs.Wire.Packing

/-! # Segments and datagrams written back

What a TCP segment or a UDP datagram was decoded from can be written back from its fields: nothing
is lost but the three reserved bits of the one, and what the other leaves over. Which bytes are
accepted is up to two numbers, the length of the input and the one it declares.
-/
namespace PacketCapture
open Decoder
variable {bytes rest : Bytes}

namespace Tcp

/-- The flag beside the data offset; the byte behind holds the others. -/
def Flags.ns (flags : Flags) : Bool := flags.bits.toNat.testBit 8

namespace Segment

def encode (segment : Segment) : Bytes :=
  let order := ByteOrder.bigEndian
  order.bytes16 segment.sourcePort ++ (order.bytes16 segment.destinationPort ++
    (order.bytes32 segment.sequenceNumber ++ (order.bytes32 segment.ackNumber ++
      .ofNat (segment.dataOffset.toNat <<< 4 ||| segment.flags.ns.toNat) ::
        segment.flags.bits.toUInt8 :: (order.bytes16 segment.windowSize ++
          (order.bytes16 segment.checksum ++ (order.bytes16 segment.urgentPointer ++
            (segment.options ++ segment.data)))))))

/-- Bits one to three of byte twelve are reserved. -/
def clearReserved (bytes : Bytes) : Bytes := bytes.modify 12 (· &&& 0xf1)

theorem and_reserved : ∀ n < 256, n &&& 0xf1 = n / 16 * 16 + n % 2 := by
  decide +kernel

theorem toNat_offset (word : UInt16) : (word / 0x1000).toUInt8.toNat = word.toNat / 4096 := by
  have hword : word.toNat < 65536 := word.toNat_lt
  rw [UInt16.toNat_toUInt8, UInt16.toNat_div]
  change word.toNat / 4096 % 256 = _
  omega

theorem pack_offsetAndNs (word : UInt16) :
    UInt8.ofNat ((word / 0x1000).toUInt8.toNat <<< 4 ||| (Flags.ns ⟨word % 0x200⟩).toNat) =
      .ofNat (word.toNat / 256) &&& 0xf1 := by
  have hword : word.toNat < 65536 := word.toNat_lt
  have hns : (Flags.ns ⟨word % 0x200⟩).toNat = word.toNat / 256 % 2 := by
    rw [Flags.ns, Nat.toNat_testBit, UInt16.toNat_mod]
    change word.toNat % 512 / 256 % 2 = _
    omega
  have hlow : word.toNat / 256 % 2 < 2 ^ 4 := by omega
  apply UInt8.toNat_inj.mp
  rw [toNat_offset, hns, shiftLeft_or _ hlow, UInt8.toNat_and, UInt8.toNat_ofNat',
    UInt8.toNat_ofNat']
  change _ = word.toNat / 256 % 256 &&& 0xf1
  rw [and_reserved _ (Nat.mod_lt _ (by decide))]
  omega

theorem toUInt8_flags (word : UInt16) : (word % 0x200).toUInt8 = .ofNat word.toNat := by
  apply UInt8.toNat_inj.mp
  rw [UInt16.toNat_toUInt8, UInt16.toNat_mod, UInt8.toNat_ofNat']
  change word.toNat % 512 % 256 = word.toNat % 256
  omega

theorem encode_of_word {segment : Segment} {word : UInt16}
    (hoffset : segment.dataOffset = (word / 0x1000).toUInt8)
    (hflags : segment.flags = ⟨word % 0x200⟩) : segment.encode =
      clearReserved (segment.encodeFields word ++ (segment.options ++ segment.data)) := by
  let order := ByteOrder.bigEndian
  have hfront : (order.bytes16 segment.sourcePort ++ (order.bytes16 segment.destinationPort ++
      (order.bytes32 segment.sequenceNumber ++ order.bytes32 segment.ackNumber))).length = 12 := by
    simp
  have hclear := Bytes.modify_append hfront (· &&& 0xf1) (.ofNat (word.toNat / 256))
    (.ofNat word.toNat :: (order.bytes16 segment.windowSize ++ (order.bytes16 segment.checksum ++
      (order.bytes16 segment.urgentPointer ++ (segment.options ++ segment.data)))))
  rw [encode, hoffset, hflags, pack_offsetAndNs, toUInt8_flags, clearReserved, encodeFields,
    ByteOrder.bytes16_bigEndian word]
  simp only [List.append_assoc, List.cons_append, List.nil_append] at hclear ⊢
  exact hclear.symm

/-- The segment is all of its input, reserved bits apart: there are as many options as the data
offset has words beyond the header, and no more than nine flags. -/
structure WrittenBack (segment : Segment) (bytes rest : Bytes) : Prop where
  encode : segment.encode = clearReserved bytes
  rest : rest = []
  options : segment.options.length = 4 * (segment.dataOffset.toNat - 5)
  flags : segment.flags.bits.toNat < 512

theorem writtenBack_of_decode {segment : Segment} (h : decode.run bytes = .ok (segment, rest)) :
    segment.WrittenBack bytes rest := by
  obtain ⟨word, rfl, hoffset, hflags, hoptions, rfl⟩ := decode_eq_ok h
  constructor
  · exact encode_of_word hoffset hflags
  · rfl
  · rw [hoptions, headerSize]
    omega
  · rw [hflags, UInt16.toNat_mod]
    exact Nat.mod_lt _ (by decide)

theorem clearReserved_eq_of_decode {segment : Segment} {other rest' : Bytes}
    (h : decode.run bytes = .ok (segment, rest))
    (hother : decode.run other = .ok (segment, rest')) :
    clearReserved bytes = clearReserved other :=
  (writtenBack_of_decode h).encode.symm.trans (writtenBack_of_decode hother).encode

/-- The words of four bytes that byte twelve declares for header and options. -/
def declaredWords (bytes : Bytes) : Nat := (bytes.getD 12 0).toNat >>> 4

theorem declaredWords_eq (h : headerSize ≤ bytes.length) :
    declaredWords bytes = (bytes.word16At 12 / 0x1000).toUInt8.toNat := by
  rw [headerSize] at h
  have hbyte : (bytes.getD 13 0).toNat < 256 := UInt8.toNat_lt _
  have hword : (bytes.word16At 12).toNat =
    256 * (bytes.getD 12 0).toNat + (bytes.getD 13 0).toNat := Bytes.word16At_eq (by omega)
  rw [toNat_offset, hword, declaredWords, Nat.shiftRight_eq_div_pow]
  omega

theorem recognizes_decode : decode.Recognizes fun bytes =>
    headerSize ≤ bytes.length ∧ 4 * declaredWords bytes ≤ bytes.length := by
  have h : decode.Recognizes (Behind 2 (Behind 2 (Behind 4 (Behind 4 fun bytes =>
      ∃ word more, bytes = ByteOrder.bigEndian.bytes16 word ++ more ∧
        Behind 2 (Behind 2 (Behind 2 (Behind ((word / 0x1000).toUInt8.toNat * 4 - headerSize)
          fun _ => True))) more)))) := by
    have hword16 := fixed_word16 .bigEndian
    have hword32 := fixed_word32 .bigEndian
    refine hword16.bind_recognizes fun sourcePort => ?_
    refine hword16.bind_recognizes fun destinationPort => ?_
    refine hword32.bind_recognizes fun sequenceNumber => ?_
    refine hword32.bind_recognizes fun ackNumber => ?_
    refine recognizes_word16_bind fun offsetAndFlags => ?_
    refine hword16.bind_recognizes fun windowSize => ?_
    refine hword16.bind_recognizes fun checksum => ?_
    refine hword16.bind_recognizes fun urgentPointer => ?_
    refine (fixed_take _).bind_recognizes fun options => ?_
    exact recognizes_rest.bind_pure _
  simp only [behind_behind, Nat.reduceAdd] at h
  refine h.congr fun bytes => behind_word16_iff.trans ?_
  simp only [Behind, List.length_drop, and_true]
  constructor
  · rintro ⟨hword, hmore⟩
    have hsize : headerSize ≤ bytes.length := by
      rw [headerSize]
      omega
    rw [declaredWords_eq hsize]
    rw [headerSize] at hmore hsize ⊢
    omega
  · rintro ⟨hsize, hdeclared⟩
    rw [declaredWords_eq hsize] at hdeclared
    rw [headerSize] at hsize ⊢
    omega

end Segment
end Tcp

namespace Udp.Datagram

/-- The length that bytes four and five declare for header and data. -/
def declaredLength (bytes : Bytes) : Nat := Bytes.value ((bytes.drop 4).take 2)

theorem recognizes_decode : decode.Recognizes fun bytes => headerSize ≤ bytes.length ∧
    headerSize ≤ declaredLength bytes ∧ declaredLength bytes ≤ bytes.length := by
  have h : decode.Recognizes (Behind 2 (Behind 2 fun bytes =>
      ∃ word more, bytes = ByteOrder.bigEndian.bytes16 word ++ more ∧
        Behind 2 (fun rest => ¬ word.toNat < headerSize ∧
          Behind (word.toNat - headerSize) (fun _ => True) rest) more)) := by
    have hword16 := fixed_word16 .bigEndian
    refine hword16.bind_recognizes fun sourcePort => ?_
    refine hword16.bind_recognizes fun destinationPort => ?_
    refine recognizes_word16_bind fun length => ?_
    refine hword16.bind_recognizes fun checksum => ?_
    have hdata := fixed_take (length.toNat - headerSize)
    exact Recognizes.guard (hdata.bind_recognizes fun data => recognizes_pure _)
  simp only [behind_behind, Nat.reduceAdd] at h
  refine h.congr fun bytes => behind_word16_iff.trans ?_
  simp only [Behind, List.length_drop, and_true, headerSize]
  constructor
  · rintro ⟨hword, hmore⟩
    rw [declaredLength, ← Bytes.toNat_word16At hword]
    omega
  · rintro ⟨hsize, hdeclared⟩
    rw [declaredLength, ← Bytes.toNat_word16At (by omega)] at hdeclared
    omega

theorem exists_front_of_decode {datagram : Datagram} {other rest' : Bytes}
    (h : decode.run bytes = .ok (datagram, rest))
    (hother : decode.run other = .ok (datagram, rest')) :
    ∃ front, bytes = front ++ rest ∧ other = front ++ rest' :=
  ⟨datagram.encode, (decode_eq_ok h).1, (decode_eq_ok hother).1⟩

end Udp.Datagram

namespace TransportLayer

/-- Segments and datagrams are refused for want of bytes only, and just where the input is shorter
than the header or than it declares, or a datagram declares less than its header. What is accepted
can be written back, but for the reserved bits of a segment, which is all of its input, and for what
a datagram leaves over. -/
theorem decode_loses_nothing (bytes : Bytes) :
    (Tcp.Segment.decode.Accepts bytes ↔
      20 ≤ bytes.length ∧ 4 * Tcp.Segment.declaredWords bytes ≤ bytes.length) ∧
    (Tcp.Segment.decode.run bytes = .error .insufficientLength ↔
      ¬ (20 ≤ bytes.length ∧ 4 * Tcp.Segment.declaredWords bytes ≤ bytes.length)) ∧
    (∀ segment rest, Tcp.Segment.decode.run bytes = .ok (segment, rest) →
      segment.WrittenBack bytes rest ∧
      ∀ other rest', Tcp.Segment.decode.run other = .ok (segment, rest') →
        Tcp.Segment.clearReserved bytes = Tcp.Segment.clearReserved other) ∧
    (Udp.Datagram.decode.Accepts bytes ↔ 8 ≤ bytes.length ∧
      8 ≤ Udp.Datagram.declaredLength bytes ∧ Udp.Datagram.declaredLength bytes ≤ bytes.length) ∧
    (Udp.Datagram.decode.run bytes = .error .insufficientLength ↔ ¬ (8 ≤ bytes.length ∧
      8 ≤ Udp.Datagram.declaredLength bytes ∧ Udp.Datagram.declaredLength bytes ≤ bytes.length)) ∧
    ∀ datagram rest, Udp.Datagram.decode.run bytes = .ok (datagram, rest) →
      datagram.encode ++ rest = bytes ∧ datagram.data.length = datagram.length.toNat - 8 ∧
      ∀ other rest', Udp.Datagram.decode.run other = .ok (datagram, rest') →
        ∃ front, bytes = front ++ rest ∧ other = front ++ rest' := by
  have htcp := Tcp.Segment.recognizes_decode
  have hudp := Udp.Datagram.recognizes_decode
  refine ⟨htcp bytes, htcp.insufficientLength_iff Tcp.Segment.wants_decode, ?_,
    hudp bytes, hudp.insufficientLength_iff Udp.Datagram.wants_decode, ?_⟩
  · intro segment rest h
    refine ⟨Tcp.Segment.writtenBack_of_decode h, ?_⟩
    intro other rest' hother
    exact Tcp.Segment.clearReserved_eq_of_decode h hother
  · intro datagram rest h
    obtain ⟨hbytes, -, hdata⟩ := Udp.Datagram.decode_eq_ok h
    refine ⟨hbytes.symm, hdata, ?_⟩
    intro other rest' hother
    exact Udp.Datagram.exists_front_of_decode h hother

/-- Three bytes of data behind a header that declares two words, with all reserved bits set. -/
def smallOffsetBytes : Bytes := [
  0xc3, 0x50, 0, 0x50, 0, 0, 0, 1, 0, 0, 0, 0, 0x2f, 0xc2, 0x72, 0x10, 0, 0, 0, 0, 0x61, 0x62, 0x63]

def paddedDatagramBytes : Bytes := [0, 53, 0, 53, 0, 9, 0, 0, 0xff, 0]

theorem decode_loses_nothing_smallOffset :
    (∃ segment, Tcp.Segment.decode.run smallOffsetBytes = .ok (segment, []) ∧
      segment.encode = smallOffsetBytes.set 12 0x21 ∧ segment.options = [] ∧
      segment.flags = ⟨0x1c2⟩) ∧
    Tcp.Segment.decode.run (smallOffsetBytes.take 19) = .error .insufficientLength ∧
    (∃ datagram, Udp.Datagram.decode.run paddedDatagramBytes = .ok (datagram, [0]) ∧
      datagram.encode ++ [0] = paddedDatagramBytes ∧ datagram.data = [0xff]) ∧
    Udp.Datagram.decode.run (paddedDatagramBytes.take 8) = .error .insufficientLength := by
  obtain ⟨segment, hsegment, hflags⟩ : ∃ segment,
    Tcp.Segment.decode.run smallOffsetBytes = .ok (segment, []) ∧ segment.flags = ⟨0x1c2⟩ :=
      ⟨_, rfl, rfl⟩
  obtain ⟨datagram, hdatagram, hdata⟩ : ∃ datagram,
    Udp.Datagram.decode.run paddedDatagramBytes = .ok (datagram, [0]) ∧ datagram.data = [0xff] :=
      ⟨_, rfl, rfl⟩
  obtain ⟨-, -, hwhole, -⟩ := decode_loses_nothing smallOffsetBytes
  obtain ⟨-, hcut, -⟩ := decode_loses_nothing (smallOffsetBytes.take 19)
  obtain ⟨-, -, -, -, -, hpadded⟩ := decode_loses_nothing paddedDatagramBytes
  obtain ⟨-, -, -, -, hshort, -⟩ := decode_loses_nothing (paddedDatagramBytes.take 8)
  obtain ⟨hback, -⟩ := hwhole segment [] hsegment
  refine ⟨⟨segment, hsegment, hback.encode, ?_, hflags⟩, hcut.mpr (by decide),
    ⟨datagram, hdatagram, (hpadded datagram [0] hdatagram).1, hdata⟩, hshort.mpr (by decide)⟩
  cases hsegment
  rfl

end TransportLayer
end PacketCapture
