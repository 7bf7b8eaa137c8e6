import PacketCapture.Proofs.Wire.Words
import PacketCapture.Trace.Header

/-! # Trace headers at the front of a byte string

A trace header is told by its first twenty-four bytes. A header that decodes is refused when it is
cut, for want of bytes inside the magic number and as an unexpected end after it.
-/
namespace PacketCapture.Trace

@[simp] theorem length_magic (order : ByteOrder) : (magic order).length = 4 := by cases order <;> rfl

theorem reads_magic (order : ByteOrder) : decodeMagic.Reads (magic order) order := by
  intro more
  rw [decodeMagic, Decoder.run_bind_of_ok (Decoder.reads_take (length_magic order) more)]
  cases order <;> rfl

theorem decodeMagic_of_lt {bytes : Bytes} (h : bytes.length < 4) :
    decodeMagic.run bytes = .error .insufficientLength :=
  Decoder.run_bind_of_error (Decoder.run_take_of_lt h)

theorem decodeMagic_cases {front : Bytes} (h : front.length = 4) :
    (∃ order, decodeMagic.Reads front order) ∨
      ∀ more, decodeMagic.run (front ++ more) = .error .notATrace := by
  by_cases hbig : front = magic .bigEndian
  · exact .inl ⟨.bigEndian, hbig ▸ reads_magic .bigEndian⟩
  · by_cases hlittle : front = magic .littleEndian
    · exact .inl ⟨.littleEndian, hlittle ▸ reads_magic .littleEndian⟩
    · refine .inr fun more => ?_
      rw [decodeMagic, Decoder.run_bind_of_ok (Decoder.reads_take h more)]
      simp only [if_neg hbig, if_neg hlittle]
      rfl

namespace Header

theorem fixed_decodeFields (order : ByteOrder) : (decodeFields order).Fixed 20 := by
  have hword16 := Decoder.fixed_word16 order
  have hword32 := Decoder.fixed_word32 order
  change (decodeFields order).Fixed (2 + (2 + (4 + (4 + (4 + (4 + 0))))))
  refine hword16.bind fun versionMajor => ?_
  refine hword16.bind fun versionMinor => ?_
  refine hword32.bind fun timeZone => ?_
  refine hword32.bind fun significantFigures => ?_
  refine hword32.bind fun snapLength => ?_
  exact hword32.bind fun linkType => Decoder.fixed_pure _

def encodeFields (header : Header) : Bytes :=
  let order := header.byteOrder
  order.bytes16 header.versionMajor ++ (order.bytes16 header.versionMinor ++
    (order.bytes32 header.timeZone.toUInt32 ++ (order.bytes32 header.significantFigures ++
      (order.bytes32 header.snapLength ++ order.bytes32 header.linkType.code))))

theorem reads_encodeFields (header : Header) :
    (decodeFields header.byteOrder).Reads header.encodeFields header := by
  have hzone : header.timeZone.toUInt32.toInt32 = header.timeZone := Int32.toInt32_toUInt32 _
  have h : (decodeFields header.byteOrder).Reads header.encodeFields
      { header with timeZone := header.timeZone.toUInt32.toInt32 } := by
    refine (Decoder.reads_bytes16 _ header.versionMajor).bind ?_
    refine (Decoder.reads_bytes16 _ header.versionMinor).bind ?_
    refine (Decoder.reads_bytes32 _ header.timeZone.toUInt32).bind ?_
    refine (Decoder.reads_bytes32 _ header.significantFigures).bind ?_
    refine (Decoder.reads_bytes32 _ header.snapLength).bind ?_
    exact (Decoder.reads_bytes32 _ header.linkType.code).bind_pure
  rwa [hzone] at h

def encode (header : Header) : Bytes := magic header.byteOrder ++ header.encodeFields

section
variable {order : ByteOrder} {start : Bytes}

theorem decode_of_ok {fields rest : Bytes} {header : Header}
    (hstart : decodeMagic.Reads start order)
    (hfields : (decodeFields order).run fields = .ok (header, rest)) :
    decode.run (start ++ fields) = .ok (header, rest) := by
  rw [decode, Decoder.run_bind_of_ok (hstart fields)]
  change ((decodeFields order).run fields).mapError _ = _
  rw [hfields]
  rfl

theorem decode_of_short {fields : Bytes} (hstart : decodeMagic.Reads start order)
    (hfields : fields.length < 20) : decode.run (start ++ fields) = .error .unexpectedEnd := by
  rw [decode, Decoder.run_bind_of_ok (hstart fields)]
  change ((decodeFields order).run fields).mapError _ = _
  rw [(fixed_decodeFields order).short fields hfields]
  rfl

end

theorem reads_encode (header : Header) : decode.Reads header.encode header := by
  intro more
  rw [encode, List.append_assoc]
  exact decode_of_ok (reads_magic header.byteOrder) (header.reads_encodeFields more)

theorem decode_cases (bytes : Bytes) :
    (bytes.length < 4 ∧ decode.run bytes = .error .insufficientLength) ∨
    (4 ≤ bytes.length ∧ ∀ n, 4 ≤ n → decode.run (bytes.take n) = .error .notATrace) ∨
    ∃ order, 4 ≤ bytes.length ∧ decodeMagic.Reads (bytes.take 4) order := by
  by_cases hlen : bytes.length < 4
  · exact .inl ⟨hlen, Decoder.run_bind_of_error (decodeMagic_of_lt hlen)⟩
  · have hfour : 4 ≤ bytes.length := Nat.le_of_not_lt hlen
    rcases decodeMagic_cases (List.length_take_of_le hfour) with ⟨order, hreads⟩ | hnone
    · exact .inr (.inr ⟨order, hfour, hreads⟩)
    · refine .inr (.inl ⟨hfour, ?_⟩)
      intro n hn
      have hsplit : bytes.take n = bytes.take 4 ++ (bytes.drop 4).take (n - 4) := by
        rw [← List.take_add, Nat.add_sub_cancel' hn]
      rw [hsplit]
      exact Decoder.run_bind_of_error (hnone _)

theorem decode_ok {bytes rest : Bytes} {header : Header}
    (h : decode.run bytes = .ok (header, rest)) :
    ∃ front, bytes = front ++ rest ∧ front.length = size ∧ decode.Reads front header ∧
      ∀ k < size, decode.run (front.take k) =
        .error (if k < 4 then .insufficientLength else .unexpectedEnd) := by
  rcases decode_cases bytes with ⟨_, hshort⟩ | ⟨_, hnone⟩ | ⟨order, hfour, hstart⟩
  · rw [hshort] at h
    cases h
  · have hall := hnone (bytes.length + 4) (by omega)
    rw [List.take_of_length_le (by omega), h] at hall
    cases hall
  · have hstartLen : (bytes.take 4).length = 4 := List.length_take_of_le hfour
    by_cases hfields : (bytes.drop 4).length < 20
    · have hend := decode_of_short hstart hfields
      rw [List.take_append_drop, h] at hend
      cases hend
    · have hlen : ((bytes.drop 4).take 20).length = 20 :=
        List.length_take_of_le (Nat.le_of_not_lt hfields)
      obtain ⟨found, hfound⟩ := (fixed_decodeFields order).reads _ hlen
      have hreads : decode.Reads (bytes.take 4 ++ (bytes.drop 4).take 20) found := by
        intro more
        rw [List.append_assoc]
        exact decode_of_ok hstart (hfound more)
      have hbytes : bytes = bytes.take 4 ++ (bytes.drop 4).take 20 ++ (bytes.drop 4).drop 20 := by
        rw [List.append_assoc, List.take_append_drop, List.take_append_drop]
      have hrun := hreads ((bytes.drop 4).drop 20)
      rw [← hbytes, h] at hrun
      cases hrun
      refine ⟨_, hbytes, by rw [List.length_append, hstartLen, hlen, size], hreads, ?_⟩
      intro k hk
      rw [List.take_append, hstartLen]
      by_cases hk4 : k < 4
      · have hzero : k - 4 = 0 := by omega
        rw [if_pos hk4, hzero, List.take_zero, List.append_nil]
        refine Decoder.run_bind_of_error (decodeMagic_of_lt ?_)
        rw [List.length_take]
        omega
      · rw [if_neg hk4, List.take_of_length_le (by omega)]
        refine decode_of_short hstart ?_
        rw [List.length_take]
        unfold size at hk
        omega

theorem decode_take_of_error {bytes : Bytes} {error : DecodeError}
    (h : decode.run bytes = .error error) {n : Nat} (hn : size ≤ n) :
    decode.run (bytes.take n) = .error error := by
  unfold size at hn
  rcases decode_cases bytes with ⟨hlen, hshort⟩ | ⟨_, hnone⟩ | ⟨order, hfour, hstart⟩
  · rwa [List.take_of_length_le (by omega)]
  · have hall := hnone (bytes.length + 4) (by omega)
    rw [List.take_of_length_le (by omega), h] at hall
    rw [hall]
    exact hnone n (by omega)
  · by_cases hlen : bytes.length < 24
    · rwa [List.take_of_length_le (by omega)]
    · have hfields : ((bytes.drop 4).take 20).length = 20 := by
        rw [List.length_take, List.length_drop]
        omega
      obtain ⟨found, hfound⟩ := (fixed_decodeFields order).reads _ hfields
      have hrun := decode_of_ok hstart (hfound ((bytes.drop 4).drop 20))
      rw [List.take_append_drop, List.take_append_drop, h] at hrun
      cases hrun

end Header
end PacketCapture.Trace
