import PacketCapture.Proofs.Wire.Words
import PacketCapture.Trace.Frame

/-! # Records at the front of a byte string

A byte string opens with a whole record, with a record that is cut short, or with less than a record
header. Frames are decoded from whole records alone, and from nothing but their own bytes.
-/
namespace PacketCapture.Trace

namespace RecordHeader

def encode (order : ByteOrder) (header : RecordHeader) : Bytes :=
  order.bytes32 header.seconds ++ (order.bytes32 header.microseconds ++
    (order.bytes32 header.capturedLength ++ order.bytes32 header.wireLength))

theorem reads_encode (order : ByteOrder) (header : RecordHeader) :
    (decode order).Reads (header.encode order) header := by
  refine (Decoder.reads_bytes32 order header.seconds).bind ?_
  refine (Decoder.reads_bytes32 order header.microseconds).bind ?_
  refine (Decoder.reads_bytes32 order header.capturedLength).bind ?_
  exact (Decoder.reads_bytes32 order header.wireLength).bind_pure

@[simp] theorem length_encode (order : ByteOrder) (header : RecordHeader) :
    (header.encode order).length = size := by simp [encode, size]

theorem fixed_decode (order : ByteOrder) : (decode order).Fixed size := by
  have hword32 := Decoder.fixed_word32 order
  change (decode order).Fixed (4 + (4 + (4 + (4 + 0))))
  refine hword32.bind fun seconds => ?_
  refine hword32.bind fun microseconds => ?_
  refine hword32.bind fun capturedLength => ?_
  exact hword32.bind fun wireLength => Decoder.fixed_pure _

end RecordHeader

structure Opens (order : ByteOrder) (front : Bytes) (header : RecordHeader) : Prop where
  length : front.length = RecordHeader.size
  reads : (RecordHeader.decode order).Reads front header

theorem opens_encode (order : ByteOrder) (header : RecordHeader) :
    Opens order (header.encode order) header :=
  ⟨header.length_encode order, header.reads_encode order⟩

theorem exists_opens (order : ByteOrder) {bytes : Bytes} (h : RecordHeader.size ≤ bytes.length) :
    ∃ header, Opens order (bytes.take RecordHeader.size) header := by
  have hlen : (bytes.take RecordHeader.size).length = RecordHeader.size :=
    List.length_take_of_le h
  obtain ⟨header, hreads⟩ := (RecordHeader.fixed_decode order).reads _ hlen
  exact ⟨header, hlen, hreads⟩

theorem RecordHeader.decode_take (order : ByteOrder) (bytes : Bytes) :
    (bytes.length < size ∧ (decode order).run (bytes.take size) = .error .insufficientLength) ∨
      size ≤ bytes.length ∧ ∃ header, Opens order (bytes.take size) header ∧
        (decode order).run (bytes.take size) = .ok (header, []) := by
  by_cases hsize : bytes.length < size
  · refine .inl ⟨hsize, (fixed_decode order).short _ ?_⟩
    rw [List.length_take]
    omega
  · have hle := Nat.le_of_not_lt hsize
    obtain ⟨header, hopens⟩ := exists_opens order hle
    exact .inr ⟨hle, header, hopens, hopens.reads.run_eq⟩

inductive Opening (order : ByteOrder) : Bytes → Prop
  | headless {bytes : Bytes} : bytes.length < RecordHeader.size → Opening order bytes
  | cut {front data : Bytes} {header : RecordHeader} : Opens order front header →
      data.length < header.capturedLength.toNat → Opening order (front ++ data)
  | whole {front data : Bytes} {header : RecordHeader} (rest : Bytes) : Opens order front header →
      data.length = header.capturedLength.toNat → Opening order (front ++ (data ++ rest))

theorem opening (order : ByteOrder) (bytes : Bytes) : Opening order bytes := by
  by_cases hsize : bytes.length < RecordHeader.size
  · exact .headless hsize
  · obtain ⟨header, hopens⟩ := exists_opens order (Nat.le_of_not_lt hsize)
    rw [← List.take_append_drop RecordHeader.size bytes]
    by_cases hdata : (bytes.drop RecordHeader.size).length < header.capturedLength.toNat
    · exact .cut hopens hdata
    · rw [← List.take_append_drop header.capturedLength.toNat (bytes.drop RecordHeader.size)]
      exact .whole _ hopens (List.length_take_of_le (Nat.le_of_not_lt hdata))

/-- The length of the record at the front, if all of it is there. -/
def wholeLength? (order : ByteOrder) (bytes : Bytes) : Option Nat :=
  match (RecordHeader.decode order).run bytes with
  | .error _ => none
  | .ok (header, _) =>
    if header.recordLength ≤ bytes.length then some header.recordLength else none

theorem wholeLength?_of_headless {order : ByteOrder} {bytes : Bytes}
    (h : bytes.length < RecordHeader.size) : wholeLength? order bytes = none := by
  rw [wholeLength?, (RecordHeader.fixed_decode order).short bytes h]

theorem wholeLength?_of_cut {order : ByteOrder} {front data : Bytes} {header : RecordHeader}
    (hfront : Opens order front header) (hdata : data.length < header.capturedLength.toNat) :
    wholeLength? order (front ++ data) = none := by
  have hshort : ¬ header.recordLength ≤ (front ++ data).length := by
    rw [List.length_append, hfront.length, RecordHeader.recordLength]
    omega
  rw [wholeLength?, hfront.reads data]
  exact if_neg hshort

theorem wholeLength?_of_opens {order : ByteOrder} {front more : Bytes} {header : RecordHeader}
    (hfront : Opens order front header) (hle : header.recordLength ≤ (front ++ more).length) :
    wholeLength? order (front ++ more) = some header.recordLength := by
  rw [wholeLength?, hfront.reads more]
  exact if_pos hle

theorem wholeLength?_of_whole {order : ByteOrder} {front data : Bytes} {header : RecordHeader}
    (rest : Bytes) (hfront : Opens order front header)
    (hdata : data.length = header.capturedLength.toNat) :
    wholeLength? order (front ++ (data ++ rest)) = some header.recordLength := by
  refine wholeLength?_of_opens hfront ?_
  rw [List.length_append, List.length_append, hfront.length, RecordHeader.recordLength]
  omega

theorem wholeLength?_append {order : ByteOrder} {bytes : Bytes} {length : Nat}
    (h : wholeLength? order bytes = some length) (more : Bytes) :
    length ≤ bytes.length ∧ wholeLength? order (bytes ++ more) = some length := by
  cases opening order bytes with
  | headless hsize => rw [wholeLength?_of_headless hsize] at h; cases h
  | cut hfront hdata => rw [wholeLength?_of_cut hfront hdata] at h; cases h
  | @whole front data header rest hfront hdata =>
    rw [wholeLength?_of_whole rest hfront hdata] at h
    cases h
    constructor
    · rw [List.length_append, List.length_append, hfront.length, hdata, RecordHeader.recordLength]
      omega
    · rw [List.append_assoc, List.append_assoc]
      exact wholeLength?_of_whole (rest ++ more) hfront hdata

namespace Frame

def ofRecord (header : RecordHeader) (link : LinkLayer) : Frame where
  timestamp := header.timestamp
  capturedLength := header.capturedLength
  wireLength := header.wireLength
  link := link

def recordLength (frame : Frame) : Nat := RecordHeader.size + frame.capturedLength.toNat

theorem recordLength_pos (frame : Frame) : 0 < frame.recordLength := by
  unfold recordLength RecordHeader.size
  omega

variable {order : ByteOrder} {linkType : LinkType} {front data : Bytes} {header : RecordHeader}

theorem decode_of_headless {bytes : Bytes} (h : bytes.length < RecordHeader.size) :
    (decode order linkType).run bytes = .error .insufficientLength :=
  Decoder.run_bind_of_error ((RecordHeader.fixed_decode order).short bytes h)

theorem decode_of_cut (hfront : Opens order front header)
    (hdata : data.length < header.capturedLength.toNat) :
    (decode order linkType).run (front ++ data) = .error .insufficientLength := by
  rw [decode, Decoder.run_bind_of_ok (hfront.reads data)]
  exact Decoder.run_bind_of_error (Decoder.run_within_of_lt hdata)

/-- A whole record decodes as its captured bytes do, whatever follows and whatever they leave. -/
theorem decode_of_whole (linkType : LinkType) (rest : Bytes) (hfront : Opens order front header)
    (hdata : data.length = header.capturedLength.toNat) :
    (decode order linkType).run (front ++ (data ++ rest)) =
      ((LinkLayer.decode linkType).run data).map fun found => (ofRecord header found.1, rest) := by
  rw [decode, Decoder.run_bind_of_ok (hfront.reads (data ++ rest))]
  cases hlink : (LinkLayer.decode linkType).run data with
  | error error =>
    exact Decoder.run_bind_of_error (Decoder.run_within_of_error hdata hlink rest)
  | ok found =>
    rw [Decoder.run_bind_of_ok (Decoder.reads_within hdata hlink rest)]
    rfl

theorem decode_of_wholeLength? {bytes : Bytes} {length : Nat} (linkType : LinkType)
    (h : wholeLength? order bytes = some length) :
    (decode order linkType).run bytes = ((decode order linkType).run (bytes.take length)).map
      fun found => (found.1, bytes.drop length) := by
  cases opening order bytes with
  | headless hsize => rw [wholeLength?_of_headless hsize] at h; cases h
  | cut hfront hdata => rw [wholeLength?_of_cut hfront hdata] at h; cases h
  | @whole front data header rest hfront hdata =>
    rw [wholeLength?_of_whole rest hfront hdata] at h
    cases h
    have hlen : (front ++ data).length = header.recordLength := by
      rw [List.length_append, hfront.length, hdata, RecordHeader.recordLength]
    have halone := decode_of_whole linkType [] hfront hdata
    rw [List.append_nil] at halone
    rw [decode_of_whole linkType rest hfront hdata, ← List.append_assoc, ← hlen, List.take_left,
      List.drop_left, halone]
    cases (LinkLayer.decode linkType).run data with
    | error error => rfl
    | ok found => rfl

theorem delimited_decode (order : ByteOrder) (linkType : LinkType) :
    (decode order linkType).Delimited := by
  refine (RecordHeader.fixed_decode order).delimited.bind fun header => ?_
  have hlink := Decoder.delimited_within (LinkLayer.decode linkType) header.capturedLength.toNat
  exact hlink.bind fun link => Decoder.delimited_pure _

theorem whole_of_decode {bytes rest : Bytes} {frame : Frame}
    (h : (decode order linkType).run bytes = .ok (frame, rest)) :
    wholeLength? order bytes = some frame.recordLength ∧
      ∃ record, bytes = record ++ rest ∧ record.length = frame.recordLength := by
  cases opening order bytes with
  | headless hsize => rw [decode_of_headless hsize] at h; cases h
  | cut hfront hdata => rw [decode_of_cut hfront hdata] at h; cases h
  | @whole front data header left hfront hdata =>
    rw [wholeLength?_of_whole left hfront hdata]
    rw [decode_of_whole linkType left hfront hdata] at h
    cases hlink : (LinkLayer.decode linkType).run data with
    | error error => rw [hlink] at h; cases h
    | ok found =>
      rw [hlink] at h
      cases h
      refine ⟨rfl, front ++ data, (List.append_assoc ..).symm, ?_⟩
      rw [List.length_append, hfront.length, hdata]
      rfl

theorem length_of_decode {bytes rest : Bytes} {frame : Frame}
    (h : (decode order linkType).run bytes = .ok (frame, rest)) :
    bytes.length = frame.recordLength + rest.length := by
  obtain ⟨_, record, rfl, hlen⟩ := whole_of_decode h
  rw [List.length_append, hlen]

end Frame
end PacketCapture.Trace
