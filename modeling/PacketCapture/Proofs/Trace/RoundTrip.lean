import Mathlib.Data.List.Forall2
import PacketCapture.Proofs.Trace.Streaming

/-! # Traces that are written and read back

A written trace is its header and its records one after another, in one byte order throughout. Read
back it gives the header and a frame for each record, as far as their captured bytes decode, and the
same frames in either byte order.
-/
namespace PacketCapture.Trace

structure Record where
  seconds : UInt32
  microseconds : UInt32
  wireLength : UInt32
  data : Bytes
  length_lt : data.length < 4294967296

namespace Record

def header (record : Record) : RecordHeader where
  seconds := record.seconds
  microseconds := record.microseconds
  capturedLength := .ofNat record.data.length
  wireLength := record.wireLength

theorem toNat_capturedLength (record : Record) :
    record.header.capturedLength.toNat = record.data.length :=
  UInt32.toNat_ofNat_of_lt' record.length_lt

def encode (order : ByteOrder) (record : Record) : Bytes :=
  record.header.encode order ++ record.data

end Record

def encode (header : Header) (records : List Record) : Bytes :=
  header.encode ++ records.flatMap (Record.encode header.byteOrder)

/-- The captured bytes of the record decode, though perhaps not to their end. -/
def Decodes (linkType : LinkType) (record : Record) : Prop :=
  ∃ link left, (LinkLayer.decode linkType).run record.data = .ok (link, left)

/-- The frame holds what the record does, its captured bytes decoded. -/
structure Captures (linkType : LinkType) (record : Record) (frame : Frame) : Prop where
  link : ∃ left, (LinkLayer.decode linkType).run record.data = .ok (frame.link, left)
  capturedLength : frame.capturedLength.toNat = record.data.length
  wireLength : frame.wireLength = record.wireLength
  time : frame.timestamp.seconds * 1000000000 + frame.timestamp.nanoseconds =
    record.seconds.toNat * 1000000000 + record.microseconds.toNat * 1000
  nanoseconds_lt : frame.timestamp.nanoseconds < 1000000000

variable {linkType : LinkType} {record : Record} {records : List Record} {frames : List Frame}

theorem captures_ofRecord {link : LinkLayer} {left : Bytes}
    (h : (LinkLayer.decode linkType).run record.data = .ok (link, left)) :
    Captures linkType record (Frame.ofRecord record.header link) where
  link := ⟨left, h⟩
  capturedLength := record.toNat_capturedLength
  wireLength := rfl
  time := by
    simp only [Frame.ofRecord, RecordHeader.timestamp, Timestamp.ofMicroseconds, Record.header]
    omega
  nanoseconds_lt := (Frame.ofRecord record.header link).timestamp.nanoseconds_lt

theorem Timestamp.eq_of_sum_eq {x y : Timestamp}
    (h : x.seconds * 1000000000 + x.nanoseconds = y.seconds * 1000000000 + y.nanoseconds) : x = y := by
  obtain ⟨seconds, nanoseconds, hlt⟩ := x
  obtain ⟨seconds', nanoseconds', hlt'⟩ := y
  dsimp only at h
  obtain rfl : seconds = seconds' := by omega
  obtain rfl : nanoseconds = nanoseconds' := by omega
  rfl

theorem Captures.eq_ofRecord {frame : Frame} (h : Captures linkType record frame) :
    frame = Frame.ofRecord record.header frame.link := by
  obtain ⟨left, hrun⟩ := h.link
  have hfound := captures_ofRecord hrun
  obtain ⟨timestamp, capturedLength, wireLength, link⟩ := frame
  have htime := Timestamp.eq_of_sum_eq (h.time.trans hfound.time.symm)
  have hcaptured := UInt32.toNat_inj.mp (h.capturedLength.trans hfound.capturedLength.symm)
  have hwire := h.wireLength.trans hfound.wireLength.symm
  dsimp only at htime hcaptured hwire ⊢
  rw [htime, hcaptured, hwire]
  rfl

theorem exists_captures (h : ∀ record ∈ records, Decodes linkType record) :
    ∃ frames, List.Forall₂ (Captures linkType) records frames := by
  induction records with
  | nil => exact ⟨[], .nil⟩
  | cons record records ih =>
    obtain ⟨link, left, hrun⟩ := h record List.mem_cons_self
    obtain ⟨frames, hframes⟩ := ih fun other hother => h other (List.mem_cons_of_mem _ hother)
    exact ⟨_ :: frames, .cons (captures_ofRecord hrun) hframes⟩

theorem decode_encode (order : ByteOrder) (linkType : LinkType) (record : Record) (rest : Bytes) :
    (Frame.decode order linkType).run (record.encode order ++ rest) =
      ((LinkLayer.decode linkType).run record.data).map
        fun found => (Frame.ofRecord record.header found.1, rest) := by
  rw [Record.encode, List.append_assoc]
  exact Frame.decode_of_whole linkType rest (opens_encode order record.header)
    record.toNat_capturedLength.symm

/-- A scan goes through written records that decode and on to what follows them. -/
theorem scan_encode_append (order : ByteOrder) (rest : Bytes)
    (h : List.Forall₂ (Captures linkType) records frames) :
    scan order linkType (records.flatMap (Record.encode order) ++ rest) =
      ⟨frames ++ (scan order linkType rest).frames, (scan order linkType rest).failure⟩ := by
  induction h with
  | nil => rfl
  | @cons record frame records frames hcaptures _ ih =>
    obtain ⟨left, hrun⟩ := hcaptures.link
    have hdecode := decode_encode order linkType record
      (records.flatMap (Record.encode order) ++ rest)
    rw [hrun, Except.map, ← hcaptures.eq_ofRecord] at hdecode
    rw [List.flatMap_cons, List.append_assoc, scan_of_ok hdecode, ih]
    rfl

theorem scan_encode (order : ByteOrder) (h : List.Forall₂ (Captures linkType) records frames) :
    scan order linkType (records.flatMap (Record.encode order)) = ⟨frames, none⟩ := by
  simpa using scan_encode_append order [] h

theorem scan_encode_of_error (order : ByteOrder) {failing : Record} {error : DecodeError}
    (after : List Record) (h : List.Forall₂ (Captures linkType) records frames)
    (herror : (LinkLayer.decode linkType).run failing.data = .error error) :
    ∃ left, scan order linkType ((records ++ failing :: after).flatMap (Record.encode order)) =
      ⟨frames, some (error, left)⟩ := by
  have hdecode := decode_encode order linkType failing (after.flatMap (Record.encode order))
  rw [herror, Except.map] at hdecode
  have hne : failing.encode order ++ after.flatMap (Record.encode order) ≠ [] := by
    intro hnil
    have hlength := congrArg List.length hnil
    simp [Record.encode, RecordHeader.size] at hlength
  refine ⟨failing.encode order ++ after.flatMap (Record.encode order), ?_⟩
  rw [List.flatMap_append, List.flatMap_cons, scan_encode_append order _ h,
    scan_of_error hne hdecode, List.append_nil]

/-- A written trace reads back: all of it if every record decodes, and else the part before the first
record that does not, with the error of that record. The frames and the error are the same in either
byte order. -/
theorem read_encode (header : Header) (records : List Record) (limit : Option Nat)
    (hlimit : limit ≠ some 0) :
    let written (order : ByteOrder) : Header := { header with byteOrder := order }
    let found (order : ByteOrder) :=
      (ofSource (Source.fresh limit [] (encode (written order) records))).1
    ((∀ record ∈ records, Decodes header.linkType record) →
      ∃ frames, List.Forall₂ (Captures header.linkType) records frames ∧
        ∀ order, found order = .ok { header := written order, frames }) ∧
    ∀ (before after : List Record) (failing : Record) (error : DecodeError),
      records = before ++ failing :: after →
      (∀ record ∈ before, Decodes header.linkType record) →
      (LinkLayer.decode header.linkType).run failing.data = .error error →
      ∃ frames, List.Forall₂ (Captures header.linkType) before frames ∧
        ∀ order, found order = .error { header := some (written order), frames, error } := by
  intro written found
  have hfound (order : ByteOrder) : found order =
      (ofBytes (encode (written order) records)).1 := ofSource_fresh _ hlimit
  have hheader (order : ByteOrder) : Header.decode.run (encode (written order) records) =
      .ok (written order, records.flatMap (Record.encode order)) :=
    (written order).reads_encode _
  constructor
  · intro hall
    obtain ⟨frames, hframes⟩ := exists_captures hall
    refine ⟨frames, hframes, fun order => ?_⟩
    have hscan := scan_encode order hframes
    rw [hfound, ofBytes, hheader]
    dsimp only [written]
    rw [hscan]
  · rintro before after failing error rfl hbefore herror
    obtain ⟨frames, hframes⟩ := exists_captures hbefore
    refine ⟨frames, hframes, fun order => ?_⟩
    obtain ⟨left, hscan⟩ := scan_encode_of_error order after hframes herror
    rw [hfound, ofBytes, hheader]
    dsimp only [written]
    rw [hscan]

def paddedRecord : Record where
  seconds := 7
  microseconds := 2500000
  wireLength := 60
  data := [
    2, 0, 0, 0, 0, 1, 2, 0, 0, 0, 0, 2, 0x08, 0x00,
    0x45, 0, 0, 28, 0, 1, 0, 0, 64, 17, 0, 0, 10, 0, 0, 1, 10, 0, 0, 2,
    0x1f, 0x90, 0x00, 0x35, 0, 8, 0, 0, 0xd4, 0xc3]
  length_lt := by decide

def runtRecord : Record where
  seconds := 8
  microseconds := 0
  wireLength := 60
  data := [2, 0, 0]
  length_lt := by decide

theorem read_encode_runt : (some 1 : Option Nat) ≠ some 0 ∧
    (∀ record ∈ [paddedRecord], Decodes ⟨1⟩ record) ∧
    (LinkLayer.decode ⟨1⟩).run runtRecord.data = .error .insufficientLength ∧
    ∃ frames, List.Forall₂ (Captures ⟨1⟩) [paddedRecord] frames ∧
      ∀ order, (ofSource (Source.fresh (some 1) []
          (encode ⟨order, 2, 4, -3600, 0, 65535, ⟨1⟩⟩ [paddedRecord, runtRecord, paddedRecord]))).1 =
        .error {
          header := some ⟨order, 2, 4, -3600, 0, 65535, ⟨1⟩⟩
          frames
          error := .insufficientLength } := by
  have hlimit : (some 1 : Option Nat) ≠ some 0 := by decide
  have hdecodes : ∀ record ∈ [paddedRecord], Decodes ⟨1⟩ record := by
    intro record hrecord
    obtain rfl := List.mem_singleton.mp hrecord
    exact ⟨_, _, rfl⟩
  have hrunt : (LinkLayer.decode ⟨1⟩).run runtRecord.data = .error .insufficientLength := rfl
  have hread := read_encode ⟨.bigEndian, 2, 4, -3600, 0, 65535, ⟨1⟩⟩
    [paddedRecord, runtRecord, paddedRecord] (some 1) hlimit
  exact ⟨hlimit, hdecodes, hrunt,
    hread.2 [paddedRecord] [paddedRecord] runtRecord _ rfl hdecodes hrunt⟩

end PacketCapture.Trace
