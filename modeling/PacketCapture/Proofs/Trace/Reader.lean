import PacketCapture.Proofs.Trace.Scan
import PacketCapture.Proofs.Trace.Stream

/-! # Readers and the bytes ahead of them

A reader has ahead of it the bytes that it holds and those of its source's stream. Where they are
divided does not show: a record is decoded from the bytes ahead, and when it is not all there the way
the stream ends settles the outcome.
-/
namespace PacketCapture.Trace

def shortfall : Option Fault → DecodeError
  | none => .insufficientLength
  | some fault => .source fault

namespace Reader

def ahead (reader : Reader Source) : Bytes := reader.buffer.bytes ++ reader.source.stream.bytes

def ending (reader : Reader Source) : Option Fault := reader.source.stream.fault

/-- `after` is the reader with `needed` bytes in its buffer, the missing ones read. -/
structure Refills (needed : Nat) (reader after : Reader Source) : Prop where
  header : after.header = reader.header
  consumed : after.consumed = reader.consumed
  finished : after.finished = reader.finished
  ahead : after.ahead = reader.ahead
  ending : after.ending = reader.ending
  size : after.buffer.size = max reader.buffer.size needed
  served : after.source.served = reader.source.served + (needed - reader.buffer.size)
  limit : after.source.limit = reader.source.limit

structure Drains (reader after : Reader Source) : Prop where
  header : after.header = reader.header
  consumed : after.consumed = reader.consumed
  bytes : after.buffer.bytes = reader.ahead
  served : after.source.served =
    reader.source.served + (reader.ahead.length - reader.buffer.size)

structure Passes (length : Nat) (rest : Bytes) (reader after : Reader Source) : Prop where
  header : after.header = reader.header
  consumed : after.consumed = reader.consumed + length
  finished : after.finished = reader.finished
  ahead : after.ahead = rest
  ending : after.ending = reader.ending
  size : after.buffer.size = reader.buffer.size - length
  served : after.source.served = reader.source.served + (length - reader.buffer.size)
  limit : after.source.limit = reader.source.limit

variable {reader middle after : Reader Source}

theorem length_ahead (reader : Reader Source) :
    reader.ahead.length = reader.buffer.size + reader.source.stream.bytes.length := by
  rw [ahead, List.length_append, Buffer.length_bytes]

theorem front_of_ahead {front more : Bytes} {n : Nat} (h : reader.ahead = front ++ more)
    (hlen : front.length = n) (hsize : n ≤ reader.buffer.size) : reader.buffer.front n = front := by
  have hheld : n ≤ reader.buffer.bytes.length := hsize
  have htake := congrArg (List.take n) h
  rw [ahead, List.take_append_of_le_length hheld, ← hlen, List.take_left, hlen] at htake
  rw [Buffer.front_eq, htake]

theorem request_of_le {needed : Nat} (hlimit : reader.source.limit ≠ some 0)
    (h : needed ≤ reader.ahead.length) :
    ∃ after, reader.request needed = (none, after) ∧ Refills needed reader after := by
  obtain ⟨held, source, hfill, hbytes, hfault, hsize, hserved, hkept⟩ :=
    Buffer.fill_of_le hlimit h
  refine ⟨{ reader with buffer := held, source }, ?_, rfl, rfl, rfl, hbytes, hfault, hsize,
    hserved, hkept⟩
  rw [request, hfill]

theorem request_of_lt {needed : Nat} (hlimit : reader.source.limit ≠ some 0)
    (h : reader.ahead.length < needed) :
    ∃ after, reader.request needed = (reader.ending, after) ∧ Drains reader after := by
  obtain ⟨held, source, hfill, hbytes, hserved⟩ := Buffer.fill_of_lt hlimit h
  refine ⟨{ reader with buffer := held, source }, ?_, rfl, rfl, hbytes, ?_⟩
  · rw [request, hfill]
    rfl
  · rw [length_ahead, Nat.add_sub_cancel_left]
    exact hserved

theorem Refills.drains {needed : Nat} (hfirst : Refills needed reader middle)
    (h : needed ≤ reader.ahead.length) (hsecond : Drains middle after) : Drains reader after := by
  refine ⟨hsecond.header.trans hfirst.header, hsecond.consumed.trans hfirst.consumed,
    hsecond.bytes.trans hfirst.ahead, ?_⟩
  rw [hsecond.served, hfirst.served, hfirst.ahead, hfirst.size]
  omega

theorem Refills.trans {m n : Nat} (hfirst : Refills m reader middle)
    (hsecond : Refills n middle after) (h : m ≤ n) : Refills n reader after := by
  refine ⟨hsecond.header.trans hfirst.header, hsecond.consumed.trans hfirst.consumed,
    hsecond.finished.trans hfirst.finished, hsecond.ahead.trans hfirst.ahead,
    hsecond.ending.trans hfirst.ending, ?_, ?_, hsecond.limit.trans hfirst.limit⟩
  · rw [hsecond.size, hfirst.size]
    omega
  · rw [hsecond.served, hfirst.served, hfirst.size]
    omega

theorem Refills.takeRecord {length : Nat} {record rest : Bytes} (h : Refills length reader middle)
    (hahead : reader.ahead = record ++ rest) (hlen : record.length = length) :
    Passes length rest reader (middle.takeRecord length).2 := by
  have hsize : length ≤ middle.buffer.bytes.length := by
    rw [Buffer.length_bytes, h.size]
    omega
  refine ⟨h.header, congrArg (· + length) h.consumed, h.finished, ?_, h.ending, ?_, h.served, h.limit⟩
  · have hdrop := congrArg (List.drop length) (h.ahead.trans hahead)
    rw [Reader.ahead, List.drop_append_of_le_length hsize, ← hlen, List.drop_left, hlen] at hdrop
    simpa [Reader.ahead, Reader.takeRecord] using hdrop
  · simp only [Reader.takeRecord, Buffer.size_consume, h.size]
    omega

def completeRecord (reader : Reader Source) (length : Nat) :
    Except DecodeError (Option Frame) × Reader Source :=
  match reader.request length with
  | (some fault, reader) => (.error (.source fault), reader)
  | (none, reader) =>
    if reader.buffer.size < length then (.error .insufficientLength, reader)
    else ((reader.takeRecord length).1.map some, (reader.takeRecord length).2)

theorem nextRecord_of_opens {front more : Bytes} {header : RecordHeader}
    (hlimit : reader.source.limit ≠ some 0) (hfront : Opens reader.header.byteOrder front header)
    (hahead : reader.ahead = front ++ more) :
    ∃ middle, reader.nextRecord = middle.completeRecord header.recordLength ∧
      Refills RecordHeader.size reader middle := by
  have hle : RecordHeader.size ≤ reader.ahead.length := by
    rw [hahead, List.length_append, hfront.length]
    omega
  obtain ⟨middle, hrequest, hrefills⟩ := request_of_le hlimit hle
  refine ⟨middle, ?_, hrefills⟩
  have hheld : RecordHeader.size ≤ middle.buffer.size := by
    rw [hrefills.size]
    omega
  have hpos : ¬ middle.buffer.size = 0 := by
    unfold RecordHeader.size at hheld
    omega
  have hopen : (RecordHeader.decode middle.header.byteOrder).run
      (middle.buffer.front RecordHeader.size) = .ok (header, []) := by
    rw [front_of_ahead (hrefills.ahead.trans hahead) hfront.length hheld, hrefills.header]
    exact hfront.reads.run_eq
  unfold nextRecord
  rw [hrequest]
  simp only [if_neg hpos, hopen, completeRecord]
  rcases middle.request header.recordLength with ⟨_ | fault, filled⟩
  · rfl
  · rfl

/-- A record that is not all there ends the trace, cleanly if not one byte of it is. -/
theorem nextRecord_of_short (hlimit : reader.source.limit ≠ some 0)
    (h : wholeLength? reader.header.byteOrder reader.ahead = none) :
    ∃ after, reader.nextRecord =
        (if reader.ahead = [] ∧ reader.ending = none then .ok none
          else .error (shortfall reader.ending), after) ∧ Drains reader after := by
  have hopening := opening reader.header.byteOrder reader.ahead
  generalize hahead : reader.ahead = bytes at hopening h
  cases hopening with
  | headless hsize =>
    rw [← hahead] at hsize
    obtain ⟨after, hrequest, hdrains⟩ := request_of_lt hlimit hsize
    refine ⟨after, ?_, hdrains⟩
    rw [← hahead]
    unfold nextRecord
    rw [hrequest]
    cases hending : reader.ending with
    | some fault => simp [shortfall]
    | none =>
      have hempty : after.buffer.size = 0 ↔ reader.ahead = [] := by
        rw [← Buffer.length_bytes, hdrains.bytes, List.length_eq_zero_iff]
      by_cases hnil : reader.ahead = []
      · simp only [if_pos (hempty.mpr hnil), hnil, and_self, if_true]
      · have hfront : after.buffer.front RecordHeader.size = reader.ahead := by
          rw [Buffer.front_eq, hdrains.bytes, List.take_of_length_le (Nat.le_of_lt hsize)]
        have hshort := (RecordHeader.fixed_decode after.header.byteOrder).short _ hsize
        simp only [if_neg (mt hempty.mp hnil), hfront, hshort, hnil, false_and, if_false, shortfall]
  | @cut front data header hfront hdata =>
    obtain ⟨middle, hnext, hrefills⟩ := nextRecord_of_opens hlimit hfront hahead
    have hle : RecordHeader.size ≤ reader.ahead.length := by
      rw [hahead, List.length_append, hfront.length]
      omega
    have hlt : middle.ahead.length < header.recordLength := by
      rw [hrefills.ahead, hahead, List.length_append, hfront.length, RecordHeader.recordLength]
      omega
    obtain ⟨after, hrequest, hdrains⟩ := request_of_lt (hrefills.limit ▸ hlimit) hlt
    refine ⟨after, ?_, hrefills.drains hle hdrains⟩
    have hne : ¬ (front ++ data = [] ∧ reader.ending = none) := by
      rintro ⟨hnil, _⟩
      rw [hahead, hnil] at hle
      simp [RecordHeader.size] at hle
    rw [hnext, completeRecord, hrequest, if_neg hne, hrefills.ending]
    cases hending : reader.ending with
    | some fault => rfl
    | none =>
      have hheld : after.buffer.size < header.recordLength := by
        rwa [← Buffer.length_bytes, hdrains.bytes]
      simp only [if_pos hheld]
      rfl
  | whole rest hfront hdata =>
    rw [wholeLength?_of_whole rest hfront hdata] at h
    cases h

/-- A whole record is passed, whether or not its bytes decode. -/
theorem nextRecord_of_whole {length : Nat} (hlimit : reader.source.limit ≠ some 0)
    (h : wholeLength? reader.header.byteOrder reader.ahead = some length) :
    ∃ after, reader.nextRecord =
        (((Frame.decode reader.header.byteOrder reader.header.linkType).run reader.ahead).map
          fun found => some found.1, after) ∧
      Passes length (reader.ahead.drop length) reader after := by
  have hopening := opening reader.header.byteOrder reader.ahead
  generalize hahead : reader.ahead = bytes at hopening h
  cases hopening with
  | headless hsize => rw [wholeLength?_of_headless hsize] at h; cases h
  | cut hfront hdata => rw [wholeLength?_of_cut hfront hdata] at h; cases h
  | @whole front data header rest hfront hdata =>
    rw [wholeLength?_of_whole rest hfront hdata] at h
    cases h
    obtain ⟨middle, hnext, hrefills⟩ := nextRecord_of_opens hlimit hfront hahead
    have hlen : (front ++ data).length = header.recordLength := by
      rw [List.length_append, hfront.length, hdata, RecordHeader.recordLength]
    rw [← List.append_assoc] at hahead
    have hle : header.recordLength ≤ middle.ahead.length := by
      rw [hrefills.ahead, hahead, List.length_append, hlen]
      omega
    obtain ⟨filled, hrequest, hmore⟩ := request_of_le (hrefills.limit ▸ hlimit) hle
    have hfilled := hrefills.trans hmore (Nat.le_add_right _ _)
    refine ⟨(filled.takeRecord header.recordLength).2, ?_, ?_⟩
    · have hheld : header.recordLength ≤ filled.buffer.size := by
        rw [hfilled.size]
        omega
      have hbytes := front_of_ahead (hfilled.ahead.trans hahead) hlen hheld
      have hdecode := Frame.decode_of_whole reader.header.linkType [] hfront hdata
      rw [List.append_nil] at hdecode
      rw [hnext, completeRecord, hrequest, Frame.decode_of_whole _ rest hfront hdata]
      simp only [if_neg (Nat.not_lt.mpr hheld), takeRecord, hbytes, hfilled.header, hdecode]
      cases (LinkLayer.decode reader.header.linkType).run data with
      | error error => rfl
      | ok found => rfl
    · rw [← List.append_assoc, ← hlen, List.drop_left, hlen]
      exact hfilled.takeRecord hahead hlen

end Reader
end PacketCapture.Trace
