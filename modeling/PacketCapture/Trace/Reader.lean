import PacketCapture.Trace.Fill
import PacketCapture.Trace.Frame
import PacketCapture.Trace.Header

/-! # Readers

A reader decodes the trace header when it is made and then one record at a time. It asks the source
for the bytes of the record in progress only, gives up a record's bytes whether or not its layers
decode, and yields nothing more after an end or an error.
-/
namespace PacketCapture.Trace

def defaultCapacity : Nat := 65536

structure Reader (σ : Type) where
  header : Header
  buffer : Buffer
  source : σ
  /-- Bytes of the trace decoded so far, its header among them. -/
  consumed : Nat
  finished : Bool

/-- Why a reader could not be made, and what is left of the source. -/
structure ReaderFailure (σ : Type) where
  error : DecodeError
  source : σ

namespace Reader
variable {σ : Type}

section
variable [ByteSource σ]

/-- A reader that takes the bytes of `buffer` before those of `source`. -/
def ofBuffer (buffer : Buffer) (source : σ) : Except (ReaderFailure σ) (Reader σ) :=
  match buffer.fill Header.size source with
  | ⟨some fault, _, source⟩ => .error { error := .source fault, source }
  | ⟨none, buffer, source⟩ =>
    match Header.decode.run buffer.bytes with
    | .error error => .error { error, source }
    | .ok (header, _) => .ok {
        header, source
        buffer := buffer.consume Header.size
        consumed := Header.size
        finished := false }

def ofSource (capacity : Nat) (source : σ) : Except (ReaderFailure σ) (Reader σ) :=
  ofBuffer (.withCapacity (max capacity Header.size)) source

/-- Reads until `needed` bytes are held or no more come. -/
def request (reader : Reader σ) (needed : Nat) : Option Fault × Reader σ :=
  let filled := reader.buffer.fill needed reader.source
  (filled.fault, { reader with buffer := filled.buffer, source := filled.source })

/-- Decodes the record of known length at the front of the buffer and gives up its bytes. -/
def takeRecord (reader : Reader σ) (length : Nat) : Except DecodeError Frame × Reader σ :=
  let frame := (Frame.decode reader.header.byteOrder reader.header.linkType).run
    (reader.buffer.front length)
  (frame.map Prod.fst,
    { reader with buffer := reader.buffer.consume length, consumed := reader.consumed + length })

/-- The next record; none if the trace ends where the last one did. -/
def nextRecord (reader : Reader σ) : Except DecodeError (Option Frame) × Reader σ :=
  match reader.request RecordHeader.size with
  | (some fault, reader) => (.error (.source fault), reader)
  | (none, reader) =>
    if reader.buffer.size = 0 then (.ok none, reader)
    else match (RecordHeader.decode reader.header.byteOrder).run
        (reader.buffer.front RecordHeader.size) with
    | .error error => (.error error, reader)
    | .ok (header, _) =>
      match reader.request header.recordLength with
      | (some fault, reader) => (.error (.source fault), reader)
      | (none, reader) =>
        if reader.buffer.size < header.recordLength then (.error .insufficientLength, reader)
        else
          let (frame, reader) := reader.takeRecord header.recordLength
          (frame.map some, reader)

/-- The next frame or error; nothing after an end or an error. -/
def next (reader : Reader σ) : Option (Except DecodeError Frame) × Reader σ :=
  if reader.finished then (none, reader)
  else match reader.nextRecord with
    | (.ok (some frame), reader) => (some (.ok frame), reader)
    | (.ok none, reader) => (none, { reader with finished := true })
    | (.error error, reader) => (some (.error error), { reader with finished := true })

end

section
variable [FiniteSource σ]

/-- A bound on the bytes not yet decoded, be they held or still to come. -/
def pending (reader : Reader σ) : Nat :=
  reader.buffer.size + FiniteSource.remaining reader.source

theorem pending_request_le {reader after : Reader σ} {needed : Nat} {fault : Option Fault}
    (h : reader.request needed = (fault, after)) : after.pending ≤ reader.pending := by
  obtain ⟨_, rfl⟩ := Prod.mk.inj h
  exact reader.buffer.size_fill_le needed reader.source

theorem pending_takeRecord_lt {reader : Reader σ} {length : Nat} (hpos : 0 < length)
    (hle : length ≤ reader.buffer.size) :
    (reader.takeRecord length).2.pending < reader.pending := by
  simp only [takeRecord, pending, Buffer.size_consume]
  omega

theorem pending_nextRecord_lt {reader after : Reader σ} {frame : Frame}
    (h : reader.nextRecord = (.ok (some frame), after)) : after.pending < reader.pending := by
  unfold nextRecord at h
  split at h
  · cases h
  · rename_i first hfirst
    split at h
    · cases h
    · split at h
      · cases h
      · rename_i header _ _
        split at h
        · cases h
        · rename_i second hsecond
          split at h
          · cases h
          · rename_i hle
            have htake := pending_takeRecord_lt header.recordLength_pos (Nat.le_of_not_lt hle)
            have hrecord := pending_request_le hsecond
            have hheader := pending_request_le hfirst
            obtain ⟨_, rfl⟩ := Prod.mk.inj h
            exact Nat.lt_of_lt_of_le htake (Nat.le_trans hrecord hheader)

theorem pending_next_lt {reader after : Reader σ} {frame : Frame}
    (h : reader.next = (some (.ok frame), after)) : after.pending < reader.pending := by
  unfold next at h
  split at h
  · cases h
  · split at h
    · rename_i hrecord
      cases h
      exact pending_nextRecord_lt hrecord
    · cases h
    · cases h

/-- All that is still to come: frames, and at most one error after them. -/
def collect (reader : Reader σ) : List (Except DecodeError Frame) × Reader σ :=
  match _h : reader.next with
  | (none, reader) => ([], reader)
  | (some (.error error), reader) => ([.error error], reader)
  | (some (.ok frame), reader) =>
    let (items, reader) := collect reader
    (.ok frame :: items, reader)
termination_by reader.pending
decreasing_by exact pending_next_lt _h

end

end Reader
end PacketCapture.Trace
