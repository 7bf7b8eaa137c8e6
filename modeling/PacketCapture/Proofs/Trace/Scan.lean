import PacketCapture.Proofs.Trace.Record
import PacketCapture.Trace

/-! # Traces in memory

The frames of a byte string, decoded one record after another on what the record before it left. A
trace in memory is decoded so after its header, without a reader.
-/
namespace PacketCapture.Trace

/-- The frames decoded, and the first error with the bytes it arose on. -/
structure Scan where
  frames : List Frame
  failure : Option (DecodeError × Bytes)

/-- Decodes records until no byte is left or one of them fails. -/
def scan (order : ByteOrder) (linkType : LinkType) (bytes : Bytes) : Scan :=
  if bytes = [] then ⟨[], none⟩
  else match _h : (Frame.decode order linkType).run bytes with
    | .error error => ⟨[], some (error, bytes)⟩
    | .ok (frame, rest) =>
      let found := scan order linkType rest
      ⟨frame :: found.frames, found.failure⟩
termination_by bytes.length
decreasing_by
  have hlen := Frame.length_of_decode _h
  have hpos := frame.recordLength_pos
  omega

/-- How far into `length` bytes a scan of them goes: to the end of the failing record if all of it is
there, and else to the end of the bytes. -/
def Scan.extent (found : Scan) (order : ByteOrder) (length : Nat) : Nat :=
  match found.failure with
  | none => length
  | some (_, left) => length - left.length + (wholeLength? order left).getD left.length

/-- The trace in a byte string, or its part before the first failure, and how far its decoding
goes. -/
def ofBytes (bytes : Bytes) : Except PartialTrace Trace × Nat :=
  match Header.decode.run bytes with
  | .error error =>
    (.error { header := none, frames := [], error }, min Header.size bytes.length)
  | .ok (header, records) =>
    let found := scan header.byteOrder header.linkType records
    let extent := found.extent header.byteOrder bytes.length
    match found.failure with
    | none => (.ok { header, frames := found.frames }, extent)
    | some (error, _) => (.error { header := some header, frames := found.frames, error }, extent)

variable {order : ByteOrder} {linkType : LinkType}

@[simp] theorem scan_nil : scan order linkType [] = ⟨[], none⟩ := by
  rw [scan, if_pos rfl]

theorem scan_of_error {bytes : Bytes} {error : DecodeError} (hne : bytes ≠ [])
    (h : (Frame.decode order linkType).run bytes = .error error) :
    scan order linkType bytes = ⟨[], some (error, bytes)⟩ := by
  rw [scan, if_neg hne]
  split
  · rename_i other hother
    rw [h] at hother
    cases hother
    rfl
  · rename_i frame rest hok
    rw [h] at hok
    cases hok

theorem scan_of_ok {bytes rest : Bytes} {frame : Frame}
    (h : (Frame.decode order linkType).run bytes = .ok (frame, rest)) :
    scan order linkType bytes =
      ⟨frame :: (scan order linkType rest).frames, (scan order linkType rest).failure⟩ := by
  have hne : bytes ≠ [] := by
    rintro rfl
    have hlen := Frame.length_of_decode h
    have hpos := frame.recordLength_pos
    simp only [List.length_nil] at hlen
    omega
  rw [scan, if_neg hne]
  split
  · rename_i error herror
    rw [h] at herror
    cases herror
  · rename_i other left hother
    rw [h] at hother
    cases hother
    rfl

theorem length_le_of_failure {bytes left : Bytes} {error : DecodeError}
    (h : (scan order linkType bytes).failure = some (error, left)) :
    left.length ≤ bytes.length := by
  fun_induction scan order linkType bytes with
  | case1 => cases h
  | case2 bytes hne error hrun =>
    cases h
    exact Nat.le_refl _
  | case3 bytes hne frame rest hrun found ih =>
    have hlen := Frame.length_of_decode hrun
    have hleft := ih h
    omega

theorem extent_add (order : ByteOrder) (linkType : LinkType) (bytes : Bytes) (before : Nat) :
    (scan order linkType bytes).extent order (before + bytes.length) =
      before + (scan order linkType bytes).extent order bytes.length := by
  cases hfailure : (scan order linkType bytes).failure with
  | none => simp only [Scan.extent, hfailure]
  | some failure =>
    obtain ⟨error, left⟩ := failure
    have hleft := length_le_of_failure hfailure
    simp only [Scan.extent, hfailure]
    omega

theorem extent_of_ok {bytes rest : Bytes} {frame : Frame}
    (h : (Frame.decode order linkType).run bytes = .ok (frame, rest)) :
    (scan order linkType bytes).extent order bytes.length =
      frame.recordLength + (scan order linkType rest).extent order rest.length := by
  rw [← extent_add, ← Frame.length_of_decode h, scan_of_ok h]
  rfl

end PacketCapture.Trace
