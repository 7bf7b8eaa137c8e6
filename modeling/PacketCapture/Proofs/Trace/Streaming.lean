import PacketCapture.Proofs.Trace.Header
import PacketCapture.Proofs.Trace.Reader

/-! # Reading a trace as a stream

What a reader collects is what a scan of the bytes ahead of it finds, closed by the way these bytes
end. So the trace in a source depends on its stream alone, and for a source that just ends it is the
trace in memory.
-/
namespace PacketCapture.Trace

/-- The error after the frames, if any: a record that is cut short fails by the way the bytes end. -/
def Scan.closing (found : Scan) (order : ByteOrder) (ending : Option Fault) : Option DecodeError :=
  match found.failure with
  | none => ending.map .source
  | some (error, left) =>
    if (wholeLength? order left).isSome then some error else some (shortfall ending)

def Scan.items (found : Scan) (order : ByteOrder) (ending : Option Fault) :
    List (Except DecodeError Frame) :=
  found.frames.map .ok ++ (found.closing order ending).toList.map .error

theorem splitItems_append (frames : List Frame) (closing : Option DecodeError) :
    splitItems (frames.map .ok ++ closing.toList.map .error) = (frames, closing) := by
  induction frames with
  | nil => cases closing <;> rfl
  | cons frame frames ih =>
    simp only [List.map_cons, List.cons_append, splitItems, ih]

theorem splitItems_items (found : Scan) (order : ByteOrder) (ending : Option Fault) :
    splitItems (found.items order ending) = (found.frames, found.closing order ending) :=
  splitItems_append _ _

theorem error_of_short {order : ByteOrder} {linkType : LinkType} {bytes left : Bytes}
    {error : DecodeError} (h : (scan order linkType bytes).failure = some (error, left))
    (hshort : wholeLength? order left = none) : error = .insufficientLength := by
  fun_induction scan order linkType bytes with
  | case1 => cases h
  | case2 bytes hne other hrun =>
    cases h
    cases opening order left with
    | headless hsize =>
      rw [Frame.decode_of_headless hsize] at hrun
      cases hrun
      rfl
    | cut hfront hdata =>
      rw [Frame.decode_of_cut hfront hdata] at hrun
      cases hrun
      rfl
    | whole rest hfront hdata =>
      rw [wholeLength?_of_whole rest hfront hdata] at hshort
      cases hshort
  | case3 bytes hne frame rest hrun found ih => exact ih h

namespace Reader
variable {reader after : Reader Source}

theorem next_of_finished (h : reader.finished = true) : reader.next = (none, reader) := by
  unfold next
  rw [if_pos h]

theorem next_of_frame {frame : Frame} (hfinished : reader.finished = false)
    (h : reader.nextRecord = (.ok (some frame), after)) :
    reader.next = (some (.ok frame), after) := by
  unfold next
  rw [hfinished, h]
  rfl

theorem next_of_end (hfinished : reader.finished = false)
    (h : reader.nextRecord = (.ok none, after)) :
    reader.next = (none, { after with finished := true }) := by
  unfold next
  rw [hfinished, h]
  rfl

theorem next_of_error {error : DecodeError} (hfinished : reader.finished = false)
    (h : reader.nextRecord = (.error error, after)) :
    reader.next = (some (.error error), { after with finished := true }) := by
  unfold next
  rw [hfinished, h]
  rfl

theorem collect_of_none (h : reader.next = (none, after)) : reader.collect = ([], after) := by
  rw [collect]
  split <;> simp_all

theorem collect_of_error {error : DecodeError} (h : reader.next = (some (.error error), after)) :
    reader.collect = ([.error error], after) := by
  rw [collect]
  split <;> simp_all

theorem collect_of_frame {frame : Frame} (h : reader.next = (some (.ok frame), after)) :
    reader.collect = (.ok frame :: after.collect.1, after.collect.2) := by
  rw [collect]
  split <;> simp_all

theorem collect_of_short (hfinished : reader.finished = false)
    (hlimit : reader.source.limit ≠ some 0)
    (h : wholeLength? reader.header.byteOrder reader.ahead = none) :
    reader.collect.1 = (if reader.ahead = [] ∧ reader.ending = none then []
        else [.error (shortfall reader.ending)]) ∧
      reader.collect.2.source.served =
        reader.source.served + (reader.ahead.length - reader.buffer.size) := by
  obtain ⟨after, hnext, hdrains⟩ := nextRecord_of_short hlimit h
  by_cases hclean : reader.ahead = [] ∧ reader.ending = none
  · rw [if_pos hclean] at hnext ⊢
    rw [collect_of_none (next_of_end hfinished hnext)]
    exact ⟨rfl, hdrains.served⟩
  · rw [if_neg hclean] at hnext ⊢
    rw [collect_of_error (next_of_error hfinished hnext)]
    exact ⟨rfl, hdrains.served⟩

/-- A reader collects what a scan of the bytes ahead finds, and its source serves what the scan goes
through and is not held yet. -/
theorem collect_scan {header : Header} {bytes : Bytes} (hheader : reader.header = header)
    (hbytes : reader.ahead = bytes) (hfinished : reader.finished = false)
    (hlimit : reader.source.limit ≠ some 0) :
    reader.collect.1 = (scan header.byteOrder header.linkType bytes).items header.byteOrder
        reader.ending ∧
      reader.collect.2.source.served = reader.source.served +
        ((scan header.byteOrder header.linkType bytes).extent header.byteOrder bytes.length -
          reader.buffer.size) := by
  fun_induction scan header.byteOrder header.linkType bytes generalizing reader with
  | case1 =>
    have hshort : wholeLength? reader.header.byteOrder reader.ahead = none := by
      rw [hbytes]
      exact wholeLength?_of_headless (by decide)
    obtain ⟨hitems, hserved⟩ := collect_of_short hfinished hlimit hshort
    rw [hbytes] at hitems hserved
    refine ⟨?_, hserved⟩
    rw [hitems]
    cases hending : reader.ending with
    | none => rfl
    | some fault => simp [Scan.items, Scan.closing, shortfall]
  | case2 bytes hne error hrun =>
    subst hheader
    cases hwhole : wholeLength? reader.header.byteOrder bytes with
    | none =>
      obtain ⟨hitems, hserved⟩ := collect_of_short hfinished hlimit (hbytes ▸ hwhole)
      rw [hbytes] at hitems hserved
      rw [hitems, hserved]
      simp [Scan.items, Scan.closing, Scan.extent, hwhole, hne]
    | some length =>
      obtain ⟨after, hnext, hpasses⟩ := nextRecord_of_whole hlimit (hbytes ▸ hwhole)
      rw [hbytes, hrun] at hnext
      rw [collect_of_error (next_of_error hfinished hnext), hpasses.served]
      simp [Scan.items, Scan.closing, Scan.extent, hwhole]
  | case3 bytes hne frame rest hrun found =>
    rename_i ih
    subst hheader
    obtain ⟨hwhole, record, rfl, hlen⟩ := Frame.whole_of_decode hrun
    obtain ⟨after, hnext, hpasses⟩ := nextRecord_of_whole hlimit (hbytes ▸ hwhole)
    rw [hbytes, hrun] at hnext
    have hrest : after.ahead = rest := by
      rw [hpasses.ahead, hbytes, ← hlen, List.drop_left]
    obtain ⟨hitems, hserved⟩ := ih hpasses.header hrest (hpasses.finished.trans hfinished)
      (hpasses.limit ▸ hlimit)
    rw [collect_of_frame (next_of_frame hfinished hnext)]
    refine ⟨?_, ?_⟩
    · rw [hitems, hpasses.ending]
      rfl
    · have hextent := extent_of_ok hrun
      rw [scan_of_ok hrun] at hextent
      rw [hserved, hpasses.served, hpasses.size, hextent]
      omega

theorem ofBuffer_of_lt (buffer : Buffer) {source : Source} {error : DecodeError}
    (hlimit : source.limit ≠ some 0)
    (hlt : (buffer.bytes ++ source.stream.bytes).length < Header.size)
    (herror : Header.decode.run (buffer.bytes ++ source.stream.bytes) = .error error) :
    ∃ failure, ofBuffer buffer source = .error failure ∧
      failure.error = source.stream.fault.elim error .source ∧
      failure.source.served = source.served + source.stream.bytes.length := by
  obtain ⟨held, after, hfill, hbytes, hserved⟩ := Buffer.fill_of_lt hlimit hlt
  unfold ofBuffer
  rw [hfill]
  cases source.stream.fault with
  | some fault => exact ⟨_, rfl, rfl, hserved⟩
  | none =>
    dsimp only
    rw [hbytes, herror]
    exact ⟨_, rfl, rfl, hserved⟩

theorem ofBuffer_of_error (buffer : Buffer) {source : Source} {error : DecodeError}
    (hlimit : source.limit ≠ some 0)
    (hle : Header.size ≤ (buffer.bytes ++ source.stream.bytes).length)
    (herror : Header.decode.run (buffer.bytes ++ source.stream.bytes) = .error error) :
    ∃ failure, ofBuffer buffer source = .error failure ∧ failure.error = error ∧
      failure.source.served = source.served + (Header.size - buffer.size) := by
  obtain ⟨held, after, hfill, hbytes, _, hsize, hserved, _⟩ := Buffer.fill_of_le hlimit hle
  have hheld : Header.size ≤ held.bytes.length := by
    rw [Buffer.length_bytes, hsize]
    omega
  have hrun := Header.decode_take_of_error herror hheld
  rw [← hbytes, List.take_left] at hrun
  unfold ofBuffer
  rw [hfill]
  dsimp only
  rw [hrun]
  exact ⟨_, rfl, rfl, hserved⟩

theorem ofBuffer_of_refused (buffer : Buffer) {source : Source} {error : DecodeError}
    (hlimit : source.limit ≠ some 0)
    (herror : Header.decode.run (buffer.bytes ++ source.stream.bytes) = .error error) :
    ∃ failure, ofBuffer buffer source = .error failure ∧
      failure.error = (if (buffer.bytes ++ source.stream.bytes).length < Header.size then
        source.stream.fault.elim error .source else error) ∧
      failure.source.served = source.served +
        (min Header.size (buffer.bytes ++ source.stream.bytes).length - buffer.size) := by
  by_cases hlt : (buffer.bytes ++ source.stream.bytes).length < Header.size
  · obtain ⟨failure, hmade, hfound, hserved⟩ := ofBuffer_of_lt buffer hlimit hlt herror
    refine ⟨failure, hmade, ?_, ?_⟩
    · rw [if_pos hlt, hfound]
    · rw [hserved, Nat.min_eq_right (Nat.le_of_lt hlt), List.length_append, Buffer.length_bytes,
        Nat.add_sub_cancel_left]
  · have hle := Nat.le_of_not_lt hlt
    obtain ⟨failure, hmade, hfound, hserved⟩ := ofBuffer_of_error buffer hlimit hle herror
    refine ⟨failure, hmade, ?_, ?_⟩
    · rw [if_neg hlt, hfound]
    · rw [hserved, Nat.min_eq_left hle]

theorem ofBuffer_of_ok (buffer : Buffer) {source : Source} {header : Header} {rest : Bytes}
    (hlimit : source.limit ≠ some 0)
    (hok : Header.decode.run (buffer.bytes ++ source.stream.bytes) = .ok (header, rest)) :
    ∃ reader, ofBuffer buffer source = .ok reader ∧ reader.header = header ∧
      reader.finished = false ∧ reader.consumed = Header.size ∧ reader.ahead = rest ∧
      reader.ending = source.stream.fault ∧ reader.buffer.size = buffer.size - Header.size ∧
      reader.source.served = source.served + (Header.size - buffer.size) ∧
      reader.source.limit = source.limit := by
  obtain ⟨front, hfront, hlen, hreads, _⟩ := Header.decode_ok hok
  have hle : Header.size ≤ (buffer.bytes ++ source.stream.bytes).length := by
    rw [hfront, List.length_append, hlen]
    omega
  obtain ⟨held, after, hfill, hbytes, hfault, hsize, hserved, hkept⟩ :=
    Buffer.fill_of_le hlimit hle
  have hheld : front.length ≤ held.bytes.length := by
    rw [Buffer.length_bytes, hsize, hlen]
    omega
  obtain ⟨more, hmore⟩ := List.prefix_of_prefix_length_le
    (hfront ▸ List.prefix_append front rest) (hbytes ▸ List.prefix_append held.bytes _) hheld
  have hrest : more ++ after.stream.bytes = rest := by
    have h := hbytes.trans hfront
    rw [← hmore, List.append_assoc] at h
    exact List.append_cancel_left h
  unfold ofBuffer
  rw [hfill]
  dsimp only
  rw [← hmore, hreads more]
  refine ⟨_, rfl, rfl, rfl, rfl, ?_, hfault, ?_, hserved, hkept⟩
  · simp only [ahead, Buffer.bytes_consume]
    rw [← hmore, ← hlen, List.drop_left, hrest]
  · simp only [Buffer.size_consume, hsize]
    omega

end Reader

def ofReader (made : Except (ReaderFailure Source) (Reader Source)) :
    Except PartialTrace Trace × Source :=
  match made with
  | .error failure =>
    (.error { header := none, frames := [], error := failure.error }, failure.source)
  | .ok reader =>
    let (items, after) := reader.collect
    match splitItems items with
    | (frames, none) => (.ok { header := reader.header, frames }, after.source)
    | (frames, some error) =>
      (.error { header := some reader.header, frames, error }, after.source)

theorem ofSource_eq_ofReader (source : Source) :
    ofSource source = ofReader (Reader.ofSource defaultCapacity source) := by
  unfold ofSource ofReader
  cases Reader.ofSource defaultCapacity source with
  | error failure => rfl
  | ok reader => rfl

def ofStream (stream : Stream) : Except PartialTrace Trace × Nat :=
  match Header.decode.run stream.bytes with
  | .error error =>
    let error := if stream.bytes.length < Header.size then stream.fault.elim error .source else error
    (.error { header := none, frames := [], error }, min Header.size stream.bytes.length)
  | .ok (header, records) =>
    let found := scan header.byteOrder header.linkType records
    let extent := found.extent header.byteOrder stream.bytes.length
    match found.closing header.byteOrder stream.fault with
    | none => (.ok { header, frames := found.frames }, extent)
    | some error => (.error { header := some header, frames := found.frames, error }, extent)

theorem ofStream_of_end (bytes : Bytes) : ofStream ⟨bytes, none⟩ = ofBytes bytes := by
  unfold ofStream ofBytes
  cases Header.decode.run bytes with
  | error error => simp
  | ok decoded =>
    obtain ⟨header, records⟩ := decoded
    dsimp only
    cases hfailure : (scan header.byteOrder header.linkType records).failure with
    | none => simp [Scan.closing, hfailure]
    | some failure =>
      obtain ⟨error, left⟩ := failure
      cases hwhole : wholeLength? header.byteOrder left with
      | some length => simp [Scan.closing, hfailure, hwhole]
      | none =>
        obtain rfl := error_of_short hfailure hwhole
        simp [Scan.closing, hfailure, hwhole, shortfall]

/-- What is read from a source, and how much of it, depends on its stream alone. -/
theorem ofReader_ofSource (capacity : Nat) (source : Source) (hlimit : source.limit ≠ some 0) :
    (ofReader (Reader.ofSource capacity source)).1 = (ofStream source.stream).1 ∧
      (ofReader (Reader.ofSource capacity source)).2.served =
        source.served + (ofStream source.stream).2 := by
  let buffer := Buffer.withCapacity (max capacity Header.size)
  have hsource : Reader.ofSource capacity source = Reader.ofBuffer buffer source := rfl
  have hempty : buffer.size = 0 := rfl
  rw [hsource, ofStream]
  cases hdecode : Header.decode.run source.stream.bytes with
  | error error =>
    obtain ⟨failure, hmade, herror, hserved⟩ :=
      Reader.ofBuffer_of_refused buffer hlimit hdecode
    rw [hempty, Nat.sub_zero] at hserved
    rw [hmade]
    refine ⟨?_, hserved⟩
    simp only [ofReader, herror]
    rfl
  | ok decoded =>
    obtain ⟨header, records⟩ := decoded
    obtain ⟨front, hbytes, hlen, _⟩ := Header.decode_ok hdecode
    obtain ⟨reader, hmade, hheader, hfinished, _, hahead, hending, hsize, hserved, hkept⟩ :=
      Reader.ofBuffer_of_ok buffer hlimit hdecode
    obtain ⟨hitems, hread⟩ := Reader.collect_scan hheader hahead hfinished (hkept ▸ hlimit)
    have hlength : source.stream.bytes.length = Header.size + records.length := by
      rw [hbytes, List.length_append, hlen]
    have hextent := extent_add header.byteOrder header.linkType records Header.size
    rw [hempty] at hsize hserved
    rw [hsize, hserved] at hread
    simp only [hmade, ofReader, hitems, splitItems_items, hending, hheader, hlength, hextent]
    cases (scan header.byteOrder header.linkType records).closing header.byteOrder
        source.stream.fault with
    | none =>
      refine ⟨rfl, ?_⟩
      simp only [hread]
      omega
    | some error =>
      refine ⟨rfl, ?_⟩
      simp only [hread]
      omega

theorem ofSource_eq_ofStream (source : Source) (hlimit : source.limit ≠ some 0) :
    (ofSource source).1 = (ofStream source.stream).1 ∧
      (ofSource source).2.served = source.served + (ofStream source.stream).2 := by
  rw [ofSource_eq_ofReader]
  exact ofReader_ofSource defaultCapacity source hlimit

theorem ofSource_fresh (bytes : Bytes) {limit : Option Nat} (hlimit : limit ≠ some 0) :
    (ofSource (Source.fresh limit [] bytes)).1 = (ofBytes bytes).1 := by
  rw [(ofSource_eq_ofStream _ hlimit).1, Source.stream_fresh, ofStream_of_end]

/-- A source without events is read, by a reader of any capacity and in reads of any size, as its
bytes are decoded in memory. -/
theorem read_eq_ofBytes (bytes : Bytes) (limit : Option Nat) (capacity : Nat)
    (hlimit : limit ≠ some 0) :
    let source := Source.fresh limit [] bytes
    let made := ofReader (Reader.ofSource capacity source)
    (made.1, made.2.served) = ofBytes bytes ∧
      ofSource source = ofReader (Reader.ofSource defaultCapacity source) := by
  intro source made
  have hstream : source.stream = ⟨bytes, none⟩ := Source.stream_fresh limit bytes
  obtain ⟨hfound, hserved⟩ := ofReader_ofSource capacity source hlimit
  rw [hstream, ofStream_of_end] at hfound hserved
  refine ⟨Prod.ext hfound ?_, ofSource_eq_ofReader source⟩
  rw [hserved]
  exact Nat.zero_add _

/-- A little-endian trace of one record of two bytes, cut in the header of its second record. -/
def cutTrace : Bytes := [
  0xd4, 0xc3, 0xb2, 0xa1, 2, 0, 4, 0, 0, 0, 0, 0, 0, 0, 0, 0, 0xff, 0xff, 0, 0, 101, 0, 0, 0,
  10, 0, 0, 0, 0x40, 0x42, 0x0f, 0, 2, 0, 0, 0, 60, 0, 0, 0, 0xde, 0xad,
  11, 0, 0]

theorem ofBytes_cutTrace : ofBytes cutTrace = (.error {
    header := some ⟨.littleEndian, 2, 4, 0, 0, 65535, ⟨101⟩⟩
    frames := [⟨⟨11, 0, by decide⟩, 2, 60, .unknown [0xde, 0xad]⟩]
    error := .insufficientLength }, 45) := by
  have hheader : Header.decode.run cutTrace =
    .ok (⟨.littleEndian, 2, 4, 0, 0, 65535, ⟨101⟩⟩, cutTrace.drop 24) := rfl
  have hframe : (Frame.decode .littleEndian ⟨101⟩).run (cutTrace.drop 24) =
    .ok (⟨⟨11, 0, by decide⟩, 2, 60, .unknown [0xde, 0xad]⟩, [11, 0, 0]) := rfl
  have hcut : (Frame.decode .littleEndian ⟨101⟩).run [11, 0, 0] = .error .insufficientLength := rfl
  rw [ofBytes, hheader]
  simp only [scan_of_ok hframe, scan_of_error (by decide) hcut]
  rfl

theorem read_cutTrace : (some 3 : Option Nat) ≠ some 0 ∧
    (ofReader (Reader.ofSource 0 (Source.fresh (some 3) [] cutTrace))).1 = .error {
      header := some ⟨.littleEndian, 2, 4, 0, 0, 65535, ⟨101⟩⟩
      frames := [⟨⟨11, 0, by decide⟩, 2, 60, .unknown [0xde, 0xad]⟩]
      error := .insufficientLength } ∧
    (ofReader (Reader.ofSource 0 (Source.fresh (some 3) [] cutTrace))).2.served = 45 := by
  have hlimit : (some 3 : Option Nat) ≠ some 0 := by decide
  have hread := (read_eq_ofBytes cutTrace (some 3) 0 hlimit).1
  rw [ofBytes_cutTrace] at hread
  exact ⟨hlimit, congrArg Prod.fst hread, congrArg Prod.snd hread⟩

end PacketCapture.Trace
