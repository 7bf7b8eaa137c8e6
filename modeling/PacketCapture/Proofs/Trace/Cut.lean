import PacketCapture.Proofs.Trace.Streaming

/-! # Traces that stop early

Where a source ends or fails, every record that lies before that point has given its frame and no
other has. The trace is whole just where the point is a boundary between records.
-/
namespace PacketCapture.Trace

/-- The offsets at which the records of the frames end, the first of them beginning at `start`. -/
def recordEnds : Nat → List Frame → List Nat
  | _, [] => []
  | start, frame :: frames =>
    (start + frame.recordLength) :: recordEnds (start + frame.recordLength) frames

def boundaries (start : Nat) (frames : List Frame) : List Nat := start :: recordEnds start frames

def lastBoundary (start : Nat) (frames : List Frame) : Nat :=
  (boundaries start frames).getLast (List.cons_ne_nil _ _)

def framesBy (k start : Nat) (frames : List Frame) : List Frame :=
  ((frames.zip (recordEnds start frames)).filter fun ended => ended.2 ≤ k).map Prod.fst

theorem le_of_mem_boundaries {start stop : Nat} {frames : List Frame}
    (h : stop ∈ boundaries start frames) : start ≤ stop := by
  induction frames generalizing start with
  | nil =>
    obtain rfl : stop = start := by simpa [boundaries, recordEnds] using h
    exact Nat.le_refl _
  | cons frame frames ih =>
    rcases List.mem_cons.mp h with rfl | hmem
    · exact Nat.le_refl _
    · have hle := ih hmem
      omega

theorem framesBy_of_lt {k start : Nat} (frames : List Frame) (h : k < start) :
    framesBy k start frames = [] := by
  rw [framesBy, List.map_eq_nil_iff, List.filter_eq_nil_iff]
  rintro ⟨frame, stop⟩ hmem
  have hstop := le_of_mem_boundaries (List.mem_cons_of_mem _ (List.of_mem_zip hmem).2)
  simp only [decide_eq_true_eq]
  omega

theorem framesBy_cons {k start : Nat} {frame : Frame} {frames : List Frame} :
    framesBy k start (frame :: frames) = if start + frame.recordLength ≤ k then
      frame :: framesBy k (start + frame.recordLength) frames else [] := by
  by_cases hle : start + frame.recordLength ≤ k
  · simp [framesBy, recordEnds, hle]
  · have hrest := framesBy_of_lt frames (Nat.lt_of_not_le hle)
    rw [if_neg hle]
    simpa [framesBy, recordEnds, hle] using hrest

theorem lastBoundary_le (order : ByteOrder) (linkType : LinkType) (bytes : Bytes) (start : Nat) :
    lastBoundary start (scan order linkType bytes).frames ≤ start + bytes.length := by
  fun_induction scan order linkType bytes generalizing start with
  | case1 => exact Nat.le_refl _
  | case2 bytes hne error hrun => exact Nat.le_add_right _ _
  | case3 bytes hne frame rest hrun found =>
    rename_i ih
    have hle := ih (start + frame.recordLength)
    have hlen := Frame.length_of_decode hrun
    change lastBoundary (start + frame.recordLength) (scan order linkType rest).frames ≤ _
    omega

theorem cut_record {order : ByteOrder} {linkType : LinkType} {bytes rest : Bytes} {frame : Frame}
    (h : (Frame.decode order linkType).run bytes = .ok (frame, rest)) {n : Nat}
    (hn : n < frame.recordLength) :
    (Frame.decode order linkType).run (bytes.take n) = .error .insufficientLength ∧
      wholeLength? order (bytes.take n) = none := by
  obtain ⟨hwhole, record, rfl, hlen⟩ := Frame.whole_of_decode h
  constructor
  · obtain ⟨used, hused, _, hcut⟩ := Frame.delimited_decode order linkType h
    obtain rfl := List.append_cancel_right hused
    rw [List.take_append_of_le_length (by omega)]
    exact hcut n (by omega)
  · cases hshort : wholeLength? order ((record ++ rest).take n) with
    | none => rfl
    | some length =>
      obtain ⟨hle, hall⟩ := wholeLength?_append hshort ((record ++ rest).drop n)
      rw [List.take_append_drop, hwhole] at hall
      cases hall
      rw [List.length_take] at hle
      omega

/-- A scan of the first bytes finds the frames of the records among them, and fails for want of bytes
unless they end on a boundary. -/
theorem scan_take (order : ByteOrder) (linkType : LinkType) (bytes : Bytes) (start n : Nat)
    (hn : start + n ≤ lastBoundary start (scan order linkType bytes).frames) :
    (scan order linkType (bytes.take n)).frames =
        framesBy (start + n) start (scan order linkType bytes).frames ∧
      (start + n ∈ boundaries start (scan order linkType bytes).frames →
        (scan order linkType (bytes.take n)).failure = none) ∧
      (start + n ∉ boundaries start (scan order linkType bytes).frames →
        ∃ left, wholeLength? order left = none ∧
          (scan order linkType (bytes.take n)).failure = some (.insufficientLength, left)) := by
  fun_induction scan order linkType bytes generalizing start n with
  | case1 =>
    have hle : start + n ≤ start := hn
    obtain rfl : n = 0 := by omega
    simp [framesBy, boundaries]
  | case2 bytes hne error hrun =>
    have hle : start + n ≤ start := hn
    obtain rfl : n = 0 := by omega
    simp [framesBy, boundaries]
  | case3 bytes hne frame rest hrun found =>
    rename_i ih
    have hbounds : boundaries start (frame :: found.frames) =
      start :: boundaries (start + frame.recordLength) found.frames := rfl
    rw [framesBy_cons, hbounds]
    by_cases hlt : n < frame.recordLength
    · have hlate : ¬ start + frame.recordLength ≤ start + n := by omega
      have hafter : start + n ∉ boundaries (start + frame.recordLength) found.frames :=
        fun hmem => hlate (le_of_mem_boundaries hmem)
      rw [if_neg hlate, List.mem_cons, or_iff_left hafter]
      by_cases hzero : n = 0
      · subst hzero
        simp
      · have hnil : bytes.take n ≠ [] := by
          rw [ne_eq, List.take_eq_nil_iff]
          exact not_or.mpr ⟨hzero, hne⟩
        obtain ⟨hcut, hshort⟩ := cut_record hrun hlt
        rw [scan_of_error hnil hcut]
        refine ⟨rfl, ?_, fun _ => ⟨_, hshort, rfl⟩⟩
        intro hstart
        omega
    · have hby : start + frame.recordLength ≤ start + n := by omega
      have hsum : start + frame.recordLength + (n - frame.recordLength) = start + n := by omega
      have hpos := frame.recordLength_pos
      have hstart : ¬ start + n = start := by omega
      obtain ⟨_, record, rfl, hlen⟩ := Frame.whole_of_decode hrun
      obtain ⟨used, hused, hreads, _⟩ := Frame.delimited_decode order linkType hrun
      obtain rfl := List.append_cancel_right hused
      have htake : (record ++ rest).take n = record ++ rest.take (n - frame.recordLength) := by
        rw [List.take_append, List.take_of_length_le (by omega), hlen]
      obtain ⟨hframes, hwhole, hcut⟩ := ih (start + frame.recordLength) (n - frame.recordLength)
        (by rw [hsum]; exact hn)
      rw [hsum] at hframes hwhole hcut
      rw [if_pos hby, htake, scan_of_ok (hreads _), List.mem_cons, or_iff_right hstart, hframes]
      exact ⟨rfl, hwhole, hcut⟩

/-- The error after the frames, if any, of a trace that ends or fails at offset `k`. -/
def cutError (frames : List Frame) (k : Nat) : Option Fault → Option DecodeError
  | some fault => some (.source fault)
  | none =>
    if k ∈ boundaries Header.size frames then none
    else if 4 ≤ k ∧ k < Header.size then some .unexpectedEnd
    else some .insufficientLength

theorem ofStream_take_of_lt {bytes records : Bytes} {header : Header} {k : Nat}
    (hheader : Header.decode.run bytes = .ok (header, records)) (frames : List Frame)
    (ending : Option Fault) (hk : k < Header.size) :
    ∃ error, cutError frames k ending = some error ∧ ofStream ⟨bytes.take k, ending⟩ =
      (.error { header := none, frames := [], error }, k) := by
  obtain ⟨front, rfl, hlen, _, hcut⟩ := Header.decode_ok hheader
  have htake : (front ++ records).take k = front.take k :=
    List.take_append_of_le_length (by omega)
  have hlength : (front.take k).length = k := List.length_take_of_le (by omega)
  have hout : k ∉ boundaries Header.size frames := fun hmem => by
    have hle := le_of_mem_boundaries hmem
    omega
  rw [ofStream, htake, hcut k hk]
  simp only [hlength, if_pos hk, Nat.min_eq_right (Nat.le_of_lt hk)]
  cases ending with
  | some fault => exact ⟨_, rfl, rfl⟩
  | none =>
    by_cases hfour : k < 4
    · have hmagic : ¬ 4 ≤ k := by omega
      simp [cutError, hout, hfour, hmagic]
    · have hmagic : 4 ≤ k := by omega
      simp [cutError, hout, hfour, hmagic, hk]

theorem ofStream_take_of_le {bytes records : Bytes} {header : Header} {frames : List Frame}
    {k : Nat} (hheader : Header.decode.run bytes = .ok (header, records))
    (hframes : (scan header.byteOrder header.linkType records).frames = frames)
    (ending : Option Fault) (hle : Header.size ≤ k) (hk : k ≤ lastBoundary Header.size frames) :
    ofStream ⟨bytes.take k, ending⟩ =
      (match cutError frames k ending with
        | none => .ok { header, frames := framesBy k Header.size frames }
        | some error =>
          .error { header := some header, frames := framesBy k Header.size frames, error }, k) := by
  obtain ⟨front, rfl, hlen, hreads, _⟩ := Header.decode_ok hheader
  subst hframes
  have hsum : Header.size + (k - Header.size) = k := by omega
  have hlast := lastBoundary_le header.byteOrder header.linkType records Header.size
  have htake : (front ++ records).take k = front ++ records.take (k - Header.size) := by
    rw [List.take_append, List.take_of_length_le (by omega), hlen]
  have hlength : (front ++ records.take (k - Header.size)).length = k := by
    rw [List.length_append, List.length_take, hlen]
    omega
  obtain ⟨hfound, hwhole, hcut⟩ := scan_take header.byteOrder header.linkType records
    Header.size (k - Header.size) (by rw [hsum]; exact hk)
  rw [hsum] at hfound hwhole hcut
  rw [ofStream, htake, hreads]
  simp only [hlength, hfound]
  by_cases hmem : k ∈ boundaries Header.size (scan header.byteOrder header.linkType records).frames
  · have hnone := hwhole hmem
    cases ending with
    | some fault => simp [Scan.closing, Scan.extent, hnone, cutError]
    | none => simp [Scan.closing, Scan.extent, hnone, cutError, hmem]
  · obtain ⟨left, hshort, hsome⟩ := hcut hmem
    have hleft := length_le_of_failure hsome
    have hextent : k - left.length + left.length = k := by
      rw [List.length_take] at hleft
      omega
    have hpast : ¬ (4 ≤ k ∧ k < Header.size) := by omega
    cases ending with
    | some fault => simp [Scan.closing, Scan.extent, hsome, hshort, shortfall, cutError, hextent]
    | none =>
      simp [Scan.closing, Scan.extent, hsome, hshort, shortfall, cutError, hextent, hmem, hpast]

theorem lastBoundary_le_length {bytes records : Bytes} {header : Header}
    (hheader : Header.decode.run bytes = .ok (header, records)) :
    lastBoundary Header.size (scan header.byteOrder header.linkType records).frames ≤
      bytes.length := by
  obtain ⟨front, rfl, hlen, _⟩ := Header.decode_ok hheader
  rw [List.length_append, hlen]
  exact lastBoundary_le header.byteOrder header.linkType records Header.size

def foundFrames : Except PartialTrace Trace → List Frame
  | .ok trace => trace.frames
  | .error found => found.frames

theorem foundFrames_ofStream {bytes records : Bytes} {header : Header}
    (hheader : Header.decode.run bytes = .ok (header, records)) (ending : Option Fault) :
    foundFrames (ofStream ⟨bytes, ending⟩).1 =
      (scan header.byteOrder header.linkType records).frames := by
  rw [ofStream, hheader]
  dsimp only
  cases (scan header.byteOrder header.linkType records).closing header.byteOrder ending with
  | none => rfl
  | some error => rfl

theorem ofStream_take {bytes records : Bytes} {header : Header} {frames : List Frame} {k : Nat}
    (hheader : Header.decode.run bytes = .ok (header, records))
    (hframes : (scan header.byteOrder header.linkType records).frames = frames)
    (ending : Option Fault) (hk : k ≤ lastBoundary Header.size frames) :
    ofStream ⟨bytes.take k, ending⟩ =
      (match cutError frames k ending with
        | none => .ok { header, frames := framesBy k Header.size frames }
        | some error => .error {
            header := if k < Header.size then none else some header
            frames := framesBy k Header.size frames
            error }, k) := by
  by_cases hlt : k < Header.size
  · obtain ⟨error, herror, hread⟩ := ofStream_take_of_lt hheader frames ending hlt
    rw [hread, herror, framesBy_of_lt frames hlt]
    simp only [if_pos hlt]
  · rw [ofStream_take_of_le hheader hframes ending (Nat.le_of_not_lt hlt) hk]
    simp only [if_neg hlt]

/-- Wherever a source ends or fails up to the end of the last frame of its trace, no frame before is
lost and none is made up: the end is clean between records and an error anywhere else, and a fault
is reported as it is. -/
theorem read_stopped (bytes records : Bytes) (header : Header) (limit : Option Nat) (k : Nat)
    (hlimit : limit ≠ some 0) (hheader : Header.decode.run bytes = .ok (header, records))
    (hk : k ≤ lastBoundary Header.size
      (foundFrames (ofSource (Source.fresh limit [] bytes)).1)) :
    let frames := foundFrames (ofSource (Source.fresh limit [] bytes)).1
    (∀ source ∈ [Source.fresh limit [] (bytes.take k), Source.fresh limit [⟨k, none⟩] bytes],
      (ofSource source).1 =
        if k ∈ boundaries Header.size frames then
          .ok { header, frames := framesBy k Header.size frames }
        else .error {
          header := if k < Header.size then none else some header
          frames := framesBy k Header.size frames
          error := if 4 ≤ k ∧ k < Header.size then .unexpectedEnd else .insufficientLength }) ∧
    ∀ fault : Fault, fault.kind ≠ .interrupted →
      (ofSource (Source.fresh limit [⟨k, some fault⟩] bytes)).1 = .error {
        header := if k < Header.size then none else some header
        frames := framesBy k Header.size frames
        error := .source fault } ∧
      (ofSource (Source.fresh limit [⟨k, some fault⟩] bytes)).2.served = k := by
  have hframes : foundFrames (ofSource (Source.fresh limit [] bytes)).1 =
      (scan header.byteOrder header.linkType records).frames := by
    rw [(ofSource_eq_ofStream _ hlimit).1, Source.stream_fresh]
    exact foundFrames_ofStream hheader none
  generalize foundFrames (ofSource (Source.fresh limit [] bytes)).1 = frames at hk hframes ⊢
  dsimp only
  have hlen : k ≤ bytes.length := Nat.le_trans hk (hframes ▸ lastBoundary_le_length hheader)
  constructor
  · intro source hsource
    have hstream : source.stream = ⟨bytes.take k, none⟩ ∧ source.limit = limit := by
      simp only [List.mem_cons, List.not_mem_nil, or_false] at hsource
      rcases hsource with rfl | rfl
      · exact ⟨Source.stream_fresh limit _, rfl⟩
      · exact ⟨Source.stream_fresh_event limit (by simp) hlen, rfl⟩
    rw [(ofSource_eq_ofStream source (hstream.2 ▸ hlimit)).1, hstream.1,
      ofStream_take hheader hframes.symm none hk]
    by_cases hmem : k ∈ boundaries Header.size frames
    · simp only [cutError, if_pos hmem]
    · by_cases hmagic : 4 ≤ k ∧ k < Header.size
      · simp only [cutError, if_neg hmem, if_pos hmagic]
      · simp only [cutError, if_neg hmem, if_neg hmagic]
  · intro fault hkind
    have hstream : (Source.fresh limit [⟨k, some fault⟩] bytes).stream =
        ⟨bytes.take k, some fault⟩ := Source.stream_fresh_event limit (by simpa) hlen
    obtain ⟨hfound, hserved⟩ := ofSource_eq_ofStream
      (Source.fresh limit [⟨k, some fault⟩] bytes) hlimit
    rw [hstream, ofStream_take hheader hframes.symm (some fault) hk] at hfound hserved
    exact ⟨hfound, hserved.trans (Nat.zero_add k)⟩

theorem foundFrames_cutTrace : foundFrames (ofSource (Source.fresh (some 3) [] cutTrace)).1 =
    [⟨⟨11, 0, by decide⟩, 2, 60, .unknown [0xde, 0xad]⟩] := by
  have hlimit : (Source.fresh (some 3) [] cutTrace).limit ≠ some 0 := by decide
  rw [(ofSource_eq_ofStream _ hlimit).1, Source.stream_fresh, ofStream_of_end, ofBytes_cutTrace]
  rfl

theorem read_stopped_cutTrace : (some 3 : Option Nat) ≠ some 0 ∧
    Header.decode.run cutTrace =
      .ok (⟨.littleEndian, 2, 4, 0, 0, 65535, ⟨101⟩⟩, cutTrace.drop 24) ∧
    42 ≤ lastBoundary Header.size
      (foundFrames (ofSource (Source.fresh (some 3) [] cutTrace)).1) ∧
    (ofSource (Source.fresh (some 3) [⟨42, none⟩] cutTrace)).1 = .ok {
      header := ⟨.littleEndian, 2, 4, 0, 0, 65535, ⟨101⟩⟩
      frames := [⟨⟨11, 0, by decide⟩, 2, 60, .unknown [0xde, 0xad]⟩] } ∧
    (ofSource (Source.fresh (some 3) [⟨42, some ⟨.brokenPipe, "gone"⟩⟩] cutTrace)).1 = .error {
      header := some ⟨.littleEndian, 2, 4, 0, 0, 65535, ⟨101⟩⟩
      frames := [⟨⟨11, 0, by decide⟩, 2, 60, .unknown [0xde, 0xad]⟩]
      error := .source ⟨.brokenPipe, "gone"⟩ } := by
  have hlimit : (some 3 : Option Nat) ≠ some 0 := by decide
  have hheader : Header.decode.run cutTrace =
    .ok (⟨.littleEndian, 2, 4, 0, 0, 65535, ⟨101⟩⟩, cutTrace.drop 24) := rfl
  have hk : 42 ≤ lastBoundary Header.size
      (foundFrames (ofSource (Source.fresh (some 3) [] cutTrace)).1) := by
    rw [foundFrames_cutTrace]
    decide
  have hstopped := read_stopped cutTrace (cutTrace.drop 24) _ (some 3) 42 hlimit hheader hk
  rw [foundFrames_cutTrace] at hstopped
  exact ⟨hlimit, hheader, hk, hstopped.1 _ (by simp), (hstopped.2 _ (by decide)).1⟩

end PacketCapture.Trace
