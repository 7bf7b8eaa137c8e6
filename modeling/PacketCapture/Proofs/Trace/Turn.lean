import PacketCapture.Proofs.Trace.Filling
import PacketCapture.Proofs.Trace.Streaming

/-! # One turn of a reader

One call for the next frame takes bytes from the source for the record in progress only. It consumes
the record if all of it is there, whether or not its layers decode, and nothing otherwise.
-/
namespace PacketCapture.Trace.Reader
variable {p : Nat} {taken more : Bytes} {reader middle after : Reader Source}

/-- `after` is the reader with bytes of its source moved to its buffer. -/
structure Draws (taken : Bytes) (reader after : Reader Source) : Prop where
  header : after.header = reader.header
  consumed : after.consumed = reader.consumed
  finished : after.finished = reader.finished
  moved : Buffer.Draws taken reader.buffer reader.source after.buffer after.source

theorem Draws.trans (h : Draws taken reader middle) (hmore : Draws more middle after) :
    Draws (taken ++ more) reader after :=
  ⟨hmore.header.trans h.header, hmore.consumed.trans h.consumed, hmore.finished.trans h.finished,
    h.moved.trans hmore.moved⟩

theorem draws_of_request {needed : Nat} {fault : Option Fault}
    (h : reader.request needed = (fault, after)) :
    ∃ taken, Draws taken reader after ∧ taken.length ≤ needed - reader.buffer.size ∧
      (fault ≠ none → after.buffer.size < needed) := by
  obtain ⟨taken, hmoved, hle⟩ := Buffer.fill_draws needed reader.buffer reader.source
  obtain ⟨hfault, rfl⟩ := Prod.mk.inj h
  refine ⟨taken, ⟨rfl, rfl, rfl, hmoved⟩, hle, ?_⟩
  intro hne
  obtain ⟨found, hfound⟩ := Option.ne_none_iff_exists'.mp hne
  exact Buffer.size_fill_lt_of_fault (hfault.trans hfound)

/-- The bytes that a reader had to decode from by the time it became `after`. -/
def pulled (reader after : Reader Source) : Bytes :=
  reader.buffer.bytes ++ reader.source.unread.take (after.source.served - reader.source.served)

theorem Draws.pulled_eq (h : Draws taken reader middle)
    (hserved : after.source.served = middle.source.served) :
    reader.pulled after = middle.buffer.bytes := by
  have hlen : after.source.served - reader.source.served = taken.length := by
    rw [hserved, h.moved.served]
    omega
  rw [pulled, hlen, h.moved.unread, List.take_left, h.moved.bytes]

/-- The length of the record in progress as far as it is known: that of its header until the header
is all there. -/
def wanted (reader : Reader Source) : Nat :=
  match (RecordHeader.decode reader.header.byteOrder).run reader.buffer.bytes with
  | .error _ => RecordHeader.size
  | .ok (header, _) => header.recordLength

theorem size_le_wanted (reader : Reader Source) : RecordHeader.size ≤ reader.wanted := by
  unfold wanted
  split
  · exact Nat.le_refl _
  · exact Nat.le_add_right _ _

theorem wanted_of_opens {front : Bytes} {header : RecordHeader}
    (hfront : Opens reader.header.byteOrder front header)
    (hbytes : reader.buffer.bytes = front ++ more) : reader.wanted = header.recordLength := by
  rw [wanted, hbytes, hfront.reads more]

/-- All bytes are accounted for, and none was asked for beyond the record in progress. -/
structure Accounted (p : Nat) (reader : Reader Source) : Prop where
  conserved : p + reader.source.served = reader.consumed + reader.buffer.size
  bounded : reader.buffer.size ≤ max (p - reader.consumed) reader.wanted

theorem Draws.conserved (h : Draws taken reader after)
    (hreader : p + reader.source.served = reader.consumed + reader.buffer.size) :
    p + after.source.served = after.consumed + after.buffer.size := by
  rw [h.moved.served, h.consumed, h.moved.size]
  omega

/-- Between two records nothing is held but what is left of the bytes held at first. -/
structure Settled (p : Nat) (reader : Reader Source) : Prop extends Accounted p reader where
  size : reader.finished = false → reader.buffer.size = p - reader.consumed

theorem Settled.served (h : Settled p reader) (hfinished : reader.finished = false) :
    reader.source.served = reader.consumed - p := by
  have hconserved := h.conserved
  have hsize := h.size hfinished
  omega

structure Opened (reader middle : Reader Source) (header : RecordHeader) : Prop where
  request : reader.request RecordHeader.size = (none, middle)
  opens : Opens middle.header.byteOrder (middle.buffer.front RecordHeader.size) header

/-- What may come of the next record, by the two requests that are made for it. -/
inductive Attempt (reader : Reader Source) : Except DecodeError (Option Frame) → Reader Source → Prop
  | faulted {fault : Fault} {after : Reader Source} :
      reader.request RecordHeader.size = (some fault, after) →
      Attempt reader (.error (.source fault)) after
  | ended {after : Reader Source} : reader.request RecordHeader.size = (none, after) →
      after.buffer.size = 0 → Attempt reader (.ok none) after
  | headless {after : Reader Source} : reader.request RecordHeader.size = (none, after) →
      after.buffer.size < RecordHeader.size → Attempt reader (.error .insufficientLength) after
  | faultedInside {middle after : Reader Source} {header : RecordHeader} {fault : Fault} :
      Opened reader middle header → middle.request header.recordLength = (some fault, after) →
      Attempt reader (.error (.source fault)) after
  | cut {middle after : Reader Source} {header : RecordHeader} : Opened reader middle header →
      middle.request header.recordLength = (none, after) →
      after.buffer.size < header.recordLength → Attempt reader (.error .insufficientLength) after
  | whole {middle after : Reader Source} {header : RecordHeader} : Opened reader middle header →
      middle.request header.recordLength = (none, after) →
      header.recordLength ≤ after.buffer.size →
      Attempt reader ((after.takeRecord header.recordLength).1.map some)
        (after.takeRecord header.recordLength).2

theorem attempt_nextRecord (reader : Reader Source) :
    Attempt reader reader.nextRecord.1 reader.nextRecord.2 := by
  unfold nextRecord
  split
  · rename_i fault middle hfirst
    exact .faulted hfirst
  · rename_i middle hfirst
    by_cases hempty : middle.buffer.size = 0
    · rw [if_pos hempty]
      exact .ended hfirst hempty
    · rw [if_neg hempty, Buffer.front_eq]
      rcases RecordHeader.decode_take middle.header.byteOrder middle.buffer.bytes with
        ⟨hshort, herror⟩ | ⟨_, header, hopens, hok⟩
      · rw [herror]
        exact .headless hfirst hshort
      · rw [hok]
        have hopened : Opened reader middle header := ⟨hfirst, by rwa [Buffer.front_eq]⟩
        dsimp only
        split
        · rename_i fault last hsecond
          exact .faultedInside hopened hsecond
        · rename_i last hsecond
          by_cases hlt : last.buffer.size < header.recordLength
          · rw [if_pos hlt]
            exact .cut hopened hsecond hlt
          · rw [if_neg hlt]
            exact .whole hopened hsecond (Nat.le_of_not_lt hlt)

theorem Settled.accounted_of_draws (h : Settled p reader) (hfinished : reader.finished = false)
    (hdraws : Draws taken reader after)
    (hle : taken.length ≤ RecordHeader.size - reader.buffer.size) : Accounted p after := by
  refine ⟨hdraws.conserved h.conserved, ?_⟩
  have hsize := h.size hfinished
  have hwanted := size_le_wanted after
  rw [hdraws.moved.size, hdraws.consumed]
  omega

namespace Opened
variable {header : RecordHeader}

theorem exists_draws (h : Opened reader middle header) (hdraws : Draws more middle after) :
    ∃ taken, Draws (taken ++ more) reader after ∧
      taken.length ≤ RecordHeader.size - reader.buffer.size ∧
      middle.buffer.size = reader.buffer.size + taken.length := by
  obtain ⟨taken, hfirst, hle, _⟩ := draws_of_request h.request
  exact ⟨taken, hfirst.trans hdraws, hle, hfirst.moved.size⟩

theorem front_append (h : Opened reader middle header) (hdraws : Draws more middle after) :
    ∃ front rest, Opens after.header.byteOrder front header ∧ after.buffer.bytes = front ++ rest := by
  refine ⟨_, middle.buffer.bytes.drop RecordHeader.size ++ more, hdraws.header ▸ h.opens, ?_⟩
  rw [hdraws.moved.bytes, Buffer.front_eq, ← List.append_assoc, List.take_append_drop]

theorem accounted (h : Opened reader middle header) (hreader : Settled p reader)
    (hfinished : reader.finished = false) (hdraws : Draws more middle after)
    (hle : more.length ≤ header.recordLength - middle.buffer.size) : Accounted p after := by
  obtain ⟨front, rest, hopens, hbytes⟩ := h.front_append hdraws
  obtain ⟨taken, hall, hfirst, hmiddle⟩ := h.exists_draws hdraws
  refine ⟨hall.conserved hreader.conserved, ?_⟩
  have hsize := hreader.size hfinished
  have hlength : RecordHeader.size ≤ header.recordLength := Nat.le_add_right _ _
  rw [wanted_of_opens hopens hbytes, hall.moved.size, hall.consumed, List.length_append]
  omega

end Opened

theorem Accounted.finish (h : Accounted p reader) : Settled p { reader with finished := true } :=
  ⟨⟨h.conserved, h.bounded⟩, Bool.noConfusion⟩

/-- What one call for the next frame does: the frame that it yields is decoded from a record that is
all there, and so is a record whose layers fail. Only these are consumed. -/
inductive Turn (p : Nat) (reader after : Reader Source) : Option (Except DecodeError Frame) → Prop
  | idle : reader.finished = true → after = reader → Turn p reader after none
  | ended : reader.pulled after = [] → after.finished = true → after.consumed = reader.consumed →
      p + after.source.served = after.consumed → Turn p reader after none
  | frame {frame : Frame} :
      (Frame.decode reader.header.byteOrder reader.header.linkType).run (reader.pulled after) =
        .ok (frame, after.buffer.bytes) →
      after.finished = false →
      after.consumed = reader.consumed + (16 + frame.capturedLength.toNat) →
      after.source.served = after.consumed - p → Turn p reader after (some (.ok frame))
  | undecodable {length : Nat} {error : DecodeError} :
      wholeLength? reader.header.byteOrder (reader.pulled after) = some length →
      (Frame.decode reader.header.byteOrder reader.header.linkType).run (reader.pulled after) =
        .error error →
      after.finished = true → after.consumed = reader.consumed + length →
      after.source.served = after.consumed - p → Turn p reader after (some (.error error))
  | stopped {error : DecodeError} :
      wholeLength? reader.header.byteOrder (reader.pulled after) = none →
      (error = .insufficientLength ∨ ∃ fault, error = .source fault) →
      after.finished = true → after.consumed = reader.consumed →
      Turn p reader after (some (.error error))

/-- The next record is not all there by the time that the reader has become `after`. -/
structure CutShort (p : Nat) (reader after : Reader Source) : Prop where
  whole : wholeLength? reader.header.byteOrder (reader.pulled after) = none
  consumed : after.consumed = reader.consumed
  accounted : Accounted p after

theorem cutShort_of_opening {fault : Option Fault} (h : Settled p reader)
    (hfinished : reader.finished = false)
    (hrequest : reader.request RecordHeader.size = (fault, after))
    (hshort : after.buffer.size < RecordHeader.size) : CutShort p reader after := by
  obtain ⟨taken, hdraws, hle, _⟩ := draws_of_request hrequest
  refine ⟨?_, hdraws.consumed, h.accounted_of_draws hfinished hdraws hle⟩
  rw [hdraws.pulled_eq rfl]
  exact wholeLength?_of_headless hshort

theorem Opened.cutShort {header : RecordHeader} {fault : Option Fault}
    (h : Opened reader middle header) (hreader : Settled p reader)
    (hfinished : reader.finished = false)
    (hrequest : middle.request header.recordLength = (fault, after))
    (hshort : after.buffer.size < header.recordLength) : CutShort p reader after := by
  obtain ⟨more, hdraws, hle, _⟩ := draws_of_request hrequest
  obtain ⟨front, rest, hopens, hbytes⟩ := h.front_append hdraws
  obtain ⟨taken, hall, _⟩ := h.exists_draws hdraws
  refine ⟨?_, hall.consumed, h.accounted hreader hfinished hdraws hle⟩
  rw [hall.pulled_eq rfl, hbytes, ← hall.header]
  refine wholeLength?_of_cut hopens ?_
  rw [← Buffer.length_bytes, hbytes, List.length_append, hopens.length,
    RecordHeader.recordLength] at hshort
  omega

theorem CutShort.turn {last : Reader Source} {error : DecodeError}
    {item : Option (Except DecodeError Frame)} (h : CutShort p reader last)
    (hfinished : reader.finished = false) (hrecord : reader.nextRecord = (.error error, last))
    (herror : error = .insufficientLength ∨ ∃ fault, error = .source fault)
    (hnext : reader.next = (item, after)) : Turn p reader after item ∧ Settled p after := by
  rw [next_of_error hfinished hrecord] at hnext
  cases hnext
  exact ⟨.stopped h.whole herror rfl h.consumed, h.accounted.finish⟩

structure Whole (p length : Nat) (reader last : Reader Source) : Prop where
  header : last.header = reader.header
  consumed : last.consumed = reader.consumed
  finished : last.finished = false
  pulled : reader.pulled last = last.buffer.bytes
  whole : wholeLength? last.header.byteOrder last.buffer.bytes = some length
  conserved : p + last.source.served = last.consumed + last.buffer.size
  size : last.buffer.size = max (p - reader.consumed) length

theorem Opened.whole {last : Reader Source} {header : RecordHeader}
    (h : Opened reader middle header) (hreader : Settled p reader)
    (hfinished : reader.finished = false)
    (hrequest : middle.request header.recordLength = (none, last))
    (hle : header.recordLength ≤ last.buffer.size) : Whole p header.recordLength reader last := by
  obtain ⟨more, hdraws, hmore, _⟩ := draws_of_request hrequest
  obtain ⟨front, rest, hopens, hbytes⟩ := h.front_append hdraws
  obtain ⟨taken, hall, htaken, hmiddle⟩ := h.exists_draws hdraws
  refine ⟨hall.header, hall.consumed, hall.finished.trans hfinished, hall.pulled_eq rfl, ?_,
    hall.conserved hreader.conserved, ?_⟩
  · rw [hbytes]
    refine wholeLength?_of_opens hopens ?_
    rwa [← hbytes, Buffer.length_bytes]
  · have hsize := hreader.size hfinished
    have hlast := hall.moved.size
    have hlength : RecordHeader.size ≤ header.recordLength := Nat.le_add_right _ _
    rw [List.length_append] at hlast
    omega

theorem Whole.settled {length : Nat} {last : Reader Source} (h : Whole p length reader last) :
    Settled p (last.takeRecord length).2 := by
  have hsize : (last.takeRecord length).2.buffer.size = last.buffer.size - length :=
    Buffer.size_consume _ _
  have hconsumed : (last.takeRecord length).2.consumed = last.consumed + length := rfl
  have hserved : (last.takeRecord length).2.source = last.source := rfl
  have hconserved := h.conserved
  have hlast := h.size
  have hfirst := h.consumed
  refine ⟨⟨?_, ?_⟩, fun _ => ?_⟩
  · rw [hserved, hsize, hconsumed]
    omega
  · rw [hsize, hconsumed]
    omega
  · rw [hsize, hconsumed]
    omega

theorem Whole.turn {length : Nat} {last : Reader Source} {item : Option (Except DecodeError Frame)}
    (h : Whole p length reader last) (hfinished : reader.finished = false)
    (hrecord : reader.nextRecord = ((last.takeRecord length).1.map some, (last.takeRecord length).2))
    (hnext : reader.next = (item, after)) : Turn p reader after item ∧ Settled p after := by
  have hsettled := h.settled
  have hconsumed : (last.takeRecord length).2.consumed = reader.consumed + length :=
    congrArg (· + length) h.consumed
  have hserved := hsettled.served h.finished
  have hpulled : reader.pulled (last.takeRecord length).2 = last.buffer.bytes := h.pulled
  have hdecode := Frame.decode_of_wholeLength? last.header.linkType h.whole
  have htaken : (last.takeRecord length).1 = ((Frame.decode last.header.byteOrder
      last.header.linkType).run (last.buffer.bytes.take length)).map Prod.fst := by
    rw [← Buffer.front_eq]
    rfl
  -- the record's bytes decode by themselves just as they do with more behind them
  cases hrun : (Frame.decode last.header.byteOrder last.header.linkType).run
      (last.buffer.bytes.take length) with
  | error error =>
    rw [hrun] at htaken hdecode
    rw [htaken] at hrecord
    rw [next_of_error hfinished hrecord] at hnext
    cases hnext
    refine ⟨.undecodable ?_ ?_ rfl hconsumed hserved, ?_⟩
    · exact h.header ▸ hpulled ▸ h.whole
    · exact h.header ▸ hpulled ▸ hdecode
    · exact (Settled.toAccounted hsettled).finish
  | ok found =>
    obtain ⟨frame, left⟩ := found
    rw [hrun] at htaken hdecode
    rw [htaken] at hrecord
    rw [next_of_frame hfinished hrecord] at hnext
    cases hnext
    have hlength : length = frame.recordLength :=
      Option.some.inj (h.whole.symm.trans (Frame.whole_of_decode hdecode).1)
    refine ⟨.frame ?_ h.finished (hlength ▸ hconsumed) hserved, hsettled⟩
    rw [← h.header, hpulled, hdecode]
    exact congrArg (fun rest => Except.ok (frame, rest)) (Buffer.bytes_consume _ _).symm

theorem turn_of_next {item : Option (Except DecodeError Frame)} (h : Settled p reader)
    (hnext : reader.next = (item, after)) : Turn p reader after item ∧ Settled p after := by
  cases hfinished : reader.finished with
  | true =>
    rw [next_of_finished hfinished] at hnext
    cases hnext
    exact ⟨.idle hfinished rfl, h⟩
  | false =>
    have hattempt := attempt_nextRecord reader
    rcases hrecord : reader.nextRecord with ⟨result, last⟩
    rw [hrecord] at hattempt
    dsimp only at hattempt
    cases hattempt with
    | @faulted fault _ hrequest =>
      obtain ⟨_, _, _, hshort⟩ := draws_of_request hrequest
      exact (cutShort_of_opening h hfinished hrequest (hshort nofun)).turn hfinished hrecord
        (.inr ⟨fault, rfl⟩) hnext
    | headless hrequest hshort =>
      exact (cutShort_of_opening h hfinished hrequest hshort).turn hfinished hrecord
        (.inl rfl) hnext
    | @faultedInside middle _ header fault hopened hrequest =>
      obtain ⟨_, _, _, hshort⟩ := draws_of_request hrequest
      exact (hopened.cutShort h hfinished hrequest (hshort nofun)).turn hfinished hrecord
        (.inr ⟨fault, rfl⟩) hnext
    | cut hopened hrequest hshort =>
      exact (hopened.cutShort h hfinished hrequest hshort).turn hfinished hrecord
        (.inl rfl) hnext
    | ended hrequest hempty =>
      obtain ⟨taken, hdraws, hle, _⟩ := draws_of_request hrequest
      have haccounted := h.accounted_of_draws hfinished hdraws hle
      have hconserved := haccounted.conserved
      rw [next_of_end hfinished hrecord] at hnext
      cases hnext
      refine ⟨.ended ?_ rfl hdraws.consumed ?_, haccounted.finish⟩
      · exact (hdraws.pulled_eq rfl).trans (List.eq_nil_of_length_eq_zero hempty)
      · rw [hconserved, hempty]
        rfl
    | whole hopened hrequest hle =>
      exact (hopened.whole h hfinished hrequest hle).turn hfinished hrecord hnext

end PacketCapture.Trace.Reader
