import PacketCapture.Proofs.Trace.Turn
import PacketCapture.Trace.Session

/-! # The bytes a reader accounts for

Whatever operations a reader performs, every byte held at first or served by the source is either
consumed or still held, and no byte is asked for beyond the record in progress.
-/
namespace PacketCapture.Trace.Reader
variable {p : Nat} {reader after moment : Reader Source}

/-- What the reader is while it sees to its next record: between the reads for the record's header,
between those for the rest of it, and when it is done. -/
inductive Moment (reader : Reader Source) : Reader Source → Prop
  | opening {held : Buffer} {current : Source} : reader.finished = false →
      Buffer.Reaches RecordHeader.size reader.buffer reader.source held current →
      Moment reader { reader with buffer := held, source := current }
  | inside {middle : Reader Source} {header : RecordHeader} {held : Buffer} {current : Source} :
      reader.finished = false → Opened reader middle header →
      Buffer.Reaches header.recordLength middle.buffer middle.source held current →
      Moment reader { middle with buffer := held, source := current }
  | done : Moment reader reader.next.2

theorem Settled.accounted (h : Settled p reader) (hmoment : Moment reader moment) :
    Accounted p moment := by
  cases hmoment with
  | opening hfinished hreaches =>
    obtain ⟨taken, hmoved, hle⟩ := hreaches.draws
    exact h.accounted_of_draws hfinished ⟨rfl, rfl, rfl, hmoved⟩ hle
  | inside hfinished hopened hreaches =>
    obtain ⟨more, hmoved, hle⟩ := hreaches.draws
    exact hopened.accounted h hfinished ⟨rfl, rfl, rfl, hmoved⟩ hle
  | done =>
    obtain ⟨_, hsettled⟩ := turn_of_next h rfl
    exact hsettled.toAccounted

/-- One call for the next frame, at every moment of which all bytes consumed were held at first or
served and no byte was served beyond the record in progress. -/
structure Call (p : Nat) (reader after : Reader Source) (item : Option (Except DecodeError Frame)) :
    Prop where
  turn : Turn p reader after item
  moments : ∀ moment, Moment reader moment → moment.consumed ≤ p + moment.source.served ∧
    moment.source.served ≤ moment.consumed + moment.wanted - p

inductive Calls (p : Nat) : Reader Source → Reader Source → List (Except DecodeError Frame) → Prop
  | none {reader after : Reader Source} : Call p reader after none → Calls p reader after []
  | error {reader after : Reader Source} {error : DecodeError} :
      Call p reader after (some (.error error)) → Calls p reader after [.error error]
  | frame {reader middle after : Reader Source} {frame : Frame}
      {items : List (Except DecodeError Frame)} : Call p reader middle (some (.ok frame)) →
      Calls p middle after items → Calls p reader after (.ok frame :: items)

theorem call_of_next {item : Option (Except DecodeError Frame)} (h : Settled p reader)
    (hnext : reader.next = (item, after)) : Call p reader after item ∧ Settled p after := by
  obtain ⟨hturn, hsettled⟩ := turn_of_next h hnext
  refine ⟨⟨hturn, fun moment hmoment => ?_⟩, hsettled⟩
  have haccounted := h.accounted hmoment
  have hconserved := haccounted.conserved
  have hbounded := haccounted.bounded
  omega

theorem calls_of_collect (h : Settled p reader) :
    Calls p reader reader.collect.2 reader.collect.1 ∧ Settled p reader.collect.2 := by
  fun_induction collect reader with
  | case1 reader after hnext =>
    obtain ⟨hcall, hafter⟩ := call_of_next h hnext
    exact ⟨.none hcall, hafter⟩
  | case2 reader error after hnext =>
    obtain ⟨hcall, hafter⟩ := call_of_next h hnext
    exact ⟨.error hcall, hafter⟩
  | case3 reader frame middle hnext items last hcollect ih =>
    obtain ⟨hcall, hmiddle⟩ := call_of_next h hnext
    rw [hcollect] at ih
    obtain ⟨hcalls, hlast⟩ := ih hmiddle
    exact ⟨.frame hcall hcalls, hlast⟩

inductive Performed (p : Nat) (reader : Reader Source) :
    Operation → Answer → Reader Source → Prop
  | header : Performed p reader .header (.header reader.header) reader
  | next {item : Option (Except DecodeError Frame)} {after : Reader Source} :
      Call p reader after item → Performed p reader .next (.item item) after
  | collect {items : List (Except DecodeError Frame)} {after : Reader Source} :
      Calls p reader after items → Performed p reader .collect (.items items) after

theorem performed_of_settled (h : Settled p reader) (operation : Operation) :
    Performed p reader operation (reader.perform operation).1 (reader.perform operation).2 ∧
      Settled p (reader.perform operation).2 := by
  cases operation with
  | header => exact ⟨.header, h⟩
  | next =>
    obtain ⟨hcall, hsettled⟩ := call_of_next h rfl
    exact ⟨.next hcall, hsettled⟩
  | collect =>
    obtain ⟨hcalls, hsettled⟩ := calls_of_collect h
    exact ⟨.collect hcalls, hsettled⟩

def performAll (reader : Reader Source) (operations : List Operation) : Reader Source :=
  operations.foldl (fun reader operation => (reader.perform operation).2) reader

theorem Settled.performAll (h : Settled p reader) (operations : List Operation) :
    Settled p (reader.performAll operations) := by
  induction operations generalizing reader with
  | nil => exact h
  | cons operation operations ih =>
    obtain ⟨_, hsettled⟩ := performed_of_settled h operation
    exact ih hsettled

theorem settled_ofBuffer {buffer : Buffer} {source : Source} {made : Reader Source}
    (hmade : ofBuffer buffer source = .ok made) (hserved : source.served = 0) :
    Settled buffer.size made ∧ made.finished = false ∧ made.consumed = Header.size := by
  obtain ⟨taken, hdraws, hle⟩ := Buffer.fill_draws Header.size buffer source
  unfold ofBuffer at hmade
  split at hmade
  · cases hmade
  · rename_i held current hfill
    rw [hfill] at hdraws
    split at hmade
    · cases hmade
    · rename_i header rest hdecode
      cases hmade
      obtain ⟨front, hfront, hlen, _⟩ := Header.decode_ok hdecode
      have hheld : Header.size ≤ held.size := by
        rw [← Buffer.length_bytes, hfront, List.length_append, hlen]
        omega
      have hsize := hdraws.size
      have hread := hdraws.served
      rw [hserved] at hread
      dsimp only at hsize hread
      refine ⟨⟨⟨?_, ?_⟩, fun _ => ?_⟩, rfl, rfl⟩
      · simp only [Buffer.size_consume]
        omega
      · simp only [Buffer.size_consume]
        omega
      · simp only [Buffer.size_consume]
        omega

end PacketCapture.Trace.Reader
