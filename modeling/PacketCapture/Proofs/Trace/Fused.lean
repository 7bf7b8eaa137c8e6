import PacketCapture.Proofs.Trace.Account
import PacketCapture.Proofs.Trace.Alike

/-! # One sequence of items

Whatever operations a reader performs, they give out the items of one and the same sequence, each
once and in order. What an operation gives out and what is still to come after it is what was to
come before it, and a reader from which nothing is to come does not change any more.
-/
namespace PacketCapture.Trace

def Answer.given : Answer → List (Except DecodeError Frame)
  | .header _ => []
  | .item found => found.toList
  | .items found => found

def givenOut (steps : List Step) : List (Except DecodeError Frame) :=
  steps.flatMap fun step => step.answer.given

/-- Answers are of the kind asked for, and the header is always the same. -/
inductive Operation.Answers (header : Header) : Operation → Step → Prop
  | header (consumed served : Nat) : Answers header .header ⟨.header header, consumed, served⟩
  | next (item : Option (Except DecodeError Frame)) (consumed served : Nat) :
      Answers header .next ⟨.item item, consumed, served⟩
  | collect (items : List (Except DecodeError Frame)) (consumed served : Nat) :
      Answers header .collect ⟨.items items, consumed, served⟩

def Operation.idleAnswer (header : Header) : Operation → Answer
  | .header => .header header
  | .next => .item none
  | .collect => .items []

namespace Reader
variable {p : Nat} {reader after : Reader Source}

theorem header_of_request {needed : Nat} {fault : Option Fault}
    (h : reader.request needed = (fault, after)) : after.header = reader.header := by
  obtain ⟨taken, hdraws, _⟩ := draws_of_request h
  exact hdraws.header

theorem header_of_attempt {result : Except DecodeError (Option Frame)}
    (h : Attempt reader result after) : after.header = reader.header := by
  cases h with
  | faulted h => exact header_of_request h
  | ended h => exact header_of_request h
  | headless h => exact header_of_request h
  | faultedInside hopened h => exact (header_of_request h).trans (header_of_request hopened.request)
  | cut hopened h => exact (header_of_request h).trans (header_of_request hopened.request)
  | whole hopened h => exact (header_of_request h).trans (header_of_request hopened.request)

theorem header_next (reader : Reader Source) : reader.next.2.header = reader.header := by
  have hrecord := header_of_attempt (attempt_nextRecord reader)
  unfold next
  split
  · rfl
  · split <;> (rename_i hnext; rw [hnext] at hrecord; exact hrecord)

theorem header_of_next {item : Option (Except DecodeError Frame)}
    (h : reader.next = (item, after)) : after.header = reader.header := by
  have hheader := header_next reader
  rwa [h] at hheader

theorem header_collect (reader : Reader Source) : reader.collect.2.header = reader.header := by
  fun_induction collect reader with
  | case1 reader after hnext => exact header_of_next hnext
  | case2 reader error after hnext => exact header_of_next hnext
  | case3 reader frame middle hnext items last hcollect ih =>
    rw [hcollect] at ih
    exact ih.trans (header_of_next hnext)

theorem header_perform (reader : Reader Source) (operation : Operation) :
    (reader.perform operation).2.header = reader.header := by
  cases operation with
  | header => rfl
  | next => exact header_next reader
  | collect => exact header_collect reader

theorem answers_perform (reader : Reader Source) (operation : Operation) (consumed served : Nat) :
    operation.Answers reader.header ⟨(reader.perform operation).1, consumed, served⟩ := by
  cases operation with
  | header => exact .header consumed served
  | next => exact .next _ consumed served
  | collect => exact .collect _ consumed served

theorem answers_session (reader : Reader Source) (operations : List Operation) :
    List.Forall₂ (Operation.Answers reader.header) operations (reader.session operations) := by
  induction operations generalizing reader with
  | nil => exact .nil
  | cons operation operations ih =>
    have hrest := ih (reader.perform operation).2
    rw [header_perform] at hrest
    exact .cons (answers_perform reader operation _ _) hrest

theorem session_append (reader : Reader Source) (before later : List Operation) :
    reader.session (before ++ later) =
      reader.session before ++ (reader.performAll before).session later := by
  induction before generalizing reader with
  | nil => rfl
  | cons operation before ih =>
    simp only [List.cons_append, session]
    rw [ih]
    rfl

theorem Turn.finished {item : Option (Except DecodeError Frame)} (h : Turn p reader after item)
    (hitem : ∀ frame, item ≠ some (.ok frame)) : after.finished = true := by
  cases h with
  | idle hfinished hafter => exact hafter ▸ hfinished
  | ended _ hfinished => exact hfinished
  | frame => exact absurd rfl (hitem _)
  | undecodable _ _ hfinished => exact hfinished
  | stopped _ _ hfinished => exact hfinished

theorem collect_of_finished (h : reader.finished = true) : reader.collect = ([], reader) :=
  collect_of_none (next_of_finished h)

theorem Settled.finished_collect (h : Settled p reader) : reader.collect.2.finished = true := by
  fun_induction collect reader with
  | case1 reader after hnext => exact (turn_of_next h hnext).1.finished (by simp)
  | case2 reader error after hnext => exact (turn_of_next h hnext).1.finished (by simp)
  | case3 reader frame middle hnext items last hcollect ih =>
    rw [hcollect] at ih
    exact ih (turn_of_next h hnext).2

/-- What was to come is what the operation gives out and what is still to come. -/
theorem Settled.collect_perform (h : Settled p reader) (operation : Operation) :
    reader.collect.1 =
      (reader.perform operation).1.given ++ (reader.perform operation).2.collect.1 := by
  cases operation with
  | header => rfl
  | next =>
    rcases hnext : reader.next with ⟨item, after⟩
    obtain ⟨hturn, _⟩ := turn_of_next h hnext
    simp only [perform, hnext]
    rcases item with _ | (error | frame)
    · rw [collect_of_none hnext, collect_of_finished (hturn.finished (by simp))]
      rfl
    · rw [collect_of_error hnext, collect_of_finished (hturn.finished (by simp))]
      rfl
    · rw [collect_of_frame hnext]
      rfl
  | collect =>
    simp only [perform]
    rw [collect_of_finished h.finished_collect]
    exact (List.append_nil _).symm

theorem Settled.collect_session (h : Settled p reader) (operations : List Operation) :
    reader.collect.1 =
      givenOut (reader.session operations) ++ (reader.performAll operations).collect.1 := by
  induction operations generalizing reader with
  | nil => rfl
  | cons operation operations ih =>
    obtain ⟨_, hafter⟩ := performed_of_settled h operation
    rw [h.collect_perform operation, ih hafter, ← List.append_assoc]
    rfl

theorem next_eq_none_iff : reader.next.1 = none ↔ reader.collect.1 = [] := by
  rcases hnext : reader.next with ⟨item, after⟩
  rcases item with _ | (error | frame)
  · simp [collect_of_none hnext]
  · simp [collect_of_error hnext]
  · simp [collect_of_frame hnext]

def idleStep (reader : Reader Source) (operation : Operation) : Step where
  answer := operation.idleAnswer reader.header
  consumed := reader.consumed
  served := reader.source.served

theorem Settled.unchanged (h : Settled p reader) (hnext : reader.next = (none, after)) :
    after.consumed = reader.consumed ∧ after.source.served = reader.source.served := by
  cases hfinished : reader.finished with
  | true =>
    rw [next_of_finished hfinished] at hnext
    cases hnext
    exact ⟨rfl, rfl⟩
  | false =>
    have hbefore := h.served hfinished
    cases (turn_of_next h hnext).1 with
    | idle hidle => rw [hfinished] at hidle; cases hidle
    | ended _ _ hconsumed hserved => exact ⟨hconsumed, by omega⟩

theorem Settled.idle_of_next (h : Settled p reader) (hnext : reader.next = (none, after)) :
    after.collect.1 = [] ∧ after.idleStep = reader.idleStep := by
  obtain ⟨hconsumed, hserved⟩ := h.unchanged hnext
  constructor
  · rw [collect_of_finished ((turn_of_next h hnext).1.finished (by simp))]
  · funext operation
    simp only [idleStep, header_of_next hnext, hconsumed, hserved]

theorem Settled.perform_idle (h : Settled p reader) (hover : reader.collect.1 = [])
    (operation : Operation) : (reader.perform operation).1 = operation.idleAnswer reader.header ∧
      (reader.perform operation).2.collect.1 = [] ∧
      (reader.perform operation).2.idleStep = reader.idleStep := by
  rcases hnext : reader.next with ⟨item, after⟩
  have hnone := next_eq_none_iff.mpr hover
  rw [hnext] at hnone
  obtain rfl : item = none := hnone
  have hidle := h.idle_of_next hnext
  cases operation with
  | header => exact ⟨rfl, hover, rfl⟩
  | next =>
    simp only [perform, hnext]
    exact ⟨rfl, hidle⟩
  | collect =>
    simp only [perform, collect_of_none hnext]
    exact ⟨rfl, hidle⟩

theorem Settled.session_idle (h : Settled p reader) (hover : reader.collect.1 = [])
    (operations : List Operation) : reader.session operations = operations.map reader.idleStep := by
  induction operations generalizing reader with
  | nil => rfl
  | cons operation operations ih =>
    obtain ⟨hanswer, hstill, hsame⟩ := h.perform_idle hover operation
    obtain ⟨_, hsettled⟩ := performed_of_settled h operation
    have hstep : Step.mk (reader.perform operation).1 (reader.perform operation).2.consumed
        (reader.perform operation).2.source.served = reader.idleStep operation := by
      rw [← hsame, hanswer, idleStep, header_perform]
    simp only [session, List.map_cons]
    rw [ih hsettled hstill, hsame, hstep]

theorem exists_collect (reader : Reader Source) :
    ∃ (frames : List Frame) (closing : Option DecodeError),
      reader.collect.1 = frames.map .ok ++ closing.toList.map .error := by
  fun_induction collect reader with
  | case1 => exact ⟨[], none, rfl⟩
  | case2 reader error after hnext => exact ⟨[], some error, rfl⟩
  | case3 reader frame middle hnext items last hcollect ih =>
    rw [hcollect] at ih
    obtain ⟨frames, closing, hitems⟩ := ih
    exact ⟨frame :: frames, closing, congrArg (List.cons (.ok frame)) hitems⟩

end Reader

theorem Source.bytes_eq_nil_of_read {source after : Source} {want : Nat} {bytes : Bytes}
    (hlimit : source.limit = some 0) (h : source.read want = (.ok bytes, after)) : bytes = [] := by
  rcases source.read_cases want with ⟨n, _, hread⟩ | ⟨event, events, _, hread⟩
  · rw [hread] at h
    cases h
    simp [serve, hlimit]
  · obtain ⟨hresult, rfl⟩ := Prod.mk.inj (hread.symm.trans h)
    exact bytes_eq_nil_of_result hresult

theorem Buffer.bytes_eq_nil {buffer : Buffer} (h : buffer.size = 0) : buffer.bytes = [] := by
  refine List.eq_nil_of_length_eq_zero ?_
  rw [length_bytes, h]

theorem Buffer.bytes_fill_of_limit (needed : Nat) (buffer : Buffer) {source : Source}
    (hlimit : source.limit = some 0) : (buffer.fill needed source).buffer.bytes = buffer.bytes := by
  fun_induction fill needed buffer source with
  | case1 buffer source hlt roomy fault after h hkind ih =>
    obtain ⟨_, _, hkept⟩ := Source.stream_of_fault h
    rw [ih (hkept.trans hlimit), bytes_makeRoom]
  | case2 => exact bytes_makeRoom _ _
  | case3 => exact bytes_makeRoom _ _
  | case4 buffer source hlt roomy b bytes after h fits ih =>
    cases Source.bytes_eq_nil_of_read hlimit h
  | case5 => rfl

theorem Reader.limit_of_ofBuffer {buffer : Buffer} {source : Source} {made : Reader Source}
    (hmade : ofBuffer buffer source = .ok made) (hempty : buffer.size = 0) :
    source.limit ≠ some 0 := by
  intro hlimit
  have hbytes := Buffer.bytes_fill_of_limit Header.size buffer hlimit
  have hnil := Buffer.bytes_eq_nil hempty
  unfold ofBuffer at hmade
  split at hmade
  · cases hmade
  · rename_i held current hfill
    rw [hfill, hnil] at hbytes
    rw [hbytes] at hmade
    cases hmade

/-- The trace that frames make up, or the part of it before an error. -/
def traceOf (header : Header) (frames : List Frame) :
    Option DecodeError → Except PartialTrace Trace
  | none => .ok { header, frames }
  | some error => .error { header := some header, frames, error }

theorem ofReader_of_collect {reader : Reader Source} {frames : List Frame}
    {closing : Option DecodeError}
    (h : reader.collect.1 = frames.map .ok ++ closing.toList.map .error) :
    (ofReader (.ok reader)).1 = traceOf reader.header frames closing := by
  simp only [ofReader, h, splitItems_append]
  cases closing <;> rfl

namespace Reader
variable {p : Nat} {buffer : Buffer} {limit : Option Nat} {events : List Event} {bytes : Bytes}
  {made : Reader Source} {frames : List Frame} {closing : Option DecodeError}

theorem ofSource_of_collect (hmade : ofBuffer buffer (Source.fresh limit events bytes) = .ok made)
    (hempty : buffer.size = 0)
    (hitems : made.collect.1 = frames.map .ok ++ closing.toList.map .error) :
    (Trace.ofSource (Source.fresh limit events bytes)).1 = traceOf made.header frames closing := by
  have hlimit := limit_of_ofBuffer hmade hempty
  have hnil := Buffer.bytes_eq_nil hempty
  have halike : MadeAlike buffer.size 0 (ofBuffer buffer (Source.fresh limit events bytes))
      (Reader.ofSource defaultCapacity (Source.fresh limit events bytes)) :=
    ofBuffer_alike buffer (.withCapacity (max defaultCapacity Header.size)) hlimit hlimit rfl rfl
      (by rw [hnil]; rfl) rfl
  rw [hmade] at halike
  rw [ofSource_eq_ofReader]
  generalize Reader.ofSource defaultCapacity (Source.fresh limit events bytes) = other at halike
  cases halike with
  | made hreader =>
    rw [(collect_alike hreader).1] at hitems
    rw [ofReader_of_collect hitems, hreader.header]

/-- What operations show of the one sequence of items, whichever are performed before and whichever
are later. -/
structure Fused (made : Reader Source) (before later : List Operation) : Prop where
  answers : List.Forall₂ (Operation.Answers made.header) before (made.session before)
  session : made.session (before ++ later) =
    made.session before ++ (made.performAll before).session later
  begins : givenOut (made.session before) <+: made.collect.1
  /-- There is no next item just when the whole sequence has been given out. -/
  ends : (made.performAll before).next.1 = none ↔ givenOut (made.session before) = made.collect.1
  /-- From then on nothing is given out, decoded or served. -/
  idles : givenOut (made.session before) = made.collect.1 →
    (made.performAll before).session later = later.map (made.performAll before).idleStep

theorem Settled.fused (h : Settled p made) (before later : List Operation) :
    Fused made before later := by
  have hsplit := h.collect_session before
  have hover : givenOut (made.session before) = made.collect.1 ↔
      (made.performAll before).collect.1 = [] := by
    rw [hsplit]
    constructor
    · intro hall
      exact List.self_eq_append_right.mp hall
    · intro hnil
      rw [hnil, List.append_nil]
  constructor
  · exact answers_session made before
  · exact session_append made before later
  · exact ⟨_, hsplit.symm⟩
  · exact next_eq_none_iff.trans hover.symm
  · intro hall
    exact (h.performAll before).session_idle (hover.mp hall) later

/-- In whatever order a reader is asked for its header, the next item or all items, the items given
out begin the one sequence that it collects at once: frames, and an error at most at the end.
Nothing comes only once all of it has been given out, and then nothing changes any more. The trace
that is decoded at once is that of the same sequence. -/
theorem session_fused (hmade : ofBuffer buffer (Source.fresh limit events bytes) = .ok made)
    (before later : List Operation) :
    Fused made before later ∧ ∃ frames closing,
      made.collect.1 = frames.map .ok ++ closing.toList.map .error ∧
      (buffer.size = 0 → (Trace.ofSource (Source.fresh limit events bytes)).1 =
        traceOf made.header frames closing) := by
  obtain ⟨hsettled, _, _⟩ := settled_ofBuffer hmade rfl
  obtain ⟨frames, closing, hitems⟩ := made.exists_collect
  exact ⟨hsettled.fused before later, frames, closing, hitems, fun hempty =>
    ofSource_of_collect hmade hempty hitems⟩

theorem session_fused_cutTrace :
    let source := Source.fresh (some 2) [⟨42, none⟩] cutTrace
    let frame : Frame := ⟨⟨11, 0, by decide⟩, 2, 60, .unknown [0xde, 0xad]⟩
    ∃ made : Reader Source, ofBuffer (.ofBytes 8 []) source = .ok made ∧
      Fused made [.next, .header, .next] [.collect, .next] ∧ made.collect.1 = [.ok frame] ∧
      (Trace.ofSource source).1 =
        .ok ⟨⟨.littleEndian, 2, 4, 0, 0, 65535, ⟨101⟩⟩, [frame]⟩ := by
  intro source frame
  have hstream : source.stream = ⟨cutTrace.take 42, none⟩ :=
    Source.stream_fresh_event (some 2) nofun (by decide)
  have hdecode : Header.decode.run ((Buffer.ofBytes 8 []).bytes ++ source.stream.bytes) =
      .ok (⟨.littleEndian, 2, 4, 0, 0, 65535, ⟨101⟩⟩, (cutTrace.take 42).drop 24) := by
    rw [hstream]
    rfl
  obtain ⟨made, hmade, hheader, hfinished, _, hahead, hending, _, _, hkept⟩ :=
    ofBuffer_of_ok _ (by decide) hdecode
  have hframe : (Frame.decode .littleEndian ⟨101⟩).run ((cutTrace.take 42).drop 24) =
    .ok (frame, []) := rfl
  have hcollect : made.collect.1 = [.ok frame] := by
    rw [(collect_scan hheader hahead hfinished (by rw [hkept]; decide)).1, scan_of_ok hframe,
      scan_nil, hending, hstream]
    rfl
  obtain ⟨hfused, frames, closing, hitems, htrace⟩ :=
    session_fused hmade [.next, .header, .next] [.collect, .next]
  refine ⟨made, hmade, hfused, hcollect, ?_⟩
  rw [htrace rfl, hheader]
  obtain ⟨rfl, rfl⟩ : frames = [frame] ∧ closing = none := by
    have hsplit := splitItems_append frames closing
    rw [← hitems, hcollect] at hsplit
    cases hsplit
    exact ⟨rfl, rfl⟩
  rfl

end Reader
end PacketCapture.Trace
