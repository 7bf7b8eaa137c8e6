import Mathlib.Data.List.Forall2
import PacketCapture.Proofs.Trace.Streaming
import PacketCapture.Trace.Session

/-! # Readers that answer alike

A reader goes by the bytes ahead of it and by the way they end. Two readers that go by the same answer
every operation alike, wherever the bytes are divided between buffer and source, and what their sources
have served differs by what their buffers held at first.
-/
namespace PacketCapture.Trace

/-- Bytes served by two sources up to one place in the trace, behind `p` and `q` bytes held before. -/
def Level (p q served served' : Nat) : Prop :=
  ∃ place, served = place - p ∧ served' = place - q

theorem Level.eq_sub {p q served served' : Nat} (h : Level p q served served') (hle : q ≤ p) :
    served = served' - (p - q) := by
  obtain ⟨place, rfl, rfl⟩ := h
  omega

structure Step.Alike (p q : Nat) (step step' : Step) : Prop where
  answer : step.answer = step'.answer
  consumed : step.consumed = step'.consumed
  served : Level p q step.served step'.served

/-- All that a reader goes by until it stops. -/
structure Outlook where
  header : Header
  consumed : Nat
  ahead : Bytes
  ending : Option Fault

namespace Reader

/-- Of the `p` bytes held at first the buffer has those not consumed yet, and the source has served
no byte beyond those consumed. -/
structure Placed (p : Nat) (outlook : Outlook) (reader : Reader Source) : Prop where
  header : reader.header = outlook.header
  consumed : reader.consumed = outlook.consumed
  ahead : reader.ahead = outlook.ahead
  ending : reader.ending = outlook.ending
  finished : reader.finished = false
  size : reader.buffer.size = p - outlook.consumed
  served : reader.source.served = outlook.consumed - p
  limit : reader.source.limit ≠ some 0

structure Stopped (p : Nat) (header : Header) (consumed place : Nat) (reader : Reader Source) :
    Prop where
  header : reader.header = header
  consumed : reader.consumed = consumed
  finished : reader.finished = true
  served : reader.source.served = place - p

variable {p q : Nat} {outlook : Outlook} {reader reader' : Reader Source}

theorem Placed.next_of_short (h : Placed p outlook reader)
    (hshort : wholeLength? outlook.header.byteOrder outlook.ahead = none) :
    ∃ after, reader.next = (if outlook.ahead = [] ∧ outlook.ending = none then none
        else some (.error (shortfall outlook.ending)), after) ∧
      Stopped p outlook.header outlook.consumed (outlook.consumed + outlook.ahead.length) after := by
  rw [← h.header, ← h.ahead] at hshort
  obtain ⟨after, hnext, hdrains⟩ := nextRecord_of_short h.limit hshort
  rw [h.ahead, h.ending] at hnext
  refine ⟨{ after with finished := true }, ?_, hdrains.header.trans h.header,
    hdrains.consumed.trans h.consumed, rfl, ?_⟩
  · by_cases hclean : outlook.ahead = [] ∧ outlook.ending = none
    · rw [if_pos hclean] at hnext ⊢
      exact next_of_end h.finished hnext
    · rw [if_neg hclean] at hnext ⊢
      exact next_of_error h.finished hnext
  · have hserved := hdrains.served
    rw [h.served, h.size, h.ahead] at hserved
    dsimp only
    omega

theorem Placed.next_of_whole {length : Nat} (h : Placed p outlook reader)
    (hwhole : wholeLength? outlook.header.byteOrder outlook.ahead = some length) :
    ∃ after, reader.nextRecord =
        (((Frame.decode outlook.header.byteOrder outlook.header.linkType).run outlook.ahead).map
          fun found => some found.1, after) ∧
      Placed p { outlook with
        consumed := outlook.consumed + length
        ahead := outlook.ahead.drop length } after := by
  rw [← h.header, ← h.ahead] at hwhole
  obtain ⟨after, hnext, hpasses⟩ := nextRecord_of_whole h.limit hwhole
  rw [h.header, h.ahead] at hnext
  refine ⟨after, hnext, hpasses.header.trans h.header, ?_, ?_, hpasses.ending.trans h.ending,
    hpasses.finished.trans h.finished, ?_, ?_, ?_⟩
  · rw [hpasses.consumed, h.consumed]
  · rw [hpasses.ahead, h.ahead]
  · rw [hpasses.size, h.size, Nat.sub_sub]
  · rw [hpasses.served, h.served, h.size]
    dsimp only
    omega
  · rw [hpasses.limit]
    exact h.limit

theorem Placed.stopped {after : Reader Source} (h : Placed p outlook after) :
    Stopped p outlook.header outlook.consumed outlook.consumed { after with finished := true } :=
  ⟨h.header, h.consumed, rfl, h.served⟩

/-- Both readers go by the same, or both have stopped at the same place. -/
inductive Alike (p q : Nat) (reader reader' : Reader Source) : Prop
  | going {outlook : Outlook} : Placed p outlook reader → Placed q outlook reader' →
      Alike p q reader reader'
  | stopped {header : Header} {consumed place : Nat} : Stopped p header consumed place reader →
      Stopped q header consumed place reader' → Alike p q reader reader'

theorem Alike.header (h : Alike p q reader reader') : reader.header = reader'.header := by
  cases h with
  | going h h' => exact h.header.trans h'.header.symm
  | stopped h h' => exact h.header.trans h'.header.symm

theorem Alike.consumed (h : Alike p q reader reader') : reader.consumed = reader'.consumed := by
  cases h with
  | going h h' => exact h.consumed.trans h'.consumed.symm
  | stopped h h' => exact h.consumed.trans h'.consumed.symm

theorem Alike.served (h : Alike p q reader reader') :
    Level p q reader.source.served reader'.source.served := by
  cases h with
  | going h h' => exact ⟨_, h.served, h'.served⟩
  | stopped h h' => exact ⟨_, h.served, h'.served⟩

theorem next_alike {item : Option (Except DecodeError Frame)} {after : Reader Source}
    (h : Alike p q reader reader') (hnext : reader.next = (item, after)) :
    ∃ after', reader'.next = (item, after') ∧ Alike p q after after' := by
  cases h with
  | stopped h h' =>
    rw [next_of_finished h.finished] at hnext
    cases hnext
    exact ⟨reader', next_of_finished h'.finished, .stopped h h'⟩
  | @going outlook h h' =>
    cases hwhole : wholeLength? outlook.header.byteOrder outlook.ahead with
    | none =>
      obtain ⟨last, hlast, hstopped⟩ := h.next_of_short hwhole
      obtain ⟨last', hlast', hstopped'⟩ := h'.next_of_short hwhole
      rw [hlast] at hnext
      cases hnext
      exact ⟨last', hlast', .stopped hstopped hstopped'⟩
    | some length =>
      obtain ⟨past, hpast, hplaced⟩ := h.next_of_whole hwhole
      obtain ⟨past', hpast', hplaced'⟩ := h'.next_of_whole hwhole
      cases hrun : (Frame.decode outlook.header.byteOrder outlook.header.linkType).run
          outlook.ahead with
      | error error =>
        rw [hrun] at hpast hpast'
        rw [next_of_error h.finished hpast] at hnext
        cases hnext
        exact ⟨_, next_of_error h'.finished hpast', .stopped hplaced.stopped hplaced'.stopped⟩
      | ok found =>
        rw [hrun] at hpast hpast'
        rw [next_of_frame h.finished hpast] at hnext
        cases hnext
        exact ⟨past', next_of_frame h'.finished hpast', .going hplaced hplaced'⟩

theorem collect_alike (h : Alike p q reader reader') :
    reader.collect.1 = reader'.collect.1 ∧ Alike p q reader.collect.2 reader'.collect.2 := by
  fun_induction collect reader generalizing reader' with
  | case1 reader after hnext =>
    obtain ⟨after', hnext', hafter⟩ := next_alike h hnext
    rw [collect_of_none hnext']
    exact ⟨rfl, hafter⟩
  | case2 reader error after hnext =>
    obtain ⟨after', hnext', hafter⟩ := next_alike h hnext
    rw [collect_of_error hnext']
    exact ⟨rfl, hafter⟩
  | case3 reader frame after hnext items last hcollect ih =>
    obtain ⟨after', hnext', hafter⟩ := next_alike h hnext
    obtain ⟨hitems, hlast⟩ := ih hafter
    rw [hcollect] at hitems hlast
    rw [collect_of_frame hnext', ← hitems]
    exact ⟨rfl, hlast⟩

theorem perform_alike (h : Alike p q reader reader') (operation : Operation) :
    (reader.perform operation).1 = (reader'.perform operation).1 ∧
      Alike p q (reader.perform operation).2 (reader'.perform operation).2 := by
  cases operation with
  | header => exact ⟨congrArg Answer.header h.header, h⟩
  | next =>
    rcases hnext : reader.next with ⟨item, after⟩
    obtain ⟨after', hnext', hafter⟩ := next_alike h hnext
    simp only [perform, hnext, hnext', true_and]
    exact hafter
  | collect =>
    obtain ⟨hitems, hafter⟩ := collect_alike h
    exact ⟨congrArg Answer.items hitems, hafter⟩

theorem session_alike (h : Alike p q reader reader') (operations : List Operation) :
    List.Forall₂ (Step.Alike p q) (reader.session operations) (reader'.session operations) := by
  induction operations generalizing reader reader' with
  | nil => exact .nil
  | cons operation operations ih =>
    obtain ⟨hanswer, hafter⟩ := perform_alike h operation
    exact .cons ⟨hanswer, hafter.consumed, hafter.served⟩ (ih hafter)

inductive MadeAlike (p q : Nat) : Except (ReaderFailure Source) (Reader Source) →
    Except (ReaderFailure Source) (Reader Source) → Prop
  | failed {failure failure' : ReaderFailure Source} : failure.error = failure'.error →
      Level p q failure.source.served failure'.source.served →
      MadeAlike p q (.error failure) (.error failure')
  | made {reader reader' : Reader Source} : Alike p q reader reader' →
      MadeAlike p q (.ok reader) (.ok reader')

theorem placed_ofBuffer (buffer : Buffer) {source : Source} {header : Header} {rest : Bytes}
    (hlimit : source.limit ≠ some 0) (hserved : source.served = 0)
    (hok : Header.decode.run (buffer.bytes ++ source.stream.bytes) = .ok (header, rest)) :
    ∃ reader, ofBuffer buffer source = .ok reader ∧
      Placed buffer.size ⟨header, Header.size, rest, source.stream.fault⟩ reader := by
  obtain ⟨reader, hmade, hheader, hfinished, hconsumed, hahead, hending, hsize, hread, hkept⟩ :=
    ofBuffer_of_ok buffer hlimit hok
  rw [hserved, Nat.zero_add] at hread
  exact ⟨reader, hmade, hheader, hconsumed, hahead, hending, hfinished, hsize, hread,
    hkept ▸ hlimit⟩

theorem ofBuffer_alike (buffer buffer' : Buffer) {source source' : Source}
    (hlimit : source.limit ≠ some 0) (hlimit' : source'.limit ≠ some 0)
    (hserved : source.served = 0) (hserved' : source'.served = 0)
    (hbytes : buffer.bytes ++ source.stream.bytes = buffer'.bytes ++ source'.stream.bytes)
    (hfault : source.stream.fault = source'.stream.fault) :
    MadeAlike buffer.size buffer'.size (ofBuffer buffer source) (ofBuffer buffer' source') := by
  cases hdecode : Header.decode.run (buffer.bytes ++ source.stream.bytes) with
  | error error =>
    obtain ⟨failure, hmade, herror, hread⟩ := ofBuffer_of_refused buffer hlimit hdecode
    obtain ⟨failure', hmade', herror', hread'⟩ :=
      ofBuffer_of_refused buffer' hlimit' (hbytes ▸ hdecode)
    rw [hserved, Nat.zero_add] at hread
    rw [hserved', Nat.zero_add, ← hbytes] at hread'
    rw [← hbytes, ← hfault] at herror'
    rw [hmade, hmade']
    exact .failed (herror.trans herror'.symm) ⟨_, hread, hread'⟩
  | ok decoded =>
    obtain ⟨header, rest⟩ := decoded
    obtain ⟨reader, hmade, hplaced⟩ := placed_ofBuffer buffer hlimit hserved hdecode
    obtain ⟨reader', hmade', hplaced'⟩ := placed_ofBuffer buffer' hlimit' hserved' (hbytes ▸ hdecode)
    rw [hmade, hmade']
    rw [← hfault] at hplaced'
    exact .made (.going hplaced hplaced')

end Reader

/-- All that shows of a reader that is made, if it can be made, and then asked for the operations. -/
structure Recording where
  opening : Except DecodeError Header
  served : Nat
  steps : List Step

def record (made : Except (ReaderFailure Source) (Reader Source)) (operations : List Operation) :
    Recording :=
  match made with
  | .error failure => { opening := .error failure.error, served := failure.source.served, steps := [] }
  | .ok reader => {
      opening := .ok reader.header
      served := reader.source.served
      steps := reader.session operations }

structure Recording.Alike (p q : Nat) (recording recording' : Recording) : Prop where
  opening : recording.opening = recording'.opening
  served : Level p q recording.served recording'.served
  steps : List.Forall₂ (Step.Alike p q) recording.steps recording'.steps

theorem record_alike {p q : Nat} {made made' : Except (ReaderFailure Source) (Reader Source)}
    (h : Reader.MadeAlike p q made made') (operations : List Operation) :
    (record made operations).Alike p q (record made' operations) := by
  cases h with
  | failed herror hserved => exact ⟨congrArg Except.error herror, hserved, .nil⟩
  | made hreader =>
    exact ⟨congrArg Except.ok hreader.header, hreader.served,
      Reader.session_alike hreader operations⟩

def Recording.lessServed (n : Nat) (recording : Recording) : Recording where
  opening := recording.opening
  served := recording.served - n
  steps := recording.steps.map fun step => { step with served := step.served - n }

theorem Recording.lessServed_zero (recording : Recording) : recording.lessServed 0 = recording := by
  simp [lessServed]

theorem Recording.Alike.eq_lessServed {p q : Nat} {recording recording' : Recording}
    (h : recording.Alike p q recording') (hle : q ≤ p) :
    recording = recording'.lessServed (p - q) := by
  obtain ⟨opening, served, steps⟩ := recording
  obtain ⟨opening', served', steps'⟩ := recording'
  obtain ⟨hopening, hserved, hsteps⟩ := h
  have hsame : List.Forall₂ Eq steps
      (steps'.map fun step => { step with served := step.served - (p - q) }) := by
    rw [List.forall₂_map_right_iff]
    refine hsteps.imp ?_
    rintro ⟨answer, consumed, served⟩ step' ⟨hanswer, hconsumed, hserved⟩
    dsimp only at hanswer hconsumed hserved
    rw [hanswer, hconsumed, hserved.eq_sub hle]
  rw [List.forall₂_eq_eq_eq] at hsame
  dsimp only at hopening hserved
  rw [hopening, hserved.eq_sub hle, hsame]
  rfl

end PacketCapture.Trace
