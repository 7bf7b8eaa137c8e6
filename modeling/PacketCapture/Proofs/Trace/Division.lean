import PacketCapture.Proofs.Trace.Alike

/-! # How the bytes of a trace are divided

A reader shows neither how its source divides the bytes into reads nor how many of them its buffer held
at first. Interruptions and a limit on the bytes per read may be taken away, and bytes held at first
may as well come from the source.
-/
namespace PacketCapture.Trace

namespace Event

def isInterruption (event : Event) : Bool :=
  event.fault.any fun fault => fault.kind = .interrupted

def delay (n : Nat) (event : Event) : Event := { event with offset := event.offset + n }

end Event

namespace Stream

theorem ofEvents_of_short {events : List Event} {served : Nat} {unread : Bytes}
    (h : ∀ event ∈ events.head?, unread.length < event.offset - served) :
    ofEvents events served unread = ⟨unread, none⟩ := by
  cases events with
  | nil => rfl
  | cons event events => exact if_pos (h event rfl)

/-- Without the interruptions the same bytes come before the same end, as long as no event is due
before one that it follows. -/
theorem ofEvents_filter {events : List Event}
    (hsorted : events.Pairwise fun event later => event.offset ≤ later.offset) (served : Nat)
    (unread : Bytes) :
    ofEvents (events.filter fun event => !event.isInterruption) served unread =
      ofEvents events served unread := by
  induction events generalizing served unread with
  | nil => rfl
  | cons event events ih =>
    obtain ⟨hlater, hsorted⟩ := List.pairwise_cons.mp hsorted
    have hhead : ∀ next ∈ (events.filter fun event => !event.isInterruption).head?,
        event.offset ≤ next.offset := by
      intro next hnext
      exact hlater next (List.mem_of_mem_filter (List.mem_of_mem_head? hnext))
    by_cases hkind : event.isInterruption = true
    · obtain ⟨fault, hfault, hinterrupted⟩ : ∃ fault, event.fault = some fault ∧
          fault.kind = .interrupted := by
        simpa [Event.isInterruption, Option.any_eq_true] using hkind
      rw [List.filter_cons_of_neg (by simp [hkind])]
      by_cases hshort : unread.length < event.offset - served
      · rw [ofEvents_of_short, ofEvents, if_pos hshort]
        intro next hnext
        have := hhead next hnext
        omega
      · have hlen : (unread.take (event.offset - served)).length = event.offset - served :=
          List.length_take_of_le (Nat.le_of_not_lt hshort)
        rw [ofEvents_take _ served (event.offset - served), hlen, ih hsorted]
        · simp only [ofEvents, if_neg hshort, hfault, if_pos hinterrupted]
        · intro next hnext
          have := hhead next hnext
          omega
    · rw [List.filter_cons_of_pos (by simp [hkind])]
      cases hfault : event.fault with
      | none => simp only [ofEvents, hfault]
      | some fault =>
        have hother : ¬ fault.kind = .interrupted := by
          simpa [Event.isInterruption, hfault] using hkind
        simp only [ofEvents, hfault, if_neg hother]

theorem ofEvents_delay (events : List Event) (n served : Nat) (unread : Bytes) :
    ofEvents (events.map (Event.delay n)) (served + n) unread = ofEvents events served unread := by
  induction events generalizing served unread with
  | nil => rfl
  | cons event events ih =>
    have hgap : event.offset + n - (served + n) = event.offset - served := by omega
    have hnext : served + n + (event.offset - served) = served + (event.offset - served) + n := by
      omega
    simp only [List.map_cons, ofEvents, Event.delay, hgap, hnext]
    rw [← ih]

end Stream

namespace Source

/-- The source without its interruptions and its limit on the bytes per read. -/
def unbroken (source : Source) : Source :=
  { source with
    limit := none
    events := source.events.filter fun event => !event.isInterruption }

theorem stream_unbroken {source : Source}
    (hsorted : source.events.Pairwise fun event later => event.offset ≤ later.offset) :
    source.unbroken.stream = source.stream :=
  Stream.ofEvents_filter hsorted source.served source.unread

theorem stream_delayed (limit : Option Nat) (events : List Event) (front bytes : Bytes) :
    (fresh limit (events.map (Event.delay front.length)) (front ++ bytes)).stream =
      (fresh limit events bytes).stream.prepend front := by
  have hlate : ∀ event ∈ (events.map (Event.delay front.length)).head?,
      front.length ≤ event.offset - 0 := by
    intro event hevent
    obtain ⟨early, _, rfl⟩ := List.mem_map.mp (List.mem_of_mem_head? hevent)
    exact Nat.le_add_left _ _
  have htake := Stream.ofEvents_take _ 0 front.length (front ++ bytes) hlate
  rw [List.take_left, List.drop_left, Stream.ofEvents_delay] at htake
  exact htake

end Source

/-- Neither short nor interrupted reads show: a reader is made and answers as if its source had
served everything it was asked for at once, and so does a trace that is read to its end. -/
theorem record_unbroken (buffer : Buffer) (limit : Option Nat) (events : List Event)
    (bytes : Bytes) (operations : List Operation) (hlimit : limit ≠ some 0)
    (hsorted : events.Pairwise fun event later => event.offset ≤ later.offset) :
    let source := Source.fresh limit events bytes
    record (Reader.ofBuffer buffer source) operations =
        record (Reader.ofBuffer buffer source.unbroken) operations ∧
      (ofSource source).1 = (ofSource source.unbroken).1 ∧
      (ofSource source).2.served = (ofSource source.unbroken).2.served := by
  intro source
  have hunlimited : source.unbroken.limit ≠ some 0 := by simp [Source.unbroken]
  have hstream : source.unbroken.stream = source.stream := Source.stream_unbroken hsorted
  constructor
  · have hmade : Reader.MadeAlike buffer.size buffer.size (Reader.ofBuffer buffer source)
        (Reader.ofBuffer buffer source.unbroken) :=
      Reader.ofBuffer_alike _ _ hlimit hunlimited rfl rfl (by rw [hstream]) (by rw [hstream])
    have hrecord := (record_alike hmade operations).eq_lessServed (Nat.le_refl _)
    rwa [Nat.sub_self, Recording.lessServed_zero] at hrecord
  · obtain ⟨hfound, hserved⟩ := ofSource_eq_ofStream source hlimit
    obtain ⟨hfound', hserved'⟩ := ofSource_eq_ofStream source.unbroken hunlimited
    rw [hfound, hserved, hfound', hserved', hstream]
    exact ⟨rfl, rfl⟩

def unsteadyEvents : List Event := [
  ⟨3, some ⟨.interrupted, "signal"⟩⟩,
  ⟨30, some ⟨.interrupted, "signal"⟩⟩,
  ⟨41, some ⟨.brokenPipe, "gone"⟩⟩]

theorem record_unbroken_unsteady : (some 2 : Option Nat) ≠ some 0 ∧
    (unsteadyEvents.Pairwise fun event later => event.offset ≤ later.offset) ∧
    record (Reader.ofBuffer (.ofBytes 0 []) (Source.fresh (some 2) unsteadyEvents cutTrace))
        [.next, .header, .collect] =
      record (Reader.ofBuffer (.ofBytes 0 [])
        (Source.fresh none [⟨41, some ⟨.brokenPipe, "gone"⟩⟩] cutTrace))
        [.next, .header, .collect] := by
  have hlimit : (some 2 : Option Nat) ≠ some 0 := by decide
  have hsorted : unsteadyEvents.Pairwise fun event later => event.offset ≤ later.offset := by
    decide
  have hrecord := record_unbroken (.ofBytes 0 []) (some 2) unsteadyEvents cutTrace
    [.next, .header, .collect] hlimit hsorted
  exact ⟨hlimit, hsorted, hrecord.1⟩

/-- Bytes held at first show no more than bytes that come first from the source: the reader is made
and answers the same, and its source has served all but these. -/
theorem record_held (buffer : Buffer) (capacity : Nat) (limit : Option Nat) (events : List Event)
    (bytes : Bytes) (operations : List Operation) (hlimit : limit ≠ some 0) :
    record (Reader.ofBuffer buffer (Source.fresh limit events bytes)) operations =
      (record (Reader.ofSource capacity (Source.fresh limit
        (events.map (Event.delay buffer.size)) (buffer.bytes ++ bytes))) operations).lessServed
          buffer.size := by
  have hstream := Source.stream_delayed limit events buffer.bytes bytes
  rw [Buffer.length_bytes] at hstream
  let given := Source.fresh limit events bytes
  let whole := Source.fresh limit (events.map (Event.delay buffer.size)) (buffer.bytes ++ bytes)
  have hmade : Reader.MadeAlike buffer.size 0 (Reader.ofBuffer buffer given)
      (Reader.ofSource capacity whole) :=
    Reader.ofBuffer_alike buffer (.withCapacity (max capacity Header.size)) hlimit hlimit rfl rfl
      (by rw [hstream]; rfl) (by rw [hstream]; rfl)
  exact (record_alike hmade operations).eq_lessServed (Nat.zero_le _)

theorem record_held_cutTrace : (some 2 : Option Nat) ≠ some 0 ∧
    record (Reader.ofBuffer (.ofBytes 8 (cutTrace.take 30))
        (Source.fresh (some 2) [⟨11, some ⟨.brokenPipe, "gone"⟩⟩] (cutTrace.drop 30)))
        [.next, .collect] =
      (record (Reader.ofSource 64
        (Source.fresh (some 2) [⟨41, some ⟨.brokenPipe, "gone"⟩⟩] cutTrace))
        [.next, .collect]).lessServed 30 := by
  have hlimit : (some 2 : Option Nat) ≠ some 0 := by decide
  exact ⟨hlimit, record_held (.ofBytes 8 (cutTrace.take 30)) 64 (some 2)
    [⟨11, some ⟨.brokenPipe, "gone"⟩⟩] (cutTrace.drop 30) [.next, .collect] hlimit⟩

end PacketCapture.Trace
