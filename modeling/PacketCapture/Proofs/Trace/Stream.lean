import PacketCapture.Trace.Fill
import PacketCapture.Trace.Source

/-! # Streams

All that a reader can learn of a source before it stops is a stream: the bytes up to the first end or
fault that is no interruption, and that fault. Filling a buffer moves bytes from the front of the
stream to the end of the buffer, however the source divides them into reads.
-/
namespace PacketCapture.Trace

structure Stream where
  bytes : Bytes
  /-- The fault after the bytes, if they do not just end. -/
  fault : Option Fault
  deriving DecidableEq, Repr

namespace Stream

def prepend (stream : Stream) (bytes : Bytes) : Stream :=
  { stream with bytes := bytes ++ stream.bytes }

/-- The stream of unread bytes with events to come, the first `served` bytes being gone already. -/
def ofEvents : List Event → Nat → Bytes → Stream
  | [], _, unread => ⟨unread, none⟩
  | event :: events, served, unread =>
    let gap := event.offset - served
    if unread.length < gap then ⟨unread, none⟩
    else match event.fault with
      | none => ⟨unread.take gap, none⟩
      | some fault =>
        if fault.kind = .interrupted then
          (ofEvents events (served + gap) (unread.drop gap)).prepend (unread.take gap)
        else ⟨unread.take gap, some fault⟩

theorem ofEvents_take (events : List Event) (served n : Nat) (unread : Bytes)
    (h : ∀ event ∈ events.head?, n ≤ event.offset - served) :
    ofEvents events served unread =
      (ofEvents events (served + (unread.take n).length) (unread.drop n)).prepend
        (unread.take n) := by
  cases events with
  | nil => simp [ofEvents, prepend]
  | cons event events =>
    have hgap : n ≤ event.offset - served := h event rfl
    by_cases hn : unread.length < n
    · have htake : unread.take n = unread := List.take_of_length_le (Nat.le_of_lt hn)
      have hdrop : unread.drop n = [] := List.drop_of_length_le (Nat.le_of_lt hn)
      have hbefore : unread.length < event.offset - served := Nat.lt_of_lt_of_le hn hgap
      have hafter : 0 < event.offset - (served + unread.length) := by omega
      rw [htake, hdrop]
      simp [ofEvents, if_pos hbefore, hafter, prepend]
    · have hlen : (unread.take n).length = n := by rw [List.length_take]; omega
      have hrest : event.offset - (served + n) = event.offset - served - n := by omega
      have hsplit : unread.take (event.offset - served) =
          unread.take n ++ (unread.drop n).take (event.offset - served - n) := by
        rw [← List.take_add, Nat.add_sub_cancel' hgap]
      have hdrop : (unread.drop n).drop (event.offset - served - n) =
          unread.drop (event.offset - served) := by
        rw [List.drop_drop, Nat.add_sub_cancel' hgap]
      have hserved : served + n + (event.offset - served - n) =
          served + (event.offset - served) := by omega
      simp only [ofEvents, hlen, hrest, List.length_drop, hdrop, hserved, hsplit]
      by_cases hshort : unread.length < event.offset - served
      · have hshort' : unread.length - n < event.offset - served - n := by omega
        rw [if_pos hshort, if_pos hshort']
        simp [prepend]
      · have hshort' : ¬ unread.length - n < event.offset - served - n := by omega
        rw [if_neg hshort, if_neg hshort']
        cases event.fault with
        | none => simp [prepend]
        | some fault =>
          by_cases hkind : fault.kind = .interrupted
          · simp [hkind, prepend]
          · simp [hkind, prepend]

end Stream

namespace Source

/-- What a reader can learn of the source before it stops. -/
def stream (source : Source) : Stream := .ofEvents source.events source.served source.unread

def fresh (limit : Option Nat) (events : List Event) (bytes : Bytes) : Source where
  unread := bytes
  served := 0
  limit := limit
  events := events

theorem stream_fresh (limit : Option Nat) (bytes : Bytes) :
    (fresh limit [] bytes).stream = ⟨bytes, none⟩ := rfl

theorem stream_fresh_event (limit : Option Nat) {event : Event} {bytes : Bytes}
    (hkind : ∀ fault ∈ event.fault, fault.kind ≠ .interrupted)
    (h : event.offset ≤ bytes.length) :
    (fresh limit [event] bytes).stream = ⟨bytes.take event.offset, event.fault⟩ := by
  have hgap : ¬ bytes.length < event.offset := Nat.not_lt.mpr h
  simp only [stream, fresh, Stream.ofEvents, Nat.sub_zero, if_neg hgap]
  cases hfault : event.fault with
  | none => rfl
  | some fault => exact if_neg (hkind fault hfault)

theorem stream_serve {source : Source} {n : Nat}
    (h : ∀ event ∈ source.events.head?, n ≤ event.offset - source.served) :
    source.stream = (source.serve n).2.stream.prepend (source.serve n).1 := by
  refine Stream.ofEvents_take source.events source.served _ source.unread ?_
  intro event hevent
  have hn := h event hevent
  cases source.limit with
  | none => exact hn
  | some m => exact Nat.le_trans (Nat.min_le_left n m) hn

theorem unread_of_serve_eq_nil {source : Source} {n : Nat} (hn : 0 < n)
    (hlimit : source.limit ≠ some 0) (h : (source.serve n).1 = []) : source.unread = [] := by
  rcases List.take_eq_nil_iff.mp h with hzero | hnil
  · cases hl : source.limit with
    | none => simp only [hl, Option.elim_none] at hzero; omega
    | some m =>
      simp only [hl, Option.elim_some] at hzero
      have hm : m ≠ 0 := by rintro rfl; exact hlimit hl
      omega
  · exact hnil

theorem read_turn (source : Source) (want : Nat) :
    (∃ event events, source.events = event :: events ∧ event.offset ≤ source.served ∧
      source.read want = (event.result, { source with events })) ∨
    ∃ n, (0 < want → 0 < n) ∧ (∀ event ∈ source.events.head?, n ≤ event.offset - source.served) ∧
      source.read want = (.ok (source.serve n).1, (source.serve n).2) := by
  unfold read
  cases hevents : source.events with
  | nil => exact .inr ⟨want, id, by simp, rfl⟩
  | cons event events =>
    by_cases hdue : event.offset ≤ source.served
    · exact .inl ⟨event, events, rfl, hdue, if_pos hdue⟩
    · refine .inr ⟨min want (event.offset - source.served), ?_, ?_, if_neg hdue⟩
      · intro hwant
        omega
      · intro other hother
        cases hother
        exact Nat.min_le_right _ _

theorem stream_of_due {source : Source} {event : Event} {events : List Event}
    (hevents : source.events = event :: events) (hdue : event.offset ≤ source.served) :
    source.stream = match event.fault with
      | none => ⟨[], none⟩
      | some fault =>
        if fault.kind = .interrupted then { source with events }.stream else ⟨[], some fault⟩ := by
  have hgap : event.offset - source.served = 0 := by omega
  simp only [stream, hevents, Stream.ofEvents, hgap, Nat.not_lt_zero, if_false]
  cases event.fault with
  | none => rfl
  | some fault => rfl

theorem stream_of_read {source after : Source} {want : Nat} {bytes : Bytes}
    (h : source.read want = (.ok bytes, after)) (hbytes : bytes ≠ []) :
    source.stream = after.stream.prepend bytes ∧
      after.served = source.served + bytes.length ∧ after.limit = source.limit := by
  rcases source.read_turn want with ⟨event, events, _, _, hread⟩ | ⟨n, _, hgap, hread⟩
  · obtain ⟨hresult, _⟩ := Prod.mk.inj (hread.symm.trans h)
    exact absurd (bytes_eq_nil_of_result hresult) hbytes
  · rw [hread] at h
    cases h
    exact ⟨stream_serve hgap, rfl, rfl⟩

theorem stream_of_read_nil {source after : Source} {want : Nat} (hwant : 0 < want)
    (hlimit : source.limit ≠ some 0) (h : source.read want = (.ok [], after)) :
    source.stream = ⟨[], none⟩ ∧ after.served = source.served ∧ after.limit = source.limit := by
  rcases source.read_turn want with ⟨event, events, hevents, hdue, hread⟩ | ⟨n, hn, hgap, hread⟩
  · obtain ⟨hresult, rfl⟩ := Prod.mk.inj (hread.symm.trans h)
    refine ⟨?_, rfl, rfl⟩
    rw [stream_of_due hevents hdue]
    cases hfault : event.fault with
    | none => rfl
    | some fault => simp [Event.result, hfault] at hresult
  · obtain ⟨hbytes, rfl⟩ := Prod.mk.inj (hread.symm.trans h)
    have hnil := Except.ok.inj hbytes
    have hunread := unread_of_serve_eq_nil (hn hwant) hlimit hnil
    refine ⟨?_, by simp [serve, hunread], rfl⟩
    cases hevents : source.events with
    | nil => simp [stream, hevents, hunread, Stream.ofEvents]
    | cons event events =>
      have hlate := hgap event (by rw [hevents]; rfl)
      have hpos : 0 < event.offset - source.served := Nat.lt_of_lt_of_le (hn hwant) hlate
      simp [stream, hevents, hunread, Stream.ofEvents, hpos]

theorem stream_of_fault {source after : Source} {want : Nat} {fault : Fault}
    (h : source.read want = (.error fault, after)) :
    source.stream = (if fault.kind = .interrupted then after.stream else ⟨[], some fault⟩) ∧
      after.served = source.served ∧ after.limit = source.limit := by
  rcases source.read_turn want with ⟨event, events, hevents, hdue, hread⟩ | ⟨n, _, _, hread⟩
  · obtain ⟨hresult, rfl⟩ := Prod.mk.inj (hread.symm.trans h)
    refine ⟨?_, rfl, rfl⟩
    rw [stream_of_due hevents hdue]
    cases hfault : event.fault with
    | none => simp [Event.result, hfault] at hresult
    | some other =>
      have hother : other = fault := by simpa [Event.result, hfault] using hresult
      rw [hother]
  · obtain ⟨hresult, _⟩ := Prod.mk.inj (hread.symm.trans h)
    cases hresult

end Source

namespace Buffer

/-- Filling takes the missing bytes off the front of the stream, and meets its fault only if they
are not all there. -/
structure Fills (needed : Nat) (buffer : Buffer) (source : Source) (filled : Filled Source) :
    Prop where
  bytes : filled.buffer.bytes = buffer.bytes ++ source.stream.bytes.take (needed - buffer.size)
  fault : filled.fault =
    if needed - buffer.size ≤ source.stream.bytes.length then none else source.stream.fault
  stream : needed - buffer.size ≤ source.stream.bytes.length → filled.source.stream =
    ⟨source.stream.bytes.drop (needed - buffer.size), source.stream.fault⟩
  served : filled.source.served =
    source.served + min (needed - buffer.size) source.stream.bytes.length
  limit : filled.source.limit = source.limit

section
variable {needed : Nat} {buffer : Buffer} {source after : Source}

theorem fills_enough (h : needed ≤ buffer.size) :
    Fills needed buffer source ⟨none, buffer, source⟩ := by
  have hmissing : needed - buffer.size = 0 := by omega
  constructor
  · simp [hmissing]
  · simp [hmissing]
  · intro _
    simp [hmissing]
  · simp [hmissing]
  · rfl

theorem fills_of_stop {roomy : Buffer} {fault : Option Fault} (hlt : buffer.size < needed)
    (hroomy : roomy.bytes = buffer.bytes) (hstream : source.stream = ⟨[], fault⟩)
    (hserved : after.served = source.served) (hkept : after.limit = source.limit) :
    Fills needed buffer source ⟨fault, roomy, after⟩ := by
  have hmissing : ¬ needed - buffer.size ≤ 0 := by omega
  constructor
  · simp [hstream, hroomy]
  · simp [hstream, hmissing]
  · intro hle
    rw [hstream] at hle
    exact absurd hle hmissing
  · simp [hstream, hserved]
  · exact hkept

theorem Fills.of_read {middle : Buffer} {bytes : Bytes} {filled : Filled Source}
    (h : Fills needed middle after filled) (hheld : middle.bytes = buffer.bytes ++ bytes)
    (hlen : bytes.length ≤ needed - buffer.size)
    (hstream : source.stream = after.stream.prepend bytes)
    (hserved : after.served = source.served + bytes.length)
    (hkept : after.limit = source.limit) : Fills needed buffer source filled := by
  have hsize : middle.size = buffer.size + bytes.length := by
    rw [← length_bytes, hheld, List.length_append, length_bytes]
  have hleft : needed - middle.size = needed - buffer.size - bytes.length := by omega
  have hahead : source.stream.bytes = bytes ++ after.stream.bytes := by rw [hstream]; rfl
  have hfault : source.stream.fault = after.stream.fault := by rw [hstream]; rfl
  obtain ⟨hfbytes, hffault, hfstream, hfserved, hflimit⟩ := h
  rw [hleft] at hfbytes hffault hfstream hfserved
  constructor
  · rw [hfbytes, hheld, hahead, List.take_append, List.take_of_length_le hlen, List.append_assoc]
  · have hiff : needed - buffer.size ≤ bytes.length + after.stream.bytes.length ↔
        needed - buffer.size - bytes.length ≤ after.stream.bytes.length := by omega
    rw [hffault, hahead, hfault, List.length_append]
    simp only [hiff]
  · intro hle
    rw [hahead, List.length_append] at hle
    rw [hfstream (by omega), hahead, hfault, List.drop_append, List.drop_of_length_le hlen,
      List.nil_append]
  · rw [hfserved, hserved, hahead, List.length_append]
    omega
  · rw [hflimit, hkept]

end

theorem fill_fills (needed : Nat) (buffer : Buffer) (source : Source)
    (hlimit : source.limit ≠ some 0) : Fills needed buffer source (buffer.fill needed source) := by
  fun_induction fill needed buffer source with
  | case1 buffer source hlt roomy fault after h hkind ih =>
    obtain ⟨hstream, hserved, hkept⟩ := Source.stream_of_fault h
    rw [if_pos hkind] at hstream
    have hroomy : roomy.bytes = buffer.bytes ++ [] := by
      rw [bytes_makeRoom, List.append_nil]
    exact (ih (by rwa [hkept])).of_read hroomy (Nat.zero_le _) hstream hserved hkept
  | case2 buffer source hlt roomy fault after h hkind =>
    obtain ⟨hstream, hserved, hkept⟩ := Source.stream_of_fault h
    rw [if_neg hkind] at hstream
    exact fills_of_stop hlt (bytes_makeRoom buffer needed) hstream hserved hkept
  | case3 buffer source hlt roomy after h =>
    have hwant : 0 < min (needed - roomy.size) roomy.space := by
      have hspace : 0 < roomy.space := space_makeRoom_pos hlt
      have hsize : roomy.size = buffer.size := size_makeRoom buffer needed
      omega
    obtain ⟨hstream, hserved, hkept⟩ := Source.stream_of_read_nil hwant hlimit h
    exact fills_of_stop hlt (bytes_makeRoom buffer needed) hstream hserved hkept
  | case4 buffer source hlt roomy b bytes after h fits ih =>
    obtain ⟨hstream, hserved, hkept⟩ := Source.stream_of_read h (List.cons_ne_nil b bytes)
    have hlen : (b :: bytes).length ≤ needed - buffer.size := by
      have hread := ByteSource.length_le_of_read h
      have hsize : roomy.size = buffer.size := size_makeRoom buffer needed
      omega
    have hheld : (roomy.append (b :: bytes) fits).bytes = buffer.bytes ++ (b :: bytes) := by
      rw [bytes_append, bytes_makeRoom]
    exact (ih (by rwa [hkept])).of_read hheld hlen hstream hserved hkept
  | case5 buffer source hge => exact fills_enough (Nat.le_of_not_lt hge)

/-- Filling within what is held and to come moves their division and nothing else. -/
theorem fill_of_le {needed : Nat} {buffer : Buffer} {source : Source}
    (hlimit : source.limit ≠ some 0)
    (h : needed ≤ (buffer.bytes ++ source.stream.bytes).length) :
    ∃ (held : Buffer) (after : Source), buffer.fill needed source = ⟨none, held, after⟩ ∧
      held.bytes ++ after.stream.bytes = buffer.bytes ++ source.stream.bytes ∧
      after.stream.fault = source.stream.fault ∧ held.size = max buffer.size needed ∧
      after.served = source.served + (needed - buffer.size) ∧ after.limit = source.limit := by
  obtain ⟨hbytes, hfault, hstream, hserved, hkept⟩ := fill_fills needed buffer source hlimit
  rw [List.length_append, length_bytes] at h
  have hle : needed - buffer.size ≤ source.stream.bytes.length := by omega
  rw [if_pos hle] at hfault
  rw [Nat.min_eq_left hle] at hserved
  refine ⟨(buffer.fill needed source).buffer, (buffer.fill needed source).source, ?_, ?_, ?_, ?_,
    hserved, hkept⟩
  · rw [← hfault]
  · rw [hbytes, hstream hle, List.append_assoc, List.take_append_drop]
  · rw [hstream hle]
  · rw [← length_bytes, hbytes, List.length_append, List.length_take, length_bytes]
    omega

/-- Filling beyond them takes in everything and meets the way the stream ends. -/
theorem fill_of_lt {needed : Nat} {buffer : Buffer} {source : Source}
    (hlimit : source.limit ≠ some 0)
    (h : (buffer.bytes ++ source.stream.bytes).length < needed) :
    ∃ (held : Buffer) (after : Source),
      buffer.fill needed source = ⟨source.stream.fault, held, after⟩ ∧
      held.bytes = buffer.bytes ++ source.stream.bytes ∧
      after.served = source.served + source.stream.bytes.length := by
  obtain ⟨hbytes, hfault, _, hserved, _⟩ := fill_fills needed buffer source hlimit
  rw [List.length_append, length_bytes] at h
  have hlt : ¬ needed - buffer.size ≤ source.stream.bytes.length := by omega
  rw [if_neg hlt] at hfault
  rw [List.take_of_length_le (by omega)] at hbytes
  rw [Nat.min_eq_right (by omega)] at hserved
  refine ⟨(buffer.fill needed source).buffer, (buffer.fill needed source).source, ?_, hbytes,
    hserved⟩
  rw [← hfault]

end Buffer
end PacketCapture.Trace
