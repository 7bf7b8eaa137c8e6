import PacketCapture.Trace.ByteSource

/-! # Sources in memory

A source over a byte string, with an optional limit on the bytes per read and with events due at
offsets into the bytes: a read that meets one serves nothing and reports it once.
-/
namespace PacketCapture.Trace

/-- An interruption of service, due once `offset` bytes have been served. -/
structure Event where
  offset : Nat
  /-- A fault, or without one a passing end of input. -/
  fault : Option Fault
  deriving DecidableEq, Repr

def Event.result (event : Event) : ReadResult :=
  match event.fault with
  | none => .ok []
  | some fault => .error fault

structure Source where
  unread : Bytes
  served : Nat
  limit : Option Nat
  events : List Event
  deriving DecidableEq, Repr

namespace Source

def serve (source : Source) (n : Nat) : Bytes × Source :=
  let n := source.limit.elim n (min n)
  let bytes := source.unread.take n
  (bytes, { source with unread := source.unread.drop n, served := source.served + bytes.length })

/-- The next event if it is due, or else bytes up to it. -/
def read (source : Source) (want : Nat) : ReadResult × Source :=
  match source.events with
  | [] => let (bytes, source) := source.serve want; (.ok bytes, source)
  | event :: events =>
    if event.offset ≤ source.served then (event.result, { source with events })
    else
      let (bytes, source) := source.serve (min want (event.offset - source.served))
      (.ok bytes, source)

theorem length_serve_le (source : Source) (n : Nat) : (source.serve n).1.length ≤ n := by
  simp only [serve, List.length_take]
  cases source.limit with
  | none => exact Nat.min_le_left _ _
  | some m => exact Nat.le_trans (Nat.min_le_left _ _) (Nat.min_le_left _ _)

theorem serve_append (source : Source) (n : Nat) :
    (source.serve n).1 ++ (source.serve n).2.unread = source.unread :=
  List.take_append_drop _ _

/-- A read either serves the next bytes and no more than asked for, or takes up the next event. -/
theorem read_cases (source : Source) (want : Nat) :
    (∃ n ≤ want, source.read want = (.ok (source.serve n).1, (source.serve n).2)) ∨
      ∃ event events, source.events = event :: events ∧
        source.read want = (event.result, { source with events }) := by
  unfold read
  split
  · exact .inl ⟨want, Nat.le_refl _, rfl⟩
  · rename_i event events hevents
    split
    · exact .inr ⟨event, events, hevents, rfl⟩
    · exact .inl ⟨_, Nat.min_le_left _ _, rfl⟩

theorem bytes_eq_nil_of_result {event : Event} {bytes : Bytes} (h : event.result = .ok bytes) :
    bytes = [] := by
  unfold Event.result at h
  split at h
  · exact (Except.ok.inj h).symm
  · cases h

theorem append_of_read {source after : Source} {want : Nat} {bytes : Bytes}
    (h : source.read want = (.ok bytes, after)) :
    bytes ++ after.unread = source.unread ∧ bytes.length ≤ want ∧
      after.events.length ≤ source.events.length := by
  rcases source.read_cases want with ⟨n, hn, hread⟩ | ⟨event, events, hevents, hread⟩
  · rw [hread] at h
    cases h
    exact ⟨serve_append source n, Nat.le_trans (length_serve_le source n) hn, Nat.le_refl _⟩
  · obtain ⟨hresult, rfl⟩ := Prod.mk.inj (hread.symm.trans h)
    obtain rfl := bytes_eq_nil_of_result hresult
    exact ⟨rfl, Nat.zero_le _, by simp [hevents]⟩

theorem unread_of_fault {source after : Source} {want : Nat} {fault : Fault}
    (h : source.read want = (.error fault, after)) :
    after.unread = source.unread ∧ after.events.length < source.events.length := by
  rcases source.read_cases want with ⟨n, _, hread⟩ | ⟨event, events, hevents, hread⟩
  · rw [hread] at h
    cases h
  · obtain ⟨_, rfl⟩ := Prod.mk.inj (hread.symm.trans h)
    exact ⟨rfl, by simp [hevents]⟩

instance : FiniteSource Source where
  read := read
  interruptions source := source.events.length
  length_le_of_read h := (append_of_read h).2.1
  interruptions_le_of_read h := (append_of_read h).2.2
  interruptions_lt_of_fault h _ := (unread_of_fault h).2
  remaining source := source.unread.length
  remaining_le_of_read h :=
    Nat.le_of_eq (List.length_append.symm.trans (congrArg List.length (append_of_read h).1))
  remaining_le_of_fault h := Nat.le_of_eq (congrArg List.length (unread_of_fault h).1)

end Source
end PacketCapture.Trace
