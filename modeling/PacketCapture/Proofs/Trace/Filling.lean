import PacketCapture.Trace.Fill
import PacketCapture.Trace.Source

/-! # How filling goes on

Filling repeats reads as long as bytes are missing and none of its reads comes to nothing or to a
fault that is no interruption. What it takes from a source in memory it adds to the buffer, byte for
byte and never more than was missing.
-/
namespace PacketCapture.Trace

theorem Source.served_of_read {source after : Source} {want : Nat} {bytes : Bytes}
    (h : source.read want = (.ok bytes, after)) :
    after.served = source.served + bytes.length := by
  rcases source.read_cases want with ⟨n, _, hread⟩ | ⟨event, events, _, hread⟩
  · rw [hread] at h
    cases h
    rfl
  · obtain ⟨hresult, rfl⟩ := Prod.mk.inj (hread.symm.trans h)
    obtain rfl := bytes_eq_nil_of_result hresult
    rfl

theorem Source.served_of_fault {source after : Source} {want : Nat} {fault : Fault}
    (h : source.read want = (.error fault, after)) : after.served = source.served := by
  rcases source.read_cases want with ⟨n, _, hread⟩ | ⟨event, events, _, hread⟩
  · rw [hread] at h
    cases h
  · obtain ⟨_, rfl⟩ := Prod.mk.inj (hread.symm.trans h)
    rfl

namespace Buffer

def want (buffer : Buffer) (needed : Nat) : Nat :=
  min (needed - (buffer.makeRoom needed).size) (buffer.makeRoom needed).space

section
variable {σ : Type} [ByteSource σ]

/-- Filling a buffer from a source comes to another buffer and what is left of the source by then,
and goes on from there. -/
inductive Reaches (needed : Nat) : Buffer → σ → Buffer → σ → Prop
  | here (buffer : Buffer) (source : σ) : Reaches needed buffer source buffer source
  | again {buffer held : Buffer} {source after current : σ} {fault : Fault} :
      buffer.size < needed →
      ByteSource.read source (buffer.want needed) = (.error fault, after) →
      fault.kind = .interrupted →
      Reaches needed (buffer.makeRoom needed) after held current →
      Reaches needed buffer source held current
  | more {buffer held : Buffer} {source after current : σ} {bytes : Bytes} :
      buffer.size < needed →
      ByteSource.read source (buffer.want needed) = (.ok bytes, after) → bytes ≠ [] →
      (fits : bytes.length ≤ (buffer.makeRoom needed).space) →
      Reaches needed ((buffer.makeRoom needed).append bytes fits) after held current →
      Reaches needed buffer source held current

inductive Stops (needed : Nat) (buffer : Buffer) (source : σ) : Filled σ → Prop
  | enough : needed ≤ buffer.size → Stops needed buffer source ⟨none, buffer, source⟩
  | nothing {after : σ} : buffer.size < needed →
      ByteSource.read source (buffer.want needed) = (.ok [], after) →
      Stops needed buffer source ⟨none, buffer.makeRoom needed, after⟩
  | fault {after : σ} {fault : Fault} : buffer.size < needed →
      ByteSource.read source (buffer.want needed) = (.error fault, after) →
      fault.kind ≠ .interrupted →
      Stops needed buffer source ⟨some fault, buffer.makeRoom needed, after⟩

theorem fill_stops (needed : Nat) (buffer : Buffer) (source : σ) :
    ∃ held current, Reaches needed buffer source held current ∧
      Stops needed held current (buffer.fill needed source) := by
  fun_induction fill needed buffer source with
  | case1 buffer source hlt roomy fault after h hkind ih =>
    obtain ⟨held, current, hreaches, hstops⟩ := ih
    exact ⟨held, current, .again hlt h hkind hreaches, hstops⟩
  | case2 buffer source hlt roomy fault after h hkind =>
    exact ⟨buffer, source, .here buffer source, .fault hlt h hkind⟩
  | case3 buffer source hlt roomy after h =>
    exact ⟨buffer, source, .here buffer source, .nothing hlt h⟩
  | case4 buffer source hlt roomy b bytes after h fits ih =>
    obtain ⟨held, current, hreaches, hstops⟩ := ih
    exact ⟨held, current, .more hlt h (List.cons_ne_nil b bytes) fits hreaches, hstops⟩
  | case5 buffer source hge =>
    exact ⟨buffer, source, .here buffer source, .enough (Nat.le_of_not_lt hge)⟩

end

/-- The bytes taken are the next ones of the source and stand after those held before. -/
structure Draws (taken : Bytes) (buffer : Buffer) (source : Source) (held : Buffer)
    (current : Source) : Prop where
  bytes : held.bytes = buffer.bytes ++ taken
  unread : source.unread = taken ++ current.unread
  served : current.served = source.served + taken.length

section
variable {needed : Nat} {taken more : Bytes} {buffer middle held : Buffer}
  {source after current : Source}

theorem Draws.size (h : Draws taken buffer source held current) :
    held.size = buffer.size + taken.length := by
  rw [← length_bytes, h.bytes, List.length_append, length_bytes]

theorem Draws.trans (h : Draws taken buffer source middle after)
    (hmore : Draws more middle after held current) :
    Draws (taken ++ more) buffer source held current := by
  constructor
  · rw [hmore.bytes, h.bytes, List.append_assoc]
  · rw [h.unread, hmore.unread, List.append_assoc]
  · rw [hmore.served, h.served, List.length_append, Nat.add_assoc]

theorem draws_of_read {bytes : Bytes} (h : source.read (buffer.want needed) = (.ok bytes, after))
    (hheld : held.bytes = buffer.bytes ++ bytes) : Draws bytes buffer source held after :=
  ⟨hheld, (Source.append_of_read h).1.symm, Source.served_of_read h⟩

theorem draws_of_fault {fault : Fault}
    (h : source.read (buffer.want needed) = (.error fault, after))
    (hheld : held.bytes = buffer.bytes) : Draws [] buffer source held after := by
  refine ⟨?_, (Source.unread_of_fault h).1.symm, Source.served_of_fault h⟩
  rw [hheld, List.append_nil]

theorem length_le_of_read_want {bytes : Bytes}
    (h : source.read (buffer.want needed) = (.ok bytes, after)) :
    bytes.length ≤ needed - buffer.size := by
  have hle := (Source.append_of_read h).2.1
  rw [want, size_makeRoom] at hle
  omega

theorem Reaches.draws (h : Reaches needed buffer source held current) :
    ∃ taken, Draws taken buffer source held current ∧ taken.length ≤ needed - buffer.size := by
  induction h with
  | here buffer source => exact ⟨[], ⟨by simp, rfl, rfl⟩, Nat.zero_le _⟩
  | @again buffer held source after current fault hlt hread hkind _ ih =>
    obtain ⟨taken, hdraws, hle⟩ := ih
    rw [size_makeRoom] at hle
    exact ⟨[] ++ taken, (draws_of_fault hread (bytes_makeRoom buffer needed)).trans hdraws, hle⟩
  | @more buffer held source after current bytes hlt hread hne fits _ ih =>
    obtain ⟨taken, hdraws, hle⟩ := ih
    have hfirst := length_le_of_read_want hread
    rw [size_append, size_makeRoom] at hle
    refine ⟨bytes ++ taken, (draws_of_read hread ?_).trans hdraws, ?_⟩
    · rw [bytes_append, bytes_makeRoom]
    · rw [List.length_append]
      omega

theorem Stops.draws {filled : Filled Source} (h : Stops needed buffer source filled) :
    Draws [] buffer source filled.buffer filled.source := by
  cases h with
  | enough => exact ⟨by simp, rfl, rfl⟩
  | nothing _ hread =>
    refine draws_of_read hread ?_
    rw [bytes_makeRoom, List.append_nil]
  | fault _ hread => exact draws_of_fault hread (bytes_makeRoom buffer needed)

theorem fill_draws (needed : Nat) (buffer : Buffer) (source : Source) :
    ∃ taken, Draws taken buffer source (buffer.fill needed source).buffer
        (buffer.fill needed source).source ∧ taken.length ≤ needed - buffer.size := by
  obtain ⟨held, current, hreaches, hstops⟩ := fill_stops needed buffer source
  obtain ⟨taken, hdraws, hle⟩ := hreaches.draws
  have hall := hdraws.trans hstops.draws
  rw [List.append_nil] at hall
  exact ⟨taken, hall, hle⟩

theorem size_fill_lt_of_fault {fault : Fault}
    (h : (buffer.fill needed source).fault = some fault) :
    (buffer.fill needed source).buffer.size < needed := by
  obtain ⟨held, current, hreaches, hstops⟩ := fill_stops needed buffer source
  generalize buffer.fill needed source = filled at h hstops
  cases hstops with
  | enough => cases h
  | nothing => cases h
  | fault hlt => rwa [size_makeRoom]

end
end Buffer
end PacketCapture.Trace
