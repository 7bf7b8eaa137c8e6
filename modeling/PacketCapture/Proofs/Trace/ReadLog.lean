import PacketCapture.Proofs.Trace.Filling

/-! # The reads of a filling

A source on record keeps what every read asked for and what it gave. Filling cannot tell it from
the source itself, so that the record shows the reads of any filling: what they served is what the
buffer has more than before, and the last of them says why there is no more.
-/
namespace PacketCapture.Trace

structure Read where
  want : Nat
  result : ReadResult

namespace Read

def bytes (read : Read) : Bytes :=
  match read.result with
  | .ok bytes => bytes
  | .error _ => []

def isInterrupted (read : Read) : Bool :=
  match read.result with
  | .ok _ => false
  | .error fault => fault.kind = .interrupted

end Read

def served (reads : List Read) : Bytes := reads.flatMap Read.bytes

@[simp] theorem served_cons (read : Read) (reads : List Read) :
    served (read :: reads) = read.bytes ++ served reads := List.flatMap_cons

@[simp] theorem served_append (reads more : List Read) :
    served (reads ++ more) = served reads ++ served more := List.flatMap_append

/-- How reads go on to the end of a filling, by the number of bytes missing, and the fault that
stops it, if any. -/
inductive Course : Nat → List Read → Option Fault → Prop
  | enough : Course 0 [] none
  | nothing {missing want : Nat} : 0 < want → want ≤ missing →
      Course missing [⟨want, .ok []⟩] none
  | fault {missing want : Nat} {fault : Fault} : 0 < want → want ≤ missing →
      fault.kind ≠ .interrupted → Course missing [⟨want, .error fault⟩] (some fault)
  | again {missing want : Nat} {fault : Fault} {reads : List Read} {stop : Option Fault} :
      0 < want → want ≤ missing → fault.kind = .interrupted → Course missing reads stop →
      Course missing (⟨want, .error fault⟩ :: reads) stop
  | more {missing want : Nat} {bytes : Bytes} {reads : List Read} {stop : Option Fault} :
      0 < want → want ≤ missing → bytes ≠ [] → bytes.length ≤ want →
      Course (missing - bytes.length) reads stop → Course missing (⟨want, .ok bytes⟩ :: reads) stop

namespace Course
variable {missing : Nat} {reads : List Read} {stop : Option Fault}

theorem eq_nil (h : Course 0 reads stop) : reads = [] := by
  cases h with
  | enough => rfl
  | nothing hpos hle | fault hpos hle | again hpos hle | more hpos hle => omega

theorem asks (h : Course missing reads stop) :
    ∀ read ∈ reads, 0 < read.want ∧ read.want ≤ missing := by
  induction h with
  | enough => nofun
  | nothing hpos hle | fault hpos hle =>
    simp only [List.mem_singleton, forall_eq]
    exact ⟨hpos, hle⟩
  | again hpos hle _ _ ih =>
    intro read hmem
    rcases List.mem_cons.mp hmem with rfl | hmem
    · exact ⟨hpos, hle⟩
    · exact ih read hmem
  | more hpos hle _ _ _ ih =>
    intro read hmem
    rcases List.mem_cons.mp hmem with rfl | hmem
    · exact ⟨hpos, hle⟩
    · obtain ⟨hread, hmissing⟩ := ih read hmem
      exact ⟨hread, by omega⟩

theorem length_served_le (h : Course missing reads stop) : (served reads).length ≤ missing := by
  induction h with
  | enough | nothing | fault => exact Nat.zero_le _
  | again _ _ _ _ ih => exact ih
  | more _ hle _ hbytes _ ih =>
    rw [served_cons, List.length_append]
    simp only [Read.bytes]
    omega

theorem length_le (h : Course missing reads stop) :
    reads.length ≤ (served reads).length + reads.countP Read.isInterrupted + 1 := by
  induction h with
  | enough => exact Nat.zero_le _
  | nothing | fault => simp
  | again _ _ hkind _ ih =>
    rw [List.countP_cons_of_pos (by simp [Read.isInterrupted, hkind]), served_cons]
    simp only [Read.bytes, List.nil_append, List.length_cons]
    omega
  | more _ _ hne _ _ ih =>
    have hpos := List.length_pos_iff.mpr hne
    rw [List.countP_cons_of_neg (by simp [Read.isInterrupted]), served_cons, List.length_append]
    simp only [Read.bytes, List.length_cons]
    omega

theorem getLast?_of_lt (h : Course missing reads none) (hlt : (served reads).length < missing) :
    ∃ want, reads.getLast? = some ⟨want, .ok []⟩ := by
  -- how the reads stop is kept as an equation along the induction on how they go on
  generalize hstop : none = stop at h
  induction h with
  | enough => exact absurd hlt (Nat.not_lt_zero _)
  | nothing => exact ⟨_, rfl⟩
  | fault => cases hstop
  | again _ _ _ _ ih =>
    obtain ⟨want, hlast⟩ := ih hlt hstop
    exact ⟨want, by rw [List.getLast?_cons, hlast, Option.getD_some]⟩
  | more _ _ _ _ _ ih =>
    rw [served_cons, List.length_append] at hlt
    obtain ⟨want, hlast⟩ := ih (Nat.lt_sub_of_add_lt (Nat.add_comm _ _ ▸ hlt)) hstop
    exact ⟨want, by rw [List.getLast?_cons, hlast, Option.getD_some]⟩

theorem getLast?_of_fault {fault : Fault} (h : Course missing reads (some fault)) :
    fault.kind ≠ .interrupted ∧ ∃ want, reads.getLast? = some ⟨want, .error fault⟩ := by
  generalize hstop : some fault = stop at h
  induction h with
  | enough | nothing => cases hstop
  | fault _ _ hkind =>
    cases hstop
    exact ⟨hkind, _, rfl⟩
  | again _ _ _ _ ih | more _ _ _ _ _ ih =>
    obtain ⟨hkind, want, hlast⟩ := ih hstop
    exact ⟨hkind, want, by rw [List.getLast?_cons, hlast, Option.getD_some]⟩

end Course

/-- A source with all the reads so far. -/
structure Recorded (σ : Type) where
  source : σ
  reads : List Read

namespace Recorded
variable {σ : Type} [ByteSource σ]

def start (source : σ) : Recorded σ := ⟨source, []⟩

def read (recorded : Recorded σ) (want : Nat) : ReadResult × Recorded σ :=
  let (result, after) := ByteSource.read recorded.source want
  (result, ⟨after, recorded.reads ++ [⟨want, result⟩]⟩)

theorem read_eq {recorded after : Recorded σ} {want : Nat} {result : ReadResult}
    (h : recorded.read want = (result, after)) :
    ByteSource.read recorded.source want = (result, after.source) ∧
      after.reads = recorded.reads ++ [⟨want, result⟩] := by
  cases h
  exact ⟨rfl, rfl⟩

instance : ByteSource (Recorded σ) where
  read := read
  interruptions recorded := ByteSource.interruptions recorded.source
  length_le_of_read h := ByteSource.length_le_of_read (read_eq h).1
  interruptions_le_of_read h := ByteSource.interruptions_le_of_read (read_eq h).1
  interruptions_lt_of_fault h := ByteSource.interruptions_lt_of_fault (read_eq h).1

end Recorded

namespace Filled
variable {σ : Type} {filled : Filled σ}

/-- What filling returns: the number of bytes held, or the fault that stopped it. -/
def result (filled : Filled σ) : Except DecodeError Nat :=
  match filled.fault with
  | none => .ok filled.buffer.size
  | some fault => .error (.source fault)

theorem result_eq_ok {count : Nat} (h : filled.result = .ok count) :
    filled.fault = none ∧ filled.buffer.size = count := by
  cases hfault : filled.fault with
  | none =>
    rw [result, hfault] at h
    exact ⟨rfl, Except.ok.inj h⟩
  | some fault =>
    rw [result, hfault] at h
    cases h

theorem result_eq_error {error : DecodeError} (h : filled.result = .error error) :
    ∃ fault, filled.fault = some fault ∧ .source fault = error := by
  cases hfault : filled.fault with
  | none =>
    rw [result, hfault] at h
    cases h
  | some fault =>
    rw [result, hfault] at h
    exact ⟨fault, rfl, Except.error.inj h⟩

end Filled

namespace Buffer
variable {σ : Type} [ByteSource σ] {needed : Nat} {buffer held : Buffer}

section
variable {source after current : σ} {bytes : Bytes} {fault : Fault}

theorem fill_of_nothing (hlt : buffer.size < needed)
    (hread : ByteSource.read source (buffer.want needed) = (.ok [], after)) :
    buffer.fill needed source = ⟨none, buffer.makeRoom needed, after⟩ := by
  rw [fill, if_pos hlt]
  dsimp only
  split
  · rename_i h
    cases h.symm.trans hread
  · rename_i h
    cases h.symm.trans hread
    rfl
  · rename_i h
    cases h.symm.trans hread

theorem fill_of_fault (hlt : buffer.size < needed)
    (hread : ByteSource.read source (buffer.want needed) = (.error fault, after)) :
    buffer.fill needed source =
      if fault.kind = .interrupted then (buffer.makeRoom needed).fill needed after
      else ⟨some fault, buffer.makeRoom needed, after⟩ := by
  rw [fill, if_pos hlt]
  dsimp only
  split
  · rename_i h
    cases h.symm.trans hread
    rfl
  · rename_i h
    cases h.symm.trans hread
  · rename_i h
    cases h.symm.trans hread

theorem fill_of_bytes (hlt : buffer.size < needed)
    (hread : ByteSource.read source (buffer.want needed) = (.ok bytes, after)) (hne : bytes ≠ [])
    (fits : bytes.length ≤ (buffer.makeRoom needed).space) :
    buffer.fill needed source = ((buffer.makeRoom needed).append bytes fits).fill needed after := by
  rw [fill, if_pos hlt]
  dsimp only
  split
  · rename_i h
    cases h.symm.trans hread
  · rename_i h
    cases h.symm.trans hread
    exact absurd rfl hne
  · rename_i h
    cases h.symm.trans hread
    rfl

theorem Stops.fill_eq {filled : Filled σ} (h : Stops needed buffer source filled) :
    buffer.fill needed source = filled := by
  cases h with
  | enough hle => rw [fill, if_neg (Nat.not_lt.mpr hle)]
  | nothing hlt hread => exact fill_of_nothing hlt hread
  | fault hlt hread hkind => rw [fill_of_fault hlt hread, if_neg hkind]

theorem Reaches.fill_eq (h : Reaches needed buffer source held current) :
    buffer.fill needed source = held.fill needed current := by
  induction h with
  | here => rfl
  | again hlt hread hkind _ ih => rw [fill_of_fault hlt hread, if_pos hkind, ih]
  | more hlt hread hne fits _ ih => rw [fill_of_bytes hlt hread hne fits, ih]

theorem want_pos (h : buffer.size < needed) : 0 < buffer.want needed := by
  have hspace := space_makeRoom_pos h
  rw [want, size_makeRoom]
  omega

theorem want_le (buffer : Buffer) (needed : Nat) : buffer.want needed ≤ needed - buffer.size := by
  rw [want, size_makeRoom]
  exact Nat.min_le_left _ _

end

section
variable {middle : Buffer} {recorded after current : Recorded σ} {filled : Filled (Recorded σ)}

theorem Reaches.source (h : Reaches needed buffer recorded held current) :
    Reaches needed buffer recorded.source held current.source := by
  induction h with
  | here => exact .here _ _
  | again hlt hread hkind _ ih => exact .again hlt (Recorded.read_eq hread).1 hkind ih
  | more hlt hread hne fits _ ih => exact .more hlt (Recorded.read_eq hread).1 hne fits ih

theorem Stops.source (h : Stops needed buffer recorded filled) :
    Stops needed buffer recorded.source ⟨filled.fault, filled.buffer, filled.source.source⟩ := by
  cases h with
  | enough hle => exact .enough hle
  | nothing hlt hread => exact .nothing hlt (Recorded.read_eq hread).1
  | fault hlt hread hkind => exact .fault hlt (Recorded.read_eq hread).1 hkind

/-- The reads that take a filling from one buffer and source to others: what they serve is held in
addition, and whatever reads go on from there go on from before them. -/
structure Passes (needed : Nat) (reads : List Read) (buffer : Buffer) (recorded : Recorded σ)
    (held : Buffer) (current : Recorded σ) : Prop where
  log : current.reads = recorded.reads ++ reads
  bytes : held.bytes = buffer.bytes ++ served reads
  interrupted : reads.countP Read.isInterrupted + ByteSource.interruptions current ≤
    ByteSource.interruptions recorded
  course : ∀ {more stop}, Course (needed - held.size) more stop →
    Course (needed - buffer.size) (reads ++ more) stop

theorem Passes.refl (needed : Nat) (buffer : Buffer) (recorded : Recorded σ) :
    Passes needed [] buffer recorded buffer recorded where
  log := (List.append_nil _).symm
  bytes := (List.append_nil _).symm
  interrupted := Nat.le_of_eq (Nat.zero_add _)
  course := id

theorem Passes.trans {reads more : List Read} (h : Passes needed reads buffer recorded middle after)
    (hmore : Passes needed more middle after held current) :
    Passes needed (reads ++ more) buffer recorded held current where
  log := by rw [hmore.log, h.log, List.append_assoc]
  bytes := by rw [hmore.bytes, h.bytes, served_append, List.append_assoc]
  interrupted := by
    have hfirst := h.interrupted
    have hsecond := hmore.interrupted
    rw [List.countP_append]
    omega
  course hcourse := by
    rw [List.append_assoc]
    exact h.course (hmore.course hcourse)

theorem passes_of_interruption {fault : Fault} (hlt : buffer.size < needed)
    (hread : ByteSource.read recorded (buffer.want needed) = (.error fault, after))
    (hkind : fault.kind = .interrupted) :
    Passes needed [⟨buffer.want needed, .error fault⟩] buffer recorded (buffer.makeRoom needed)
      after where
  log := (Recorded.read_eq hread).2
  bytes := (bytes_makeRoom buffer needed).trans (List.append_nil _).symm
  interrupted := by
    have hless := ByteSource.interruptions_lt_of_fault hread hkind
    rw [List.countP_cons_of_pos (by simp [Read.isInterrupted, hkind]), List.countP_nil]
    omega
  course hcourse := by
    rw [size_makeRoom] at hcourse
    exact .again (want_pos hlt) (want_le buffer needed) hkind hcourse

theorem passes_of_bytes {bytes : Bytes} (hlt : buffer.size < needed)
    (hread : ByteSource.read recorded (buffer.want needed) = (.ok bytes, after)) (hne : bytes ≠ [])
    (fits : bytes.length ≤ (buffer.makeRoom needed).space) :
    Passes needed [⟨buffer.want needed, .ok bytes⟩] buffer recorded
      ((buffer.makeRoom needed).append bytes fits) after where
  log := (Recorded.read_eq hread).2
  bytes := by
    rw [bytes_append, bytes_makeRoom, served_cons]
    exact congrArg _ (List.append_nil bytes).symm
  interrupted := by
    have hless := ByteSource.interruptions_le_of_read hread
    rw [List.countP_cons_of_neg (by simp [Read.isInterrupted]), List.countP_nil]
    omega
  course hcourse := by
    rw [size_append, size_makeRoom, ← Nat.sub_sub] at hcourse
    exact .more (want_pos hlt) (want_le buffer needed) hne (ByteSource.length_le_of_read hread)
      hcourse

theorem Reaches.passes (h : Reaches needed buffer recorded held current) :
    ∃ reads, Passes needed reads buffer recorded held current := by
  induction h with
  | here buffer recorded => exact ⟨[], .refl needed buffer recorded⟩
  | again hlt hread hkind _ ih =>
    obtain ⟨reads, hpasses⟩ := ih
    exact ⟨_, (passes_of_interruption hlt hread hkind).trans hpasses⟩
  | more hlt hread hne fits _ ih =>
    obtain ⟨reads, hpasses⟩ := ih
    exact ⟨_, (passes_of_bytes hlt hread hne fits).trans hpasses⟩

theorem Stops.course (h : Stops needed buffer recorded filled) :
    ∃ reads, filled.source.reads = recorded.reads ++ reads ∧ filled.buffer.bytes = buffer.bytes ∧
      served reads = [] ∧ reads.countP Read.isInterrupted = 0 ∧
      Course (needed - buffer.size) reads filled.fault := by
  cases h with
  | enough hle =>
    refine ⟨[], (List.append_nil _).symm, rfl, rfl, rfl, ?_⟩
    rw [Nat.sub_eq_zero_of_le hle]
    exact .enough
  | nothing hlt hread =>
    exact ⟨_, (Recorded.read_eq hread).2, bytes_makeRoom buffer needed, rfl, rfl,
      .nothing (want_pos hlt) (want_le buffer needed)⟩
  | fault hlt hread hkind =>
    exact ⟨_, (Recorded.read_eq hread).2, bytes_makeRoom buffer needed, rfl,
      by simp [Read.isInterrupted, hkind], .fault (want_pos hlt) (want_le buffer needed) hkind⟩

/-- Filling from a source on record is filling from the source, and notes how its reads go on. -/
theorem fill_recorded (needed : Nat) (buffer : Buffer) (source : σ) :
    ∃ reads, buffer.fill needed (Recorded.start source) =
        ⟨(buffer.fill needed source).fault, (buffer.fill needed source).buffer,
          ⟨(buffer.fill needed source).source, reads⟩⟩ ∧
      (buffer.fill needed source).buffer.bytes = buffer.bytes ++ served reads ∧
      reads.countP Read.isInterrupted ≤ ByteSource.interruptions source ∧
      Course (needed - buffer.size) reads (buffer.fill needed source).fault := by
  obtain ⟨held, current, hreaches, hstops⟩ := fill_stops needed buffer (Recorded.start source)
  obtain ⟨reads, hpasses⟩ := hreaches.passes
  obtain ⟨last, hlog, hbytes, hserved, hnone, hend⟩ := hstops.course
  have hsource : buffer.fill needed source = _ :=
    hreaches.source.fill_eq.trans hstops.source.fill_eq
  have hreads : (buffer.fill needed (Recorded.start source)).source.reads = reads ++ last := by
    rw [hlog, hpasses.log]
    rfl
  rw [hsource]
  refine ⟨reads ++ last, ?_, ?_, ?_, hpasses.course hend⟩
  · rw [← hreads]
  · rw [hbytes, hpasses.bytes, served_append, hserved, List.append_nil]
  · rw [List.countP_append, hnone]
    exact Nat.le_trans (Nat.le_add_right _ _) hpasses.interrupted

end

/-- Filling adds to the buffer just what its reads serve, and no more than is missing. None of them
asks for nothing, and there are none where nothing is missing. Their number is bounded, so that
filling comes to an end: with too few bytes because the last read served nothing, or with the fault
of the last read. -/
theorem fill_contract (needed : Nat) (buffer : Buffer) (source : σ) :
    let filled := buffer.fill needed source
    ∃ reads, buffer.fill needed (Recorded.start source) =
        ⟨filled.fault, filled.buffer, ⟨filled.source, reads⟩⟩ ∧
      filled.buffer.bytes = buffer.bytes ++ served reads ∧
      (served reads).length ≤ needed - buffer.size ∧
      (needed ≤ buffer.size → reads = []) ∧
      (∀ read ∈ reads, 0 < read.want ∧ read.want ≤ needed - buffer.size) ∧
      reads.length ≤ needed - buffer.size + ByteSource.interruptions source + 1 ∧
      (∀ count, filled.result = .ok count → count = filled.buffer.size ∧
        (count < needed → ∃ want, reads.getLast? = some ⟨want, .ok []⟩)) ∧
      ∀ error, filled.result = .error error → ∃ fault want, error = .source fault ∧
        fault.kind ≠ .interrupted ∧ reads.getLast? = some ⟨want, .error fault⟩ := by
  dsimp only
  obtain ⟨reads, hrecorded, hbytes, hcount, hcourse⟩ := fill_recorded needed buffer source
  generalize buffer.fill needed source = filled at hrecorded hbytes hcourse ⊢
  have hserved := hcourse.length_served_le
  refine ⟨reads, hrecorded, hbytes, hserved, ?_, hcourse.asks, ?_, ?_, ?_⟩
  · intro hle
    rw [Nat.sub_eq_zero_of_le hle] at hcourse
    exact hcourse.eq_nil
  · have hlength := hcourse.length_le
    omega
  · intro count hresult
    obtain ⟨hfault, rfl⟩ := Filled.result_eq_ok hresult
    refine ⟨rfl, fun hlt => ?_⟩
    rw [← length_bytes, hbytes, List.length_append, length_bytes] at hlt
    rw [hfault] at hcourse
    exact hcourse.getLast?_of_lt (by omega)
  · intro error hresult
    obtain ⟨fault, hfault, rfl⟩ := Filled.result_eq_error hresult
    rw [hfault] at hcourse
    obtain ⟨hkind, want, hlast⟩ := hcourse.getLast?_of_fault
    exact ⟨fault, want, rfl, hkind, hlast⟩

/-- Two bytes at most per read, an interruption behind the first byte and a fault behind the third.
-/
def unsteady : Source where
  unread := [1, 2, 3, 4]
  served := 0
  limit := some 2
  events := [⟨1, some ⟨.interrupted, "again"⟩⟩, ⟨3, some ⟨.timedOut, "late"⟩⟩]

theorem fill_contract_unsteady :
    (∃ reads, ((ofBytes 1 [0]).fill 8 (Recorded.start unsteady)).source.reads = reads ∧
      served reads = [1, 2, 3] ∧ reads.length ≤ 10 ∧ (∀ read ∈ reads, 0 < read.want) ∧
      ((ofBytes 1 [0]).fill 8 unsteady).result = .error (.source ⟨.timedOut, "late"⟩) ∧
      ∃ want, reads.getLast? = some ⟨want, .error ⟨.timedOut, "late"⟩⟩) ∧
    ((ofBytes 1 [0]).fill 1 (Recorded.start unsteady)).source.reads = [] := by
  have hresult : ((ofBytes 1 [0]).fill 8 unsteady).result =
    .error (.source ⟨.timedOut, "late"⟩) := by cbv
  have hheld : ((ofBytes 1 [0]).fill 8 unsteady).buffer.bytes = [0] ++ [1, 2, 3] := by cbv
  obtain ⟨reads, hrecorded, hbytes, _, _, hasks, hlength, _, herror⟩ :=
    fill_contract 8 (ofBytes 1 [0]) unsteady
  obtain ⟨none, hnone, _, _, henough, _⟩ := fill_contract 1 (ofBytes 1 [0]) unsteady
  obtain ⟨fault, want, hfault, _, hlast⟩ := herror _ hresult
  cases hfault
  have hpos := fun read hread => (hasks read hread).1
  refine ⟨⟨reads, ?_, ?_, hlength, hpos, hresult, want, hlast⟩, ?_⟩
  · rw [hrecorded]
  · rw [hheld] at hbytes
    exact (List.append_cancel_left hbytes).symm
  · rw [hnone]
    exact henough (by decide)

end Buffer
end PacketCapture.Trace
