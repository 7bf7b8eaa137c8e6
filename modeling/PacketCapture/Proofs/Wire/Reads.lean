import PacketCapture.Wire.Decoder

/-! # What decoders take of their input

A decoder reads a byte string if it takes just these bytes, whatever follows them. Decoders of fixed
size read every string of that size, and delimited decoders read what they took of an input; both
refuse anything shorter for want of bytes.
-/
namespace PacketCapture.Decoder
variable {α β : Type} {d : Decoder α} {f : α → Decoder β}

theorem run_bind_of_ok {bytes rest : Bytes} {a : α} (h : d.run bytes = .ok (a, rest)) :
    (d >>= f).run bytes = (f a).run rest := by
  rw [StateT.run_bind, h]
  rfl

theorem run_bind_of_error {bytes : Bytes} {error : DecodeError} (h : d.run bytes = .error error) :
    (d >>= f).run bytes = .error error := by
  rw [StateT.run_bind, h]
  rfl

theorem bind_eq_ok {bytes rest : Bytes} {b : β} (h : (d >>= f).run bytes = .ok (b, rest)) :
    ∃ a middle, d.run bytes = .ok (a, middle) ∧ (f a).run middle = .ok (b, rest) := by
  cases hd : d.run bytes with
  | error error => rw [run_bind_of_error hd] at h; cases h
  | ok found =>
    obtain ⟨a, middle⟩ := found
    rw [run_bind_of_ok hd] at h
    exact ⟨a, middle, rfl, h⟩

/-- The decoder takes just these bytes for the value, whatever follows them. -/
def Reads (d : Decoder α) (bytes : Bytes) (a : α) : Prop :=
  ∀ more, d.run (bytes ++ more) = .ok (a, more)

theorem Reads.run_eq {bytes : Bytes} {a : α} (h : d.Reads bytes a) : d.run bytes = .ok (a, []) := by
  simpa using h []

theorem reads_pure (a : α) : Reads (pure a) [] a := fun _ => rfl

theorem Reads.bind {x y : Bytes} {a : α} {b : β} (hd : d.Reads x a) (hf : (f a).Reads y b) :
    (d >>= f).Reads (x ++ y) b := by
  intro more
  rw [List.append_assoc, run_bind_of_ok (hd (y ++ more))]
  exact hf more

theorem run_map_of_ok {bytes rest : Bytes} {a : α} (h : d.run bytes = .ok (a, rest)) (g : α → β) :
    (g <$> d).run bytes = .ok (g a, rest) := by
  rw [StateT.run_map, h]
  rfl

theorem Reads.map {x : Bytes} {a : α} (hd : d.Reads x a) (g : α → β) : (g <$> d).Reads x (g a) :=
  fun more => run_map_of_ok (hd more) g

theorem Reads.run_bind {x y : Bytes} {a : α} (hd : d.Reads x a) :
    (d >>= f).run (x ++ y) = (f a).run y := run_bind_of_ok (hd y)

theorem Reads.bind_pure {x : Bytes} {a : α} {g : α → β} (hd : d.Reads x a) :
    (d >>= fun a => pure (g a)).Reads x (g a) := by
  simpa using hd.bind (f := fun a => pure (g a)) (reads_pure (g a))

theorem reads_octets {n : Nat} (field : Octets n) : (octets n).Reads field.val field := by
  intro more
  obtain ⟨bytes, rfl⟩ := field
  simp [octets, StateT.run]

theorem reads_take {n : Nat} {bytes : Bytes} (h : bytes.length = n) : (take n).Reads bytes bytes :=
  (reads_octets ⟨bytes, h⟩).map Subtype.val

theorem reads_byte (b : UInt8) : byte.Reads [b] b := fun _ => rfl

theorem reads_word16 (order : ByteOrder) {bytes : Bytes} (h : bytes.length = 2) :
    (word16 order).Reads bytes (.ofNat (order.value bytes)) :=
  (reads_take h).bind_pure

theorem reads_word32 (order : ByteOrder) {bytes : Bytes} (h : bytes.length = 4) :
    (word32 order).Reads bytes (.ofNat (order.value bytes)) :=
  (reads_take h).bind_pure

theorem reads_on {stretch left : Bytes} {a : α} (hd : d.run stretch = .ok (a, left)) :
    (d.on stretch).Reads [] a := by
  intro more
  change (d.run stretch >>= fun found => Except.ok (found.1, more)) = _
  rw [hd]
  rfl

theorem run_on_of_error {stretch : Bytes} {error : DecodeError} (hd : d.run stretch = .error error)
    (more : Bytes) : (d.on stretch).run more = .error error := by
  change (d.run stretch >>= fun found => Except.ok (found.1, more)) = _
  rw [hd]
  rfl

/-- A bounded decoder takes its whole stretch, whatever it made use of. -/
theorem reads_within {n : Nat} {stretch left : Bytes} {a : α} (h : stretch.length = n)
    (hd : d.run stretch = .ok (a, left)) : (d.within n).Reads stretch a := by
  intro more
  rw [within, run_bind_of_ok (reads_take h more)]
  exact reads_on hd more

theorem run_within_of_error {n : Nat} {stretch : Bytes} {error : DecodeError}
    (h : stretch.length = n) (hd : d.run stretch = .error error) (more : Bytes) :
    (d.within n).run (stretch ++ more) = .error error := by
  rw [within, run_bind_of_ok (reads_take h more)]
  exact run_on_of_error hd more

theorem run_peek_of_ok {bytes rest : Bytes} {a : α} (h : d.run bytes = .ok (a, rest)) :
    d.peek.run bytes = .ok (a, bytes) := by
  change (d.run bytes >>= fun found => Except.ok (found.1, bytes)) = _
  rw [h]
  rfl

theorem run_peek_of_error {bytes : Bytes} {error : DecodeError} (h : d.run bytes = .error error) :
    d.peek.run bytes = .error error := by
  change (d.run bytes >>= fun found => Except.ok (found.1, bytes)) = _
  rw [h]
  rfl

theorem run_octets_of_lt {n : Nat} {bytes : Bytes} (h : bytes.length < n) :
    (octets n).run bytes = .error .insufficientLength := by
  have hne : ¬ (bytes.take n).length = n := by
    rw [List.length_take]
    omega
  exact dif_neg hne

theorem run_take_of_lt {n : Nat} {bytes : Bytes} (h : bytes.length < n) :
    (take n).run bytes = .error .insufficientLength := by
  rw [take, StateT.run_map, run_octets_of_lt h]
  rfl

theorem run_within_of_lt {n : Nat} {bytes : Bytes} (h : bytes.length < n) :
    (d.within n).run bytes = .error .insufficientLength :=
  run_bind_of_error (run_take_of_lt h)

theorem run_within_of_le {n : Nat} {bytes : Bytes} (h : n ≤ bytes.length) :
    (d.within n).run bytes = (d.run (bytes.take n)).map fun found => (found.1, bytes.drop n) := by
  have hlen := List.length_take_of_le h
  have hsplit := List.take_append_drop n bytes
  cases hd : d.run (bytes.take n) with
  | error error =>
    have hrun := run_within_of_error hlen hd (bytes.drop n)
    rwa [hsplit] at hrun
  | ok found =>
    have hrun := reads_within hlen hd (bytes.drop n)
    rwa [hsplit] at hrun

/-- The decoder reads every byte string of `n` bytes and wants no more than that. -/
structure Fixed (n : Nat) (d : Decoder α) : Prop where
  reads : ∀ bytes : Bytes, bytes.length = n → ∃ a, d.Reads bytes a
  short : ∀ bytes : Bytes, bytes.length < n → d.run bytes = .error .insufficientLength

theorem Fixed.run_of_le {n : Nat} {bytes : Bytes} (hd : d.Fixed n) (h : n ≤ bytes.length) :
    ∃ a, d.Reads (bytes.take n) a ∧ d.run bytes = .ok (a, bytes.drop n) := by
  obtain ⟨a, ha⟩ := hd.reads (bytes.take n) (List.length_take_of_le h)
  have hrun := ha (bytes.drop n)
  rw [List.take_append_drop] at hrun
  exact ⟨a, ha, hrun⟩

theorem Fixed.eq_of_run {n : Nat} {bytes rest : Bytes} {a : α} (hd : d.Fixed n)
    (h : d.run bytes = .ok (a, rest)) :
    n ≤ bytes.length ∧ rest = bytes.drop n ∧ d.Reads (bytes.take n) a := by
  by_cases hn : bytes.length < n
  · rw [hd.short bytes hn] at h
    cases h
  · obtain ⟨b, hb, hrun⟩ := hd.run_of_le (Nat.le_of_not_lt hn)
    rw [h] at hrun
    cases hrun
    exact ⟨Nat.le_of_not_lt hn, rfl, hb⟩

theorem fixed_pure (a : α) : Fixed 0 (pure a : Decoder α) where
  reads bytes h := by
    obtain rfl := List.eq_nil_of_length_eq_zero h
    exact ⟨a, reads_pure a⟩
  short bytes h := absurd h (Nat.not_lt_zero _)

theorem Fixed.bind_short {m n : Nat} {bytes : Bytes} (hd : d.Fixed m)
    (hf : ∀ a, ∀ bytes : Bytes, bytes.length < n → (f a).run bytes = .error .insufficientLength)
    (h : bytes.length < m + n) : (d >>= f).run bytes = .error .insufficientLength := by
  by_cases hm : bytes.length < m
  · exact run_bind_of_error (hd.short bytes hm)
  · obtain ⟨a, _, hrun⟩ := hd.run_of_le (Nat.le_of_not_lt hm)
    rw [run_bind_of_ok hrun]
    exact hf a _ (by rw [List.length_drop]; omega)

theorem Fixed.bind {m n : Nat} (hd : d.Fixed m) (hf : ∀ a, (f a).Fixed n) :
    (d >>= f).Fixed (m + n) := by
  constructor
  · intro bytes h
    obtain ⟨a, ha⟩ := hd.reads (bytes.take m) (by rw [List.length_take]; omega)
    obtain ⟨b, hb⟩ := (hf a).reads (bytes.drop m) (by rw [List.length_drop]; omega)
    refine ⟨b, ?_⟩
    rw [← List.take_append_drop m bytes]
    exact ha.bind hb
  · intro bytes h
    exact hd.bind_short (fun a => (hf a).short) h

theorem fixed_byte : byte.Fixed 1 where
  reads bytes h := by
    obtain ⟨b, rfl⟩ := List.length_eq_one_iff.mp h
    exact ⟨b, reads_byte b⟩
  short bytes h := by
    obtain rfl := List.eq_nil_of_length_eq_zero (Nat.lt_one_iff.mp h)
    rfl

theorem fixed_octets (n : Nat) : (octets n).Fixed n where
  reads bytes h := ⟨⟨bytes, h⟩, reads_octets ⟨bytes, h⟩⟩
  short _ := run_octets_of_lt

theorem fixed_take (n : Nat) : (take n).Fixed n where
  reads bytes h := ⟨bytes, reads_take h⟩
  short _ := run_take_of_lt

theorem fixed_word16 (order : ByteOrder) : (word16 order).Fixed 2 :=
  (fixed_take 2).bind fun _ => fixed_pure _

theorem fixed_word32 (order : ByteOrder) : (word32 order).Fixed 4 :=
  (fixed_take 4).bind fun _ => fixed_pure _

/-- What the decoder took of an input it also reads by itself, and no part of it is enough. -/
def Delimited (d : Decoder α) : Prop :=
  ∀ ⦃bytes rest : Bytes⦄ ⦃a : α⦄, d.run bytes = .ok (a, rest) →
    ∃ used, bytes = used ++ rest ∧ d.Reads used a ∧
      ∀ k < used.length, d.run (used.take k) = .error .insufficientLength

theorem delimited_pure (a : α) : Delimited (pure a : Decoder α) := by
  intro bytes rest b h
  cases h
  exact ⟨[], rfl, reads_pure a, fun k hk => absurd hk (Nat.not_lt_zero k)⟩

theorem Fixed.length_of_run {n : Nat} {bytes rest : Bytes} {a : α} (hd : d.Fixed n)
    (h : d.run bytes = .ok (a, rest)) : bytes.length = n + rest.length := by
  obtain ⟨hle, rfl, _⟩ := hd.eq_of_run h
  rw [List.length_drop]
  omega

theorem Fixed.delimited {n : Nat} (hd : d.Fixed n) : d.Delimited := by
  intro bytes rest a h
  obtain ⟨hle, rfl, hreads⟩ := hd.eq_of_run h
  refine ⟨bytes.take n, (List.take_append_drop n bytes).symm, hreads, ?_⟩
  intro k hk
  rw [List.length_take_of_le hle] at hk
  exact hd.short _ (by rw [List.length_take]; omega)

theorem Delimited.bind (hd : d.Delimited) (hf : ∀ a, (f a).Delimited) : (d >>= f).Delimited := by
  intro bytes rest b h
  obtain ⟨a, middle, ha, hb⟩ := bind_eq_ok h
  obtain ⟨x, rfl, hx, hxs⟩ := hd ha
  obtain ⟨y, rfl, hy, hys⟩ := hf a hb
  refine ⟨x ++ y, (List.append_assoc ..).symm, hx.bind hy, ?_⟩
  intro k hk
  rw [List.length_append] at hk
  by_cases hkx : k < x.length
  · rw [List.take_append_of_le_length (Nat.le_of_lt hkx)]
    exact run_bind_of_error (hxs k hkx)
  · rw [List.take_append, List.take_of_length_le (Nat.le_of_not_lt hkx), run_bind_of_ok (hx _)]
    exact hys _ (by omega)

/-- Bounding a decoder delimits it, whatever it is. -/
theorem delimited_within (d : Decoder α) (n : Nat) : (d.within n).Delimited := by
  intro bytes rest a h
  by_cases hn : bytes.length < n
  · rw [run_within_of_lt hn] at h
    cases h
  · have hlen := List.length_take_of_le (Nat.le_of_not_lt hn)
    rw [run_within_of_le (Nat.le_of_not_lt hn)] at h
    cases hd : d.run (bytes.take n) with
    | error error =>
      rw [hd] at h
      cases h
    | ok found =>
      rw [hd] at h
      cases h
      refine ⟨bytes.take n, (List.take_append_drop n bytes).symm, reads_within hlen hd, ?_⟩
      intro k hk
      exact run_within_of_lt (by rw [List.length_take]; omega)

theorem delimited_fail (error : DecodeError) : Delimited (fail error : Decoder α) := nofun

theorem Delimited.map (hd : d.Delimited) (g : α → β) : (g <$> d).Delimited := by
  rw [← bind_pure_comp]
  exact hd.bind fun a => delimited_pure (g a)

theorem Delimited.guard {p : Prop} [Decidable p] {error : DecodeError} {next : Unit → Decoder β}
    (h : (next ()).Delimited) : (if p then fail error >>= next else next ()).Delimited := by
  split
  · exact (delimited_fail error).bind fun _ => h
  · exact h

theorem delimited_on (d : Decoder α) (stretch : Bytes) : (d.on stretch).Delimited := by
  intro bytes rest a h
  cases hd : d.run stretch with
  | error error =>
    rw [run_on_of_error hd] at h
    cases h
  | ok found =>
    have hreads : (d.on stretch).Reads [] found.1 := reads_on hd
    have hrun := hreads bytes
    rw [List.nil_append, h] at hrun
    cases hrun
    exact ⟨[], rfl, hreads, fun k hk => absurd hk (Nat.not_lt_zero k)⟩

theorem Delimited.front_of_run {bytes rest : Bytes} {a : α} (hd : d.Delimited)
    (h : d.run bytes = .ok (a, rest)) :
    rest <:+ bytes ∧ (∀ more, d.run (bytes ++ more) = .ok (a, rest ++ more)) ∧
      ∀ k < bytes.length - rest.length, d.run (bytes.take k) = .error .insufficientLength := by
  obtain ⟨used, rfl, hreads, hcut⟩ := hd h
  refine ⟨List.suffix_append used rest, ?_, ?_⟩
  · intro more
    rw [List.append_assoc]
    exact hreads (rest ++ more)
  · intro k hk
    rw [List.length_append, Nat.add_sub_cancel] at hk
    rw [List.take_append_of_le_length (Nat.le_of_lt hk)]
    exact hcut k hk

end PacketCapture.Decoder
