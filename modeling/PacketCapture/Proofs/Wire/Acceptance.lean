import PacketCapture.Proofs.Wire.Refusals

/-! # Languages of decoders

A decoder recognizes a set of byte strings if it makes something of these and refuses all others.
Which ones they are follows the steps of the decoder, what stands in front judged first.
-/
namespace PacketCapture.Decoder
variable {α β : Type} {d : Decoder α} {bytes : Bytes} {p q : Bytes → Prop} {n : Nat}

def Accepts (d : Decoder α) (bytes : Bytes) : Prop := ∃ a rest, d.run bytes = .ok (a, rest)

def Recognizes (d : Decoder α) (p : Bytes → Prop) : Prop := ∀ bytes, d.Accepts bytes ↔ p bytes

theorem not_accepts_of_error {error : DecodeError} (h : d.run bytes = .error error) :
    ¬ d.Accepts bytes := by
  rintro ⟨a, rest, hrun⟩
  rw [h] at hrun
  cases hrun

theorem not_accepts_iff : ¬ d.Accepts bytes ↔ ∃ error, d.run bytes = .error error := by
  constructor
  · intro h
    cases hrun : d.run bytes with
    | error error => exact ⟨error, rfl⟩
    | ok found => exact absurd ⟨found.1, found.2, hrun⟩ h
  · rintro ⟨error, hrun⟩
    exact not_accepts_of_error hrun

theorem accepts_bind_iff {f : α → Decoder β} : (d >>= f).Accepts bytes ↔
    ∃ a rest, d.run bytes = .ok (a, rest) ∧ (f a).Accepts rest := by
  constructor
  · rintro ⟨b, rest, hrun⟩
    obtain ⟨a, middle, ha, hb⟩ := bind_eq_ok hrun
    exact ⟨a, middle, ha, b, rest, hb⟩
  · rintro ⟨a, middle, ha, b, rest, hb⟩
    exact ⟨b, rest, by rw [run_bind_of_ok ha, hb]⟩

theorem Recognizes.congr (hd : d.Recognizes p) (h : ∀ bytes, p bytes ↔ q bytes) :
    d.Recognizes q := fun bytes => (hd bytes).trans (h bytes)

theorem Recognizes.insufficientLength_iff (hd : d.Recognizes p) (hwants : d.Wants) :
    d.run bytes = .error .insufficientLength ↔ ¬ p bytes := by
  rw [← hd bytes, not_accepts_iff]
  constructor
  · intro h
    exact ⟨_, h⟩
  · rintro ⟨error, h⟩
    rwa [hwants bytes error h] at h

theorem recognizes_pure (a : α) : (pure a : Decoder α).Recognizes fun _ => True :=
  fun bytes => ⟨fun _ => trivial, fun _ => ⟨a, bytes, rfl⟩⟩

theorem recognizes_rest : rest.Recognizes fun _ => True :=
  fun bytes => ⟨fun _ => trivial, fun _ => ⟨bytes, [], rfl⟩⟩

theorem Fixed.recognizes (hd : d.Fixed n) : d.Recognizes fun bytes => n ≤ bytes.length := by
  intro bytes
  constructor
  · rintro ⟨a, rest, hrun⟩
    exact (hd.eq_of_run hrun).1
  · intro h
    obtain ⟨a, _, hrun⟩ := hd.run_of_le h
    exact ⟨a, _, hrun⟩

theorem Fixed.bind_recognizes {f : α → Decoder β} (hd : d.Fixed n)
    (hf : ∀ a, (f a).Recognizes p) : (d >>= f).Recognizes (Behind n p) := by
  intro bytes
  rw [accepts_bind_iff, ← hd.exists_run_iff]
  simp only [(hf _) _]

theorem recognizes_word16_bind {order : ByteOrder} {f : UInt16 → Decoder β}
    {k : UInt16 → Bytes → Prop} (hf : ∀ word, (f word).Recognizes (k word)) :
    (word16 order >>= f).Recognizes fun bytes =>
      ∃ word more, bytes = order.bytes16 word ++ more ∧ k word more := by
  intro bytes
  constructor
  · rintro ⟨b, rest, hrun⟩
    obtain ⟨word, more, rfl, hmore⟩ := word16_bind_eq_ok hrun
    exact ⟨word, more, rfl, (hf word more).mp ⟨b, rest, hmore⟩⟩
  · rintro ⟨word, more, rfl, h⟩
    obtain ⟨b, rest, hmore⟩ := (hf word more).mpr h
    exact ⟨b, rest, (reads_bytes16 order word).run_bind.trans hmore⟩

theorem Recognizes.guard {c : Prop} [Decidable c] {error : DecodeError} {next : Unit → Decoder β}
    (h : (next ()).Recognizes p) :
    (if c then fail error >>= next else next ()).Recognizes fun bytes => ¬ c ∧ p bytes := by
  intro bytes
  by_cases hc : c
  · rw [if_pos hc]
    exact iff_of_false (not_accepts_of_error rfl) fun hp => hp.1 hc
  · rw [if_neg hc, h bytes]
    exact (and_iff_right hc).symm

theorem Recognizes.map (hd : d.Recognizes p) (g : α → β) : (g <$> d).Recognizes p := by
  intro bytes
  rw [← hd bytes]
  constructor
  · rintro ⟨b, rest, hrun⟩
    obtain ⟨a, ha, _⟩ := map_eq_ok hrun
    exact ⟨a, rest, ha⟩
  · rintro ⟨a, rest, hrun⟩
    exact ⟨g a, rest, run_map_of_ok hrun g⟩

theorem Recognizes.bind_pure (hd : d.Recognizes p) (g : α → β) :
    (d >>= fun a => pure (g a)).Recognizes p := by
  rw [bind_pure_comp]
  exact hd.map g

end PacketCapture.Decoder
