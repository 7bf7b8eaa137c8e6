import PacketCapture.Proofs.Wire.Words

/-! # What a decoder took

A decoding that succeeded has gone through all of its steps, so its input can be taken apart the same
way: each field is found at the front of what the fields before it left.
-/
namespace PacketCapture.Decoder
variable {α β : Type} {d : Decoder α} {f : α → Decoder β} {bytes rest : Bytes} {b : β} {n : Nat}

theorem map_eq_ok {g : α → β} (h : (g <$> d).run bytes = .ok (b, rest)) :
    ∃ a, d.run bytes = .ok (a, rest) ∧ g a = b := by
  cases hd : d.run bytes with
  | error error =>
    rw [StateT.run_map, hd] at h
    cases h
  | ok found =>
    obtain ⟨a, left⟩ := found
    rw [run_map_of_ok hd] at h
    cases h
    exact ⟨a, rfl, rfl⟩

theorem guard_eq_ok {p : Prop} [Decidable p] {error : DecodeError} {next : Unit → Decoder β}
    (h : (if p then fail error >>= next else next ()).run bytes = .ok (b, rest)) :
    ¬ p ∧ (next ()).run bytes = .ok (b, rest) := by
  by_cases hp : p
  · rw [if_pos hp] at h
    cases h
  · rw [if_neg hp] at h
    exact ⟨hp, h⟩

theorem octets_eq_ok {field : Octets n} (h : (octets n).run bytes = .ok (field, rest)) :
    bytes = field.val ++ rest := by
  by_cases hn : (bytes.take n).length = n
  · change (if h : (bytes.take n).length = n then _ else _) = _ at h
    rw [dif_pos hn] at h
    cases h
    exact (List.take_append_drop n bytes).symm
  · change (if h : (bytes.take n).length = n then _ else _) = _ at h
    rw [dif_neg hn] at h
    cases h

theorem take_eq_ok {field : Bytes} (h : (take n).run bytes = .ok (field, rest)) :
    bytes = field ++ rest ∧ field.length = n := by
  obtain ⟨octets, hoctets, rfl⟩ := map_eq_ok h
  exact ⟨octets_eq_ok hoctets, octets.property⟩

theorem octets_bind_eq_ok {f : Octets n → Decoder β} (h : (octets n >>= f).run bytes = .ok (b, rest)) :
    ∃ field more, bytes = field.val ++ more ∧ (f field).run more = .ok (b, rest) := by
  obtain ⟨field, more, hfield, h⟩ := bind_eq_ok h
  exact ⟨field, more, octets_eq_ok hfield, h⟩

theorem take_bind_eq_ok {f : Bytes → Decoder β} (h : (take n >>= f).run bytes = .ok (b, rest)) :
    ∃ field more, bytes = field ++ more ∧ field.length = n ∧ (f field).run more = .ok (b, rest) := by
  obtain ⟨field, more, hfield, h⟩ := bind_eq_ok h
  obtain ⟨hbytes, hlen⟩ := take_eq_ok hfield
  exact ⟨field, more, hbytes, hlen, h⟩

theorem byte_bind_eq_ok {f : UInt8 → Decoder β} (h : (byte >>= f).run bytes = .ok (b, rest)) :
    ∃ octet more, bytes = octet :: more ∧ (f octet).run more = .ok (b, rest) := by
  obtain ⟨octet, more, hoctet, h⟩ := bind_eq_ok h
  cases bytes with
  | nil => cases hoctet
  | cons first left =>
    cases hoctet
    exact ⟨octet, more, rfl, h⟩

theorem word16_eq_ok {order : ByteOrder} {word : UInt16}
    (h : (word16 order).run bytes = .ok (word, rest)) : bytes = order.bytes16 word ++ rest := by
  obtain ⟨field, _, hfield, hword⟩ := bind_eq_ok h
  obtain ⟨rfl, hlen⟩ := take_eq_ok hfield
  cases hword
  rw [ByteOrder.bytes16_ofNat_value order hlen]

theorem word16_bind_eq_ok {order : ByteOrder} {f : UInt16 → Decoder β}
    (h : (word16 order >>= f).run bytes = .ok (b, rest)) :
    ∃ word more, bytes = order.bytes16 word ++ more ∧ (f word).run more = .ok (b, rest) := by
  obtain ⟨word, more, hword, h⟩ := bind_eq_ok h
  exact ⟨word, more, word16_eq_ok hword, h⟩

theorem word32_eq_ok {order : ByteOrder} {word : UInt32}
    (h : (word32 order).run bytes = .ok (word, rest)) : bytes = order.bytes32 word ++ rest := by
  obtain ⟨field, _, hfield, hword⟩ := bind_eq_ok h
  obtain ⟨rfl, hlen⟩ := take_eq_ok hfield
  cases hword
  rw [ByteOrder.bytes32_ofNat_value order hlen]

theorem word32_bind_eq_ok {order : ByteOrder} {f : UInt32 → Decoder β}
    (h : (word32 order >>= f).run bytes = .ok (b, rest)) :
    ∃ word more, bytes = order.bytes32 word ++ more ∧ (f word).run more = .ok (b, rest) := by
  obtain ⟨word, more, hword, h⟩ := bind_eq_ok h
  exact ⟨word, more, word32_eq_ok hword, h⟩

theorem on_bind_eq_ok {stretch : Bytes} (h : (d.on stretch >>= f).run bytes = .ok (b, rest)) :
    ∃ a left, d.run stretch = .ok (a, left) ∧ (f a).run bytes = .ok (b, rest) := by
  obtain ⟨a, more, ha, h⟩ := bind_eq_ok h
  change (d.run stretch >>= fun found => Except.ok (found.1, bytes)) = _ at ha
  cases hd : d.run stretch with
  | error error =>
    rw [hd] at ha
    cases ha
  | ok found =>
    rw [hd] at ha
    cases ha
    exact ⟨found.1, found.2, rfl, h⟩

theorem peek_bind_eq_ok (h : (d.peek >>= f).run bytes = .ok (b, rest)) :
    ∃ a left, d.run bytes = .ok (a, left) ∧ (f a).run bytes = .ok (b, rest) := by
  have hon : (d.on bytes >>= f).run bytes = .ok (b, rest) := h
  exact on_bind_eq_ok hon

theorem within_bind_eq_ok (h : (d.within n >>= f).run bytes = .ok (b, rest)) :
    ∃ a stretch left more, bytes = stretch ++ more ∧ stretch.length = n ∧
      d.run stretch = .ok (a, left) ∧ (f a).run more = .ok (b, rest) := by
  rw [within, bind_assoc] at h
  obtain ⟨stretch, more, rfl, hlen, h⟩ := take_bind_eq_ok h
  obtain ⟨a, left, hd, h⟩ := on_bind_eq_ok h
  exact ⟨a, stretch, left, more, rfl, hlen, hd, h⟩

theorem within_eq_ok {a : α} (h : (d.within n).run bytes = .ok (a, rest)) :
    ∃ stretch left, bytes = stretch ++ rest ∧ stretch.length = n ∧ d.run stretch = .ok (a, left) := by
  rw [← bind_pure (d.within n)] at h
  obtain ⟨_, stretch, left, _, hbytes, hlen, hd, hpure⟩ := within_bind_eq_ok h
  cases hpure
  exact ⟨stretch, left, hbytes, hlen, hd⟩

end PacketCapture.Decoder
