import PacketCapture.Wire.Bytes

/-! # Byte strings alike up to some positions

Of two byte strings that differ at certain positions only, the stretches do so at the same positions,
counted from where they start. A stretch without such a position is the same in both.
-/
namespace PacketCapture

/-- Byte strings of one length that differ at certain positions only. -/
structure EqualExcept (p : Nat → Prop) (bytes other : Bytes) : Prop where
  length_eq : other.length = bytes.length
  same : ∀ k, ¬ p k → other[k]? = bytes[k]?

namespace EqualExcept
variable {p q : Nat → Prop} {bytes other front rest : Bytes}

theorem refl (p : Nat → Prop) (bytes : Bytes) : EqualExcept p bytes bytes := ⟨rfl, fun _ _ => rfl⟩

theorem set {n : Nat} (h : EqualExcept p bytes other) (hn : p n) (b : UInt8) :
    EqualExcept p bytes (other.set n b) := by
  constructor
  · rw [List.length_set, h.length_eq]
  · intro k hk
    have hne : n ≠ k := by
      rintro rfl
      exact hk hn
    rw [List.getElem?_set_ne hne, h.same k hk]

theorem mono (h : EqualExcept p bytes other) (hq : ∀ k < bytes.length, p k → q k) :
    EqualExcept q bytes other := by
  refine ⟨h.length_eq, ?_⟩
  intro k hk
  by_cases hlt : k < bytes.length
  · exact h.same k fun hp => hk (hq k hlt hp)
  · have hle := Nat.le_of_not_lt hlt
    rw [List.getElem?_eq_none hle, List.getElem?_eq_none (h.length_eq ▸ hle)]

theorem eq (h : EqualExcept p bytes other) (hp : ∀ k < bytes.length, ¬ p k) : other = bytes := by
  have hnone : EqualExcept (fun _ => False) bytes other := h.mono hp
  exact List.ext_getElem? fun k => hnone.same k id

theorem eq_nil (h : EqualExcept p [] other) : other = [] :=
  List.eq_nil_of_length_eq_zero h.length_eq

theorem take (h : EqualExcept p bytes other) (n : Nat) :
    EqualExcept p (bytes.take n) (other.take n) := by
  constructor
  · rw [List.length_take, List.length_take, h.length_eq]
  · intro k hk
    rw [List.getElem?_take, List.getElem?_take, h.same k hk]

theorem drop (h : EqualExcept p bytes other) (n : Nat) :
    EqualExcept (fun k => p (n + k)) (bytes.drop n) (other.drop n) := by
  constructor
  · rw [List.length_drop, List.length_drop, h.length_eq]
  · intro k hk
    rw [List.getElem?_drop, List.getElem?_drop, h.same _ hk]

theorem append (h : EqualExcept p (front ++ rest) other) :
    ∃ front' rest', other = front' ++ rest' ∧ EqualExcept p front front' ∧
      EqualExcept (fun k => p (front.length + k)) rest rest' := by
  have hfront := h.take front.length
  have hrest := h.drop front.length
  rw [List.take_left] at hfront
  rw [List.drop_left] at hrest
  exact ⟨_, _, (List.take_append_drop front.length other).symm, hfront, hrest⟩

theorem behind (h : EqualExcept p (front ++ rest) other) (hp : ∀ k < front.length, ¬ p k) :
    ∃ rest', other = front ++ rest' ∧
      EqualExcept (fun k => p (front.length + k)) rest rest' := by
  obtain ⟨front', rest', rfl, hfront, hrest⟩ := h.append
  obtain rfl := hfront.eq hp
  exact ⟨rest', rfl, hrest⟩

end EqualExcept
end PacketCapture
