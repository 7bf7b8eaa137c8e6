import PacketCapture.Proofs.Wire.Reads

/-! # Values one after another

A counted decoder reads the encodings of as many values, and an uncounted one takes a byte string
apart that is nothing but encodings. Each encoding has a byte, so the bytes are enough fuel.
-/
namespace PacketCapture.Decoder
variable {α : Type} {d : Decoder α} {bytes rest : Bytes} {as : List α} {n : Nat}

theorem reads_times {encode : α → Bytes} (h : ∀ a, d.Reads (encode a) a) (as : List α) :
    (d.times as.length).Reads (as.flatMap encode) as := by
  induction as with
  | nil => exact reads_pure []
  | cons a as ih => exact (h a).bind ih.bind_pure

theorem length_of_times (h : (d.times n).run bytes = .ok (as, rest)) :
    as.length = n := by
  induction n generalizing as bytes rest with
  | zero =>
    cases h
    rfl
  | succ n ih =>
    obtain ⟨a, middle, _, h⟩ := bind_eq_ok h
    obtain ⟨more, left, hmore, h⟩ := bind_eq_ok h
    cases h
    rw [List.length_cons, ih hmore]

theorem Fixed.times {m : Nat} (hd : d.Fixed m) : (d.times n).Fixed (n * m) := by
  induction n with
  | zero =>
    rw [Nat.zero_mul]
    exact fixed_pure []
  | succ n ih =>
    rw [Nat.succ_mul, Nat.add_comm]
    exact hd.bind fun _ => ih.bind fun _ => fixed_pure _

/-- The decoder takes the values off the bytes one after another and leaves nothing. -/
inductive Tiles (d : Decoder α) : Bytes → List α → Prop
  | nil : Tiles d [] []
  | cons {bytes rest : Bytes} {a : α} {as : List α} : d.run bytes = .ok (a, rest) →
      rest.length < bytes.length → Tiles d rest as → Tiles d bytes (a :: as)

theorem Tiles.manyUpTo_eq (h : d.Tiles bytes as) (hn : bytes.length ≤ n) :
    d.manyUpTo n bytes = .ok as := by
  induction h generalizing n with
  | nil => cases n <;> rfl
  | @cons bytes rest a as hrun hlt _ ih =>
    cases bytes with
    | nil => exact absurd hlt (Nat.not_lt_zero _)
    | cons b bytes =>
      cases n with
      | zero => exact absurd hn (Nat.not_succ_le_zero _)
      | succ n =>
        have hrest : rest.length ≤ n := by omega
        simp only [manyUpTo, hrun]
        change (d.manyUpTo n rest >>= fun found => Except.ok (a :: found)) = _
        rw [ih hrest]
        rfl

theorem Tiles.run_many (h : d.Tiles bytes as) : d.many.run bytes = .ok (as, []) := by
  change (d.manyUpTo bytes.length bytes >>= fun found => Except.ok (found, [])) = _
  rw [h.manyUpTo_eq (Nat.le_refl _)]
  rfl

theorem tiles_of_manyUpTo
    (hprogress : ∀ {bytes rest a}, d.run bytes = .ok (a, rest) → rest.length < bytes.length)
    (h : d.manyUpTo n bytes = .ok as) : d.Tiles bytes as := by
  induction n generalizing bytes as with
  | zero =>
    cases bytes with
    | nil =>
      cases h
      exact .nil
    | cons first more => cases h
  | succ n ih =>
    cases bytes with
    | nil =>
      cases h
      exact .nil
    | cons first more =>
      simp only [manyUpTo] at h
      cases hd : d.run (first :: more) with
      | error error =>
        rw [hd] at h
        cases h
      | ok found =>
        obtain ⟨a, left⟩ := found
        rw [hd] at h
        change (d.manyUpTo n left >>= fun found => Except.ok (a :: found)) = _ at h
        cases hmany : d.manyUpTo n left with
        | error error =>
          rw [hmany] at h
          cases h
        | ok found =>
          rw [hmany] at h
          cases h
          exact .cons hd (hprogress hd) (ih hmany)

theorem tiles_of_many
    (hprogress : ∀ {bytes rest a}, d.run bytes = .ok (a, rest) → rest.length < bytes.length)
    (h : d.many.run bytes = .ok (as, rest)) : d.Tiles bytes as ∧ rest = [] := by
  change (d.manyUpTo bytes.length bytes >>= fun found => Except.ok (found, [])) = _ at h
  cases hmany : d.manyUpTo bytes.length bytes with
  | error error =>
    rw [hmany] at h
    cases h
  | ok found =>
    rw [hmany] at h
    cases h
    exact ⟨tiles_of_manyUpTo hprogress hmany, rfl⟩

/-- The records lie one after another in a room of so many bytes, each of them complete and each at
its stride from the one before. -/
def Packed (length stride : α → Nat) : Nat → List α → Prop
  | room, [] => room = 0
  | room, a :: as => length a ≤ room ∧ Packed length stride (room - stride a) as

theorem Tiles.packed {length stride : α → Nat} {P : α → Prop} (h : d.Tiles bytes as)
    (hstep : ∀ {bytes rest a}, d.run bytes = .ok (a, rest) →
      length a ≤ bytes.length ∧ rest.length = bytes.length - stride a ∧ P a) :
    Packed length stride bytes.length as ∧ ∀ a ∈ as, P a := by
  induction h with
  | nil => exact ⟨rfl, nofun⟩
  | cons hrun _ _ ih =>
    obtain ⟨hle, hrest, hfirst⟩ := hstep hrun
    obtain ⟨hpacked, hall⟩ := ih
    rw [hrest] at hpacked
    refine ⟨⟨hle, hpacked⟩, ?_⟩
    intro a hmem
    rcases List.mem_cons.mp hmem with rfl | hmem
    · exact hfirst
    · exact hall a hmem

end PacketCapture.Decoder
