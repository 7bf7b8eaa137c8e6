import PacketCapture.Proofs.Wire.Repetition

/-! # Repetition step by step

A decoder that takes a byte with everything it reads comes to the end of any byte string when it is
repeated. The repetition fails just where the decoder itself does, on what the values before have
left.
-/
namespace PacketCapture.Decoder
variable {α : Type} {d : Decoder α} {bytes middle rest : Bytes} {a : α} {as bs : List α}
  {error : DecodeError}

def Advances (d : Decoder α) : Prop :=
  ∀ ⦃bytes rest : Bytes⦄ ⦃a : α⦄, d.run bytes = .ok (a, rest) → rest.length < bytes.length

/-- The decoder takes the values off the front of the bytes and comes to the rest. -/
inductive Peels (d : Decoder α) : Bytes → List α → Bytes → Prop
  | done (bytes : Bytes) : Peels d bytes [] bytes
  | cons {bytes middle rest : Bytes} {a : α} {as : List α} : d.run bytes = .ok (a, middle) →
      Peels d middle as rest → Peels d bytes (a :: as) rest

theorem Peels.tiles (hadvances : d.Advances) (h : d.Peels bytes as []) : d.Tiles bytes as := by
  generalize hnil : ([] : Bytes) = rest at h
  induction h with
  | done bytes =>
    subst hnil
    exact .nil
  | cons hrun _ ih => exact .cons hrun (hadvances hrun) (ih hnil)

theorem Tiles.peels (h : d.Tiles bytes as) : d.Peels bytes as [] := by
  induction h with
  | nil => exact .done []
  | cons hrun _ _ ih => exact .cons hrun ih

theorem manyUpTo_of_error {n : Nat} (hne : bytes ≠ []) (h : d.run bytes = .error error) :
    d.manyUpTo (n + 1) bytes = .error error := by
  cases bytes with
  | nil => exact absurd rfl hne
  | cons first more =>
    simp only [manyUpTo, h]
    rfl

theorem manyUpTo_of_ok {n : Nat} (hne : bytes ≠ []) (h : d.run bytes = .ok (a, rest)) :
    d.manyUpTo (n + 1) bytes = (d.manyUpTo n rest).map (a :: ·) := by
  cases bytes with
  | nil => exact absurd rfl hne
  | cons first more =>
    simp only [manyUpTo, h]
    change (d.manyUpTo n rest >>= fun found => Except.ok (a :: found)) = _
    cases d.manyUpTo n rest with
    | error error => rfl
    | ok found => rfl

theorem manyUpTo_eq_of_le (hadvances : d.Advances) {m n : Nat} (hm : bytes.length ≤ m)
    (hn : bytes.length ≤ n) : d.manyUpTo m bytes = d.manyUpTo n bytes := by
  induction m generalizing n bytes with
  | zero =>
    obtain rfl := List.eq_nil_of_length_eq_zero (Nat.le_zero.mp hm)
    cases n <;> rfl
  | succ m ih =>
    by_cases hne : bytes = []
    · subst hne
      cases n <;> rfl
    · obtain ⟨n, rfl⟩ : ∃ k, n = k + 1 :=
        Nat.exists_eq_succ_of_ne_zero fun hzero =>
          hne (List.eq_nil_of_length_eq_zero (Nat.le_zero.mp (hzero ▸ hn)))
      cases hrun : d.run bytes with
      | error error => rw [manyUpTo_of_error hne hrun, manyUpTo_of_error hne hrun]
      | ok found =>
        obtain ⟨a, rest⟩ := found
        have hlt := hadvances hrun
        rw [manyUpTo_of_ok hne hrun, manyUpTo_of_ok hne hrun,
          ih (n := n) (by omega) (by omega)]

theorem run_many (d : Decoder α) (bytes : Bytes) :
    d.many.run bytes = (d.manyUpTo bytes.length bytes).map fun found => (found, []) := by
  change (d.manyUpTo bytes.length bytes >>= fun found => Except.ok (found, [])) = _
  cases d.manyUpTo bytes.length bytes with
  | error error => rfl
  | ok found => rfl

theorem run_many_nil : d.many.run [] = .ok ([], []) := rfl

theorem run_many_of_error (hne : bytes ≠ []) (h : d.run bytes = .error error) :
    d.many.run bytes = .error error := by
  have hpos := List.length_pos_iff.mpr hne
  rw [run_many, ← Nat.sub_add_cancel hpos, manyUpTo_of_error hne h]
  rfl

theorem run_many_of_ok (hadvances : d.Advances) (h : d.run bytes = .ok (a, rest)) :
    d.many.run bytes = (d.many.run rest).map fun found => (a :: found.1, found.2) := by
  have hlt := hadvances h
  have hpos : 0 < bytes.length := Nat.zero_lt_of_lt hlt
  have hfuel : d.manyUpTo (bytes.length - 1) rest = d.manyUpTo rest.length rest :=
    manyUpTo_eq_of_le hadvances (by omega) (Nat.le_refl _)
  rw [run_many, run_many, ← Nat.sub_add_cancel hpos,
    manyUpTo_of_ok (List.ne_nil_of_length_pos hpos) h, hfuel]
  cases d.manyUpTo rest.length rest with
  | error error => rfl
  | ok found => rfl

theorem Peels.run_many (hadvances : d.Advances) (h : d.Peels bytes as rest) :
    d.many.run bytes = (d.many.run rest).map fun found => (as ++ found.1, found.2) := by
  induction h with
  | done bytes => cases d.many.run bytes <;> rfl
  | @cons bytes middle rest a as hrun _ ih =>
    rw [run_many_of_ok hadvances hrun, ih]
    cases d.many.run rest <;> rfl

theorem Peels.run_many_of_error (hadvances : d.Advances) (h : d.Peels bytes as rest)
    (hne : rest ≠ []) (herror : d.run rest = .error error) : d.many.run bytes = .error error := by
  rw [h.run_many hadvances, Decoder.run_many_of_error hne herror]
  rfl

theorem Peels.append (hd : d.Delimited) (h : d.Peels bytes as rest) (more : Bytes) :
    d.Peels (bytes ++ more) as (rest ++ more) := by
  induction h with
  | done bytes => exact .done _
  | cons hrun _ ih => exact .cons ((hd.front_of_run hrun).2.1 more) ih

theorem peels_of_many_eq_error (hadvances : d.Advances) (h : d.many.run bytes = .error error) :
    ∃ as rest, d.Peels bytes as rest ∧ rest ≠ [] ∧ d.run rest = .error error := by
  induction hlen : bytes.length using Nat.strongRecOn generalizing bytes with
  | ind n ih =>
    have hne : bytes ≠ [] := by
      rintro rfl
      cases h
    cases hrun : d.run bytes with
    | error other =>
      rw [Decoder.run_many_of_error hne hrun] at h
      cases h
      exact ⟨[], bytes, .done bytes, hne, hrun⟩
    | ok found =>
      obtain ⟨a, middle⟩ := found
      rw [run_many_of_ok hadvances hrun] at h
      cases hmany : d.many.run middle with
      | ok found =>
        rw [hmany] at h
        cases h
      | error other =>
        rw [hmany] at h
        cases h
        obtain ⟨as, rest, hpeels, hrest, herror⟩ :=
          ih middle.length (hlen ▸ hadvances hrun) hmany rfl
        exact ⟨a :: as, rest, .cons hrun hpeels, hrest, herror⟩

/-- A repetition fails where its decoder does, behind the values taken off before. -/
theorem many_eq_error_iff (hadvances : d.Advances) : d.many.run bytes = .error error ↔
    ∃ as rest, d.Peels bytes as rest ∧ rest ≠ [] ∧ d.run rest = .error error := by
  constructor
  · exact peels_of_many_eq_error hadvances
  · rintro ⟨as, rest, hpeels, hne, herror⟩
    exact hpeels.run_many_of_error hadvances hne herror

/-- A repetition succeeds where its decoder takes values off to the last byte. -/
theorem many_eq_ok_iff (hadvances : d.Advances) : d.many.run bytes = .ok (as, rest) ↔
    rest = [] ∧ d.Peels bytes as [] := by
  constructor
  · intro h
    obtain ⟨htiles, hrest⟩ := tiles_of_many (fun hrun => hadvances hrun) h
    exact ⟨hrest, htiles.peels⟩
  · rintro ⟨rfl, hpeels⟩
    exact (hpeels.tiles hadvances).run_many

theorem Peels.of_related {R : Bytes → Bytes → Prop} {other : Bytes}
    (hnil : ∀ {other}, R [] other → other = [])
    (hstep : ∀ {bytes other rest a}, R bytes other → d.run bytes = .ok (a, rest) →
      ∃ left, d.run other = .ok (a, left) ∧ R rest left)
    (h : d.Peels bytes as []) (hR : R bytes other) : d.Peels other as [] := by
  generalize hend : ([] : Bytes) = rest at h
  induction h generalizing other with
  | done bytes =>
    subst hend
    rw [hnil hR]
    exact .done []
  | cons hrun _ ih =>
    obtain ⟨left, hother, hleft⟩ := hstep hR hrun
    exact .cons hother (ih hleft hend)

/-- A repetition cannot tell byte strings apart that its decoder cannot tell apart, step by step. -/
theorem many_of_related {R : Bytes → Bytes → Prop} {other : Bytes} (hadvances : d.Advances)
    (hnil : ∀ {other}, R [] other → other = [])
    (hstep : ∀ {bytes other rest a}, R bytes other → d.run bytes = .ok (a, rest) →
      ∃ left, d.run other = .ok (a, left) ∧ R rest left)
    (h : d.many.run bytes = .ok (as, rest)) (hR : R bytes other) :
    d.many.run other = .ok (as, rest) := by
  obtain ⟨rfl, hpeels⟩ := (many_eq_ok_iff hadvances).mp h
  exact (many_eq_ok_iff hadvances).mpr ⟨rfl, hpeels.of_related hnil hstep hR⟩

theorem many_append (hadvances : d.Advances) (hd : d.Delimited)
    (h : d.many.run bytes = .ok (as, rest)) (more : Bytes) :
    d.many.run (bytes ++ more) =
      (d.many.run more).map fun found => (as ++ found.1, found.2) := by
  obtain ⟨_, hpeels⟩ := (many_eq_ok_iff hadvances).mp h
  exact (hpeels.append hd more).run_many hadvances

end PacketCapture.Decoder
