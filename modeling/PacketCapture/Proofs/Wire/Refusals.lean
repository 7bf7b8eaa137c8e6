import PacketCapture.Proofs.Wire.Peeling
import PacketCapture.Proofs.Wire.Taken

/-! # Errors of decoders

Decoders of layers fail for want of bytes, or by a mismatch where they meet a record of another
kind. Which byte strings are mismatched follows the steps of the decoder: a step is judged on what
the steps before it have left, and only where these succeed.
-/
namespace PacketCapture.Decoder
variable {α β : Type} {d : Decoder α} {f : α → Decoder β} {bytes : Bytes} {error : DecodeError}
  {m k : Bytes → Prop} {n : Nat}

theorem bind_eq_error_iff : (d >>= f).run bytes = .error error ↔
    d.run bytes = .error error ∨
      ∃ a rest, d.run bytes = .ok (a, rest) ∧ (f a).run rest = .error error := by
  cases hd : d.run bytes with
  | error other =>
    rw [run_bind_of_error hd]
    simp
  | ok found =>
    rw [run_bind_of_ok hd]
    constructor
    · intro h
      exact .inr ⟨found.1, found.2, rfl, h⟩
    · rintro (h | ⟨a, rest, h, herror⟩)
      · cases h
      · cases h
        exact herror

theorem map_eq_error_iff {g : α → β} :
    (g <$> d).run bytes = .error error ↔ d.run bytes = .error error := by
  rw [StateT.run_map]
  cases d.run bytes with
  | error other => constructor <;> (intro h; cases h; rfl)
  | ok found => exact ⟨nofun, nofun⟩

theorem on_eq_error_iff {stretch : Bytes} :
    (d.on stretch).run bytes = .error error ↔ d.run stretch = .error error := by
  change (d.run stretch >>= fun found => Except.ok (found.1, bytes)) = _ ↔ _
  cases d.run stretch with
  | error other => constructor <;> (intro h; cases h; rfl)
  | ok found => exact ⟨nofun, nofun⟩

/-- The decoder fails for want of bytes only. -/
def Wants (d : Decoder α) : Prop :=
  ∀ bytes error, d.run bytes = .error error → error = .insufficientLength

theorem wants_pure (a : α) : Wants (pure a : Decoder α) := nofun

theorem wants_rest : rest.Wants := nofun

theorem Fixed.wants (hd : d.Fixed n) : d.Wants := by
  intro bytes error h
  by_cases hn : bytes.length < n
  · rw [hd.short bytes hn] at h
    cases h
    rfl
  · obtain ⟨a, _, hrun⟩ := hd.run_of_le (Nat.le_of_not_lt hn)
    rw [h] at hrun
    cases hrun

theorem Wants.bind (hd : d.Wants) (hf : ∀ a, (f a).Wants) : (d >>= f).Wants := by
  intro bytes error h
  rcases bind_eq_error_iff.mp h with h | ⟨a, rest, _, h⟩
  · exact hd bytes error h
  · exact hf a rest error h

theorem Wants.map (hd : d.Wants) (g : α → β) : (g <$> d).Wants :=
  fun bytes error h => hd bytes error (map_eq_error_iff.mp h)

theorem Wants.on (hd : d.Wants) (stretch : Bytes) : (d.on stretch).Wants :=
  fun _ error h => hd stretch error (on_eq_error_iff.mp h)

theorem Wants.within (hd : d.Wants) (n : Nat) : (d.within n).Wants :=
  (fixed_take n).wants.bind hd.on

theorem wants_fail_bind {next : Unit → Decoder β} : Wants (fail .insufficientLength >>= next) := by
  intro bytes error h
  cases h
  rfl

theorem Wants.guard {p : Prop} [Decidable p] {next : Unit → Decoder β} (h : (next ()).Wants) :
    (if p then fail .insufficientLength >>= next else next ()).Wants := by
  split
  · exact wants_fail_bind
  · exact h

theorem Wants.times (hd : d.Wants) (n : Nat) : (d.times n).Wants := by
  induction n with
  | zero => exact wants_pure []
  | succ n ih => exact hd.bind fun _ => ih.bind fun _ => wants_pure _

/-- The decoder fails for want of bytes or by a mismatch, and by a mismatch just on these byte
strings. -/
structure Refuses (d : Decoder α) (mismatched : Bytes → Prop) : Prop where
  kinds : ∀ bytes error, d.run bytes = .error error →
    error = .insufficientLength ∨ error = .typeMismatch
  iff : ∀ bytes, d.run bytes = .error .typeMismatch ↔ mismatched bytes

theorem Refuses.congr (hd : d.Refuses m) (h : ∀ bytes, m bytes ↔ k bytes) : d.Refuses k where
  kinds := hd.kinds
  iff bytes := (hd.iff bytes).trans (h bytes)

theorem Wants.refuses (hd : d.Wants) : d.Refuses fun _ => False where
  kinds bytes error h := .inl (hd bytes error h)
  iff bytes := by
    refine ⟨fun h => ?_, False.elim⟩
    cases hd bytes _ h

theorem Refuses.wants (hd : d.Refuses m) (h : ∀ bytes, ¬ m bytes) : d.Wants := by
  intro bytes error herror
  rcases hd.kinds bytes error herror with rfl | rfl
  · rfl
  · exact absurd ((hd.iff bytes).mp herror) (h bytes)

theorem refuses_fail : (fail .typeMismatch : Decoder α).Refuses fun _ => True where
  kinds bytes error h := by
    cases h
    exact .inr rfl
  iff bytes := ⟨fun _ => trivial, fun _ => rfl⟩

theorem Refuses.map (hd : d.Refuses m) (g : α → β) : (g <$> d).Refuses m where
  kinds bytes error h := hd.kinds bytes error (map_eq_error_iff.mp h)
  iff bytes := map_eq_error_iff.trans (hd.iff bytes)

theorem Refuses.bind {k : α → Bytes → Prop} (hd : d.Refuses m) (hf : ∀ a, (f a).Refuses (k a)) :
    (d >>= f).Refuses fun bytes => m bytes ∨ ∃ a rest, d.run bytes = .ok (a, rest) ∧ k a rest where
  kinds bytes error h := by
    rcases bind_eq_error_iff.mp h with h | ⟨a, rest, _, h⟩
    · exact hd.kinds bytes error h
    · exact (hf a).kinds rest error h
  iff bytes := by
    simp only [bind_eq_error_iff, hd.iff, (hf _).iff]

theorem Wants.bind_refuses {k : α → Bytes → Prop} (hd : d.Wants) (hf : ∀ a, (f a).Refuses (k a)) :
    (d >>= f).Refuses fun bytes => ∃ a rest, d.run bytes = .ok (a, rest) ∧ k a rest :=
  (hd.refuses.bind hf).congr fun _ => by rw [false_or]

theorem Refuses.bind_pure (hd : d.Refuses m) (g : α → β) :
    (d >>= fun a => pure (g a)).Refuses m := by
  rw [bind_pure_comp]
  exact hd.map g

/-- The property holds behind the first `n` bytes, and these are there. -/
def Behind (n : Nat) (m : Bytes → Prop) (bytes : Bytes) : Prop :=
  n ≤ bytes.length ∧ m (bytes.drop n)

theorem behind_behind (i j : Nat) (m : Bytes → Prop) :
    Behind i (Behind j m) = Behind (i + j) m := by
  funext bytes
  simp only [Behind, List.length_drop, List.drop_drop, eq_iff_iff, ← and_assoc]
  refine and_congr_left fun _ => ?_
  omega

theorem Fixed.exists_run_iff (hd : d.Fixed n) :
    (∃ a rest, d.run bytes = .ok (a, rest) ∧ m rest) ↔ Behind n m bytes := by
  constructor
  · rintro ⟨a, rest, hrun, h⟩
    obtain ⟨hle, rfl, _⟩ := hd.eq_of_run hrun
    exact ⟨hle, h⟩
  · rintro ⟨hle, h⟩
    obtain ⟨a, _, hrun⟩ := hd.run_of_le hle
    exact ⟨a, bytes.drop n, hrun, h⟩

theorem Fixed.bind_refuses (hd : d.Fixed n) (hf : ∀ a, (f a).Refuses m) :
    (d >>= f).Refuses (Behind n m) :=
  (hd.wants.bind_refuses hf).congr fun _ => hd.exists_run_iff

theorem Fixed.exists_behind_iff {i j : Nat} {p : α → Prop} {q : Prop} (hd : d.Fixed i)
    (hp : ∀ a rest, d.run bytes = .ok (a, rest) → (p a ↔ q)) :
    (∃ a rest, d.run bytes = .ok (a, rest) ∧ Behind j (fun _ => p a) rest) ↔
      i + j ≤ bytes.length ∧ q := by
  constructor
  · rintro ⟨a, rest, hrun, hj, h⟩
    have hlen := hd.length_of_run hrun
    exact ⟨by omega, (hp a rest hrun).mp h⟩
  · rintro ⟨hle, h⟩
    obtain ⟨a, _, hrun⟩ := hd.run_of_le (Nat.le_of_add_right_le hle)
    have hlen := hd.length_of_run hrun
    exact ⟨a, _, hrun, by omega, (hp a _ hrun).mpr h⟩

theorem Refuses.on (hd : d.Refuses m) (stretch : Bytes) :
    (d.on stretch).Refuses fun _ => m stretch where
  kinds _ error h := hd.kinds stretch error (on_eq_error_iff.mp h)
  iff _ := on_eq_error_iff.trans (hd.iff stretch)

theorem Refuses.within (hd : d.Refuses m) (n : Nat) :
    (d.within n).Refuses fun bytes => n ≤ bytes.length ∧ m (bytes.take n) := by
  refine ((fixed_take n).wants.bind_refuses hd.on).congr fun bytes => ?_
  constructor
  · rintro ⟨stretch, rest, hrun, h⟩
    obtain ⟨rfl, rfl⟩ := take_eq_ok hrun
    simpa using h
  · rintro ⟨hle, h⟩
    have hrun := reads_take (List.length_take_of_le hle) (bytes.drop n)
    rw [List.take_append_drop] at hrun
    exact ⟨_, _, hrun, h⟩

theorem Refuses.guard {p : Prop} [Decidable p] {next : Unit → Decoder β}
    (h : (next ()).Refuses m) :
    (if p then fail .insufficientLength >>= next else next ()).Refuses fun bytes =>
      ¬ p ∧ m bytes := by
  by_cases hp : p
  · simp only [hp, not_true_eq_false, false_and]
    exact wants_fail_bind.refuses
  · simp only [hp, not_false_eq_true, true_and]
    exact h

theorem Wants.guard_refuses {p : Prop} [Decidable p] {next : Unit → Decoder β}
    (h : (next ()).Wants) :
    (if p then fail .typeMismatch >>= next else next ()).Refuses fun _ => p := by
  by_cases hp : p
  · simp only [hp]
    exact refuses_fail
  · simp only [hp]
    exact h.refuses

theorem Refuses.many (hd : d.Refuses m) (hadvances : d.Advances) :
    d.many.Refuses fun bytes => ∃ as rest, d.Peels bytes as rest ∧ rest ≠ [] ∧ m rest where
  kinds bytes error h := by
    obtain ⟨as, rest, _, _, hrest⟩ := (many_eq_error_iff hadvances).mp h
    exact hd.kinds rest error hrest
  iff bytes := by
    simp only [many_eq_error_iff hadvances, hd.iff]

end PacketCapture.Decoder
