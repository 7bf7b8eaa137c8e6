import PacketCapture.Proofs.Wire.Acceptance

/-! # Strict decoders

Decoding takes lengths from one another, cuts stretches out of its input and reads fields that have
been counted on. All of these are partial: nothing is less than zero, there is nothing behind the
end, and a field may not be there. A strict decoder slips in such a place, which is kept apart from
every error of its input. It agrees with a decoder if it never slips and comes to the same.
-/
namespace PacketCapture

/-- A mistake of the decoder and not of its input. -/
inductive Slip
  /-- More was taken from a number than the number is. -/
  | underflow
  /-- A stretch goes on behind the end. -/
  | outOfRange
  /-- A field that was counted on is not there. -/
  | missing
  /-- A repetition has not come to its end in time. -/
  | stalled
  deriving DecidableEq, Repr

abbrev Strict (α : Type) := StateT Bytes (ExceptT DecodeError (Except Slip)) α

namespace Strict
variable {α β : Type}

/-- What the decoder makes of the bytes, unless it slips. -/
def outcome (s : Strict α) (bytes : Bytes) : Except Slip (Except DecodeError (α × Bytes)) :=
  (StateT.run s bytes).run

def of (d : Decoder α) : Strict α := fun bytes => .mk (.ok (d.run bytes))

def fail (error : DecodeError) : Strict α := of (.fail error)

def slip (slip : Slip) : Strict α := fun _ => .mk (.error slip)

def subtract (m n : Nat) : Strict Nat := if n ≤ m then pure (m - n) else slip .underflow

def front (n : Nat) : Strict Bytes := do
  let bytes ← get
  if n ≤ bytes.length then return bytes.take n else slip .outOfRange

def advance (n : Nat) : Strict Unit := do
  let bytes ← get
  if n ≤ bytes.length then set (bytes.drop n) else slip .outOfRange

def atLeast (n : Nat) : Strict Unit := do
  if (← get).length < n then fail .insufficientLength

/-- Reads what is counted on. -/
def sure (d : Decoder α) : Strict α := fun bytes => .mk <|
  match d.run bytes with
  | .ok found => .ok (.ok found)
  | .error _ => .error .missing

def on (s : Strict α) (stretch : Bytes) : Strict α := fun bytes => do
  let (a, _) ← s stretch
  return (a, bytes)

def within (s : Strict α) (n : Nat) : Strict α := do
  atLeast n
  let a ← s.on (← front n)
  advance n
  return a

def manyUpTo (s : Strict α) : Nat → Strict (List α)
  | 0 => do
    if (← get) = [] then return [] else slip .stalled
  | n + 1 => do
    if (← get) = [] then return []
    let a ← s
    return a :: (← manyUpTo s n)

def many (s : Strict α) : Strict (List α) := do
  manyUpTo s (← get).length

variable {s : Strict α} {d : Decoder α} {f : α → Strict β} {g : α → Decoder β}
  {bytes rest stretch : Bytes} {a : α} {error : DecodeError} {m n : Nat}

theorem outcome_bind_of_ok (h : s.outcome bytes = .ok (.ok (a, rest))) :
    (s >>= f).outcome bytes = (f a).outcome rest := by
  change (s.outcome bytes >>= ExceptT.bindCont fun found => StateT.run (f found.1) found.2) = _
  rw [h]
  rfl

theorem outcome_bind_of_error (h : s.outcome bytes = .ok (.error error)) :
    (s >>= f).outcome bytes = .ok (.error error) := by
  change (s.outcome bytes >>= ExceptT.bindCont fun found => StateT.run (f found.1) found.2) = _
  rw [h]
  rfl

theorem outcome_bind_eq (hs : s.outcome bytes = .ok (d.run bytes))
    (hf : ∀ a rest, d.run bytes = .ok (a, rest) → (f a).outcome rest = .ok ((g a).run rest)) :
    (s >>= f).outcome bytes = .ok ((d >>= g).run bytes) := by
  cases hd : d.run bytes with
  | error error =>
    rw [hd] at hs
    rw [outcome_bind_of_error hs, Decoder.run_bind_of_error hd]
  | ok found =>
    rw [hd] at hs
    rw [outcome_bind_of_ok hs, Decoder.run_bind_of_ok hd]
    exact hf found.1 found.2 hd

theorem outcome_get_bind (f : Bytes → Strict β) (bytes : Bytes) :
    (get >>= f).outcome bytes = (f bytes).outcome bytes := rfl

theorem outcome_front (n : Nat) (bytes : Bytes) : (front n).outcome bytes =
    if n ≤ bytes.length then .ok (.ok (bytes.take n, bytes)) else .error .outOfRange := by
  rw [front, outcome_get_bind]
  split <;> rfl

theorem outcome_advance (n : Nat) (bytes : Bytes) : (advance n).outcome bytes =
    if n ≤ bytes.length then .ok (.ok ((), bytes.drop n)) else .error .outOfRange := by
  rw [advance, outcome_get_bind]
  split <;> rfl

theorem outcome_atLeast (n : Nat) (bytes : Bytes) : (atLeast n).outcome bytes =
    if bytes.length < n then .ok (.error .insufficientLength) else .ok (.ok ((), bytes)) := by
  rw [atLeast, outcome_get_bind]
  split <;> rfl

theorem outcome_sure_of_ok (h : d.run bytes = .ok (a, rest)) :
    (sure d).outcome bytes = .ok (.ok (a, rest)) := by
  change (match d.run bytes with | .ok found => _ | .error _ => _) = _
  rw [h]

theorem outcome_on_of_ok (h : s.outcome stretch = .ok (.ok (a, rest))) (bytes : Bytes) :
    (s.on stretch).outcome bytes = .ok (.ok (a, bytes)) := by
  change (s.outcome stretch >>= ExceptT.bindCont fun found => pure (found.1, bytes)) = _
  rw [h]
  rfl

theorem outcome_on_of_error (h : s.outcome stretch = .ok (.error error)) (bytes : Bytes) :
    (s.on stretch).outcome bytes = .ok (.error error) := by
  change (s.outcome stretch >>= ExceptT.bindCont fun found => pure (found.1, bytes)) = _
  rw [h]
  rfl

theorem subtract_of_le (h : n ≤ m) : subtract m n = pure (m - n) := if_pos h

example : (subtract 3 4).outcome [] = .error .underflow := rfl

theorem outcome_front_bind (h : n ≤ bytes.length) (f : Bytes → Strict β) :
    (front n >>= f).outcome bytes = (f (bytes.take n)).outcome bytes :=
  outcome_bind_of_ok (by rw [outcome_front, if_pos h])

theorem outcome_advance_bind (h : n ≤ bytes.length) (f : Unit → Strict β) :
    (advance n >>= f).outcome bytes = (f ()).outcome (bytes.drop n) :=
  outcome_bind_of_ok (by rw [outcome_advance, if_pos h])

theorem outcome_atLeast_bind (f : Unit → Strict β) : (atLeast n >>= f).outcome bytes =
    if bytes.length < n then .ok (.error .insufficientLength) else (f ()).outcome bytes := by
  split
  · rename_i h
    exact outcome_bind_of_error (by rw [outcome_atLeast, if_pos h])
  · rename_i h
    exact outcome_bind_of_ok (by rw [outcome_atLeast, if_neg h])

/-- From `n` bytes on the strict decoder makes no slip and comes to the same as the decoder, which
refuses fewer bytes than that. -/
structure AgreesFrom (n : Nat) (s : Strict α) (d : Decoder α) : Prop where
  outcome_eq : ∀ bytes : Bytes, n ≤ bytes.length → s.outcome bytes = .ok (d.run bytes)
  short : ∀ bytes : Bytes, bytes.length < n → d.run bytes = .error .insufficientLength

abbrev Agrees (s : Strict α) (d : Decoder α) : Prop := s.AgreesFrom 0 d

theorem agrees_of_outcome_eq (h : ∀ bytes, s.outcome bytes = .ok (d.run bytes)) : s.Agrees d where
  outcome_eq bytes _ := h bytes
  short _ hlt := absurd hlt (Nat.not_lt_zero _)

theorem Agrees.run_eq (h : s.Agrees d) (bytes : Bytes) : s.outcome bytes = .ok (d.run bytes) :=
  h.outcome_eq bytes (Nat.zero_le _)

theorem agrees_of (d : Decoder α) : (of d).Agrees d := agrees_of_outcome_eq fun _ => rfl

theorem agrees_pure (a : α) : (pure a : Strict α).Agrees (pure a) :=
  agrees_of_outcome_eq fun _ => rfl

theorem AgreesFrom.bind (hs : s.AgreesFrom n d) (hf : ∀ a, (f a).Agrees (g a)) :
    (s >>= f).AgreesFrom n (d >>= g) where
  outcome_eq bytes hn := outcome_bind_eq (hs.outcome_eq bytes hn) fun a rest _ => (hf a).run_eq rest
  short bytes hlt := Decoder.run_bind_of_error (hs.short bytes hlt)

theorem AgreesFrom.map (hs : s.AgreesFrom n d) (k : α → β) : (k <$> s).AgreesFrom n (k <$> d) := by
  rw [← bind_pure_comp, ← bind_pure_comp]
  exact hs.bind fun a => agrees_pure (k a)

theorem outcome_sure_of_accepts (h : d.Accepts bytes) :
    (sure d).outcome bytes = .ok (d.run bytes) := by
  obtain ⟨a, rest, hrun⟩ := h
  rw [outcome_sure_of_ok hrun, hrun]

theorem agreesFrom_sure (hd : d.Fixed n) : (sure d).AgreesFrom n d where
  outcome_eq bytes hle := outcome_sure_of_accepts ((hd.recognizes bytes).mpr hle)
  short := hd.short

/-- Counting on a field of fixed size is right as long as the bytes have been counted. -/
theorem sure_bind (hd : d.Fixed m) (hf : ∀ a, (f a).AgreesFrom n (g a)) :
    (sure d >>= f).AgreesFrom (m + n) (d >>= g) where
  outcome_eq bytes hle := by
    have hsure := (agreesFrom_sure hd).outcome_eq bytes (Nat.le_of_add_right_le hle)
    refine outcome_bind_eq hsure fun a rest hrun => (hf a).outcome_eq rest ?_
    have hlen := hd.length_of_run hrun
    omega
  short bytes hlt := hd.bind_short (fun a => (hf a).short) hlt

/-- Bytes counted in front are enough for the fields that follow. -/
theorem AgreesFrom.of_atLeast {next : Unit → Strict α} (hsize : m = n)
    (h : (next ()).AgreesFrom n d) : (atLeast m >>= next).Agrees d := by
  subst hsize
  refine agrees_of_outcome_eq fun bytes => ?_
  rw [outcome_atLeast_bind]
  split
  · rename_i hlt
    rw [h.short bytes hlt]
  · rename_i hle
    exact h.outcome_eq bytes (Nat.le_of_not_lt hle)

theorem AgreesFrom.guard {p : Prop} [Decidable p] {next : Unit → Strict β}
    {next' : Unit → Decoder β} (h : ¬ p → (next ()).Agrees (next' ())) :
    (if p then fail error >>= next else next ()).Agrees
      (if p then Decoder.fail error >>= next' else next' ()) := by
  by_cases hp : p
  · rw [if_pos hp, if_pos hp]
    exact agrees_of_outcome_eq fun _ => rfl
  · rw [if_neg hp, if_neg hp]
    exact h hp

theorem take_bind {f : Bytes → Strict β} {g : Bytes → Decoder β}
    (h : ∀ field : Bytes, field.length = n → (f field).Agrees (g field)) :
    (of (.take n) >>= f).Agrees (.take n >>= g) :=
  agrees_of_outcome_eq fun bytes => outcome_bind_eq ((agrees_of _).run_eq bytes)
    fun field rest htake => (h field (Decoder.take_eq_ok htake).2).run_eq rest

theorem agrees_on (h : s.outcome stretch = .ok (d.run stretch)) :
    (s.on stretch).Agrees (d.on stretch) := by
  refine agrees_of_outcome_eq fun bytes => ?_
  cases hd : d.run stretch with
  | error error => rw [outcome_on_of_error (hd ▸ h), Decoder.run_on_of_error hd]
  | ok found =>
    have hon : (d.on stretch).run bytes = .ok (found.1, bytes) := Decoder.reads_on hd bytes
    rw [outcome_on_of_ok (hd ▸ h), hon]

theorem Agrees.within (h : s.Agrees d) (n : Nat) : (s.within n).Agrees (d.within n) := by
  refine agrees_of_outcome_eq fun bytes => ?_
  rw [Strict.within, outcome_atLeast_bind]
  split
  · rename_i hlt
    rw [Decoder.run_within_of_lt hlt]
  · rename_i hle
    have hn := Nat.le_of_not_lt hle
    have hsame := h.run_eq (bytes.take n)
    rw [outcome_front_bind hn, Decoder.run_within_of_le hn]
    cases hd : d.run (bytes.take n) with
    | error error =>
      rw [hd] at hsame
      rw [outcome_bind_of_error (outcome_on_of_error hsame bytes)]
      rfl
    | ok found =>
      rw [hd] at hsame
      rw [outcome_bind_of_ok (outcome_on_of_ok hsame bytes), outcome_advance_bind hn]
      rfl

theorem outcome_manyUpTo_of_ne (hne : bytes ≠ []) (s : Strict α) (n : Nat) :
    (s.manyUpTo (n + 1)).outcome bytes =
      (s >>= fun a => s.manyUpTo n >>= fun as => pure (a :: as)).outcome bytes := by
  rw [manyUpTo, outcome_get_bind, if_neg hne]

theorem Agrees.outcome_manyUpTo (h : s.Agrees d) (hadvances : d.Advances)
    (hn : bytes.length ≤ n) : (s.manyUpTo n).outcome bytes =
      .ok ((d.manyUpTo n bytes).map fun found => (found, [])) := by
  induction n generalizing bytes with
  | zero =>
    obtain rfl := List.eq_nil_of_length_eq_zero (Nat.le_zero.mp hn)
    rfl
  | succ n ih =>
    by_cases hne : bytes = []
    · subst hne
      rfl
    · rw [outcome_manyUpTo_of_ne hne]
      have hsame := h.run_eq bytes
      cases hd : d.run bytes with
      | error error =>
        rw [hd] at hsame
        rw [outcome_bind_of_error hsame, Decoder.manyUpTo_of_error hne hd]
        rfl
      | ok found =>
        obtain ⟨a, rest⟩ := found
        have hlt := hadvances hd
        have hle : rest.length ≤ n := by omega
        have hrest := ih hle
        rw [hd] at hsame
        rw [outcome_bind_of_ok hsame, Decoder.manyUpTo_of_ok hne hd]
        cases hmany : d.manyUpTo n rest with
        | error error =>
          rw [hmany] at hrest
          rw [outcome_bind_of_error hrest]
          rfl
        | ok as =>
          rw [hmany] at hrest
          rw [outcome_bind_of_ok hrest]
          rfl

/-- There are as many bytes as steps are left, so that a repetition comes to its end. -/
theorem Agrees.many (h : s.Agrees d) (hadvances : d.Advances) : s.many.Agrees d.many := by
  refine agrees_of_outcome_eq fun bytes => ?_
  rw [Strict.many, outcome_get_bind, h.outcome_manyUpTo hadvances (Nat.le_refl _),
    Decoder.run_many]

end Strict
end PacketCapture
