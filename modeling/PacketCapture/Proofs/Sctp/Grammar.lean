import Mathlib.Data.List.Forall2
import PacketCapture.Proofs.Sctp.Taken

/-! # The grammar of parameter lists

Parameters lie one after another, each padded to four bytes, the last one as far as the bytes go. A
byte string is taken apart in one way at most. Whatever decodes a single parameter is given just the
bytes that the parameter declares, and the first obstacle on the way decides the error.
-/
namespace PacketCapture.Sctp
open Decoder

/-- A parameter as it is written, its declared length the size of header and data. -/
structure RawParameter where
  type : ParameterType
  data : Bytes
  fits : ParameterHeader.size + data.length < UInt16.size

namespace RawParameter

def length (raw : RawParameter) : Nat := ParameterHeader.size + raw.data.length

def header (raw : RawParameter) : ParameterHeader := ⟨raw.type, .ofNat raw.length⟩

def bytes (raw : RawParameter) : Bytes := raw.header.encode ++ raw.data

/-- The bytes missing to a multiple of four. -/
def paddingLength (raw : RawParameter) : Nat := (4 - raw.length % 4) % 4

theorem length_header (raw : RawParameter) : raw.header.length.toNat = raw.length :=
  UInt16.toNat_ofNat_of_lt' raw.fits

@[simp] theorem length_bytes (raw : RawParameter) : raw.bytes.length = raw.length := by
  simp [bytes, length]

theorem bytes_ne_nil (raw : RawParameter) (more : Bytes) : raw.bytes ++ more ≠ [] := by
  refine List.ne_nil_of_length_pos ?_
  rw [List.length_append, length_bytes, length, ParameterHeader.size]
  omega

theorem paddingLength_eq (raw : RawParameter) :
    raw.paddingLength = align4 raw.header.length.toNat - raw.header.length.toNat := by
  rw [length_header, paddingLength, align4]
  omega

theorem run_decode_header (raw : RawParameter) (more : Bytes) :
    ParameterHeader.decode.run (raw.bytes ++ more) = .ok (raw.header, raw.data ++ more) := by
  rw [bytes, List.append_assoc]
  exact raw.header.reads_encode _

theorem eq_of_bytes_append {raw other : RawParameter} {more left : Bytes}
    (h : raw.bytes ++ more = other.bytes ++ left) : raw = other ∧ more = left := by
  have hrun := raw.run_decode_header more
  rw [h, other.run_decode_header] at hrun
  obtain ⟨hheader, hdata⟩ := Prod.mk.inj (Except.ok.inj hrun)
  have hlength := congrArg (fun header => header.length.toNat) hheader
  simp only [length_header, length] at hlength
  obtain ⟨hsame, hmore⟩ := List.append_inj hdata (by omega)
  refine ⟨?_, hmore.symm⟩
  obtain ⟨type, data, fits⟩ := raw
  obtain ⟨type', data', fits'⟩ := other
  obtain rfl := congrArg ParameterHeader.type hheader
  obtain rfl := hsame
  rfl

/-- The ways to fill a byte string with parameters, each followed by its padding, the last one by
all of it or some or none. -/
inductive Fill : List RawParameter → Bytes → Prop
  | nil : Fill [] []
  | last (raw : RawParameter) {cut : Bytes} : cut.length ≤ raw.paddingLength →
      Fill [raw] (raw.bytes ++ cut)
  | cons (raw : RawParameter) {padding bytes : Bytes} {raws : List RawParameter} :
      padding.length = raw.paddingLength → Fill raws bytes →
      Fill (raw :: raws) (raw.bytes ++ (padding ++ bytes))

/-- Parameters with all of their padding, and what is left behind them. -/
inductive Precede : List RawParameter → Bytes → Bytes → Prop
  | nil (rest : Bytes) : Precede [] rest rest
  | cons (raw : RawParameter) {padding bytes rest : Bytes} {raws : List RawParameter} :
      padding.length = raw.paddingLength → Precede raws bytes rest →
      Precede (raw :: raws) (raw.bytes ++ (padding ++ bytes)) rest

variable {raws others : List RawParameter} {bytes rest : Bytes}

theorem Fill.eq_nil (h : Fill raws []) : raws = [] := by
  generalize hbytes : ([] : Bytes) = bytes at h
  cases h with
  | nil => rfl
  | last raw => exact absurd hbytes.symm (raw.bytes_ne_nil _)
  | cons raw => exact absurd hbytes.symm (raw.bytes_ne_nil _)

theorem Fill.eq_nil_of_cut {padding : Bytes} {n : Nat} (h : Fill raws bytes)
    (hcut : (padding ++ bytes).length ≤ n) (hpadding : padding.length = n) : raws = [] := by
  rw [List.length_append] at hcut
  obtain rfl : bytes = [] := List.eq_nil_of_length_eq_zero (by omega)
  exact h.eq_nil

theorem Fill.unique (h : Fill raws bytes) (hother : Fill others bytes) : raws = others := by
  induction h generalizing others with
  | nil => exact hother.eq_nil.symm
  | @last raw cut hcut =>
    generalize hbytes : raw.bytes ++ cut = bytes at hother
    cases hother with
    | nil => exact absurd hbytes (raw.bytes_ne_nil _)
    | last other hcut' =>
      obtain ⟨rfl, _⟩ := eq_of_bytes_append hbytes
      rfl
    | @cons other padding bytes raws hpadding hrest =>
      obtain ⟨rfl, rfl⟩ := eq_of_bytes_append hbytes
      rw [hrest.eq_nil_of_cut hcut hpadding]
  | @cons raw padding bytes raws hpadding hrest ih =>
    generalize hbytes : raw.bytes ++ (padding ++ bytes) = whole at hother
    cases hother with
    | nil => exact absurd hbytes (raw.bytes_ne_nil _)
    | last other hcut =>
      obtain ⟨rfl, rfl⟩ := eq_of_bytes_append hbytes
      rw [hrest.eq_nil_of_cut hcut hpadding]
    | cons other hpadding' hrest' =>
      obtain ⟨rfl, hmore⟩ := eq_of_bytes_append hbytes
      obtain ⟨_, rfl⟩ := List.append_inj hmore (hpadding.trans hpadding'.symm)
      rw [ih hrest']

theorem Precede.length_le (h : Precede raws bytes rest) : rest.length ≤ bytes.length := by
  induction h with
  | nil rest => exact Nat.le_refl _
  | cons raw _ _ ih =>
    simp only [List.length_append]
    omega

/-- What the decoder makes of just the bytes that the parameter declares. -/
def Gives (d : Decoder Parameter) (raw : RawParameter) (parameter : Parameter) : Prop :=
  ∃ left, d.run raw.bytes = .ok (parameter, left)

/-- The front of a byte string that is not empty holds no parameter, or one that the decoder
refuses. -/
inductive Obstacle (d : Decoder Parameter) : Bytes → DecodeError → Prop
  | headless {bytes : Bytes} : bytes ≠ [] → bytes.length < ParameterHeader.size →
      Obstacle d bytes .insufficientLength
  | undersized {header : ParameterHeader} (more : Bytes) :
      header.length.toNat < ParameterHeader.size →
      Obstacle d (header.encode ++ more) .insufficientLength
  | overrun {header : ParameterHeader} {more : Bytes} :
      (header.encode ++ more).length < header.length.toNat →
      Obstacle d (header.encode ++ more) .insufficientLength
  | refused {raw : RawParameter} {error : DecodeError} (more : Bytes) :
      d.run raw.bytes = .error error → Obstacle d (raw.bytes ++ more) error

end RawParameter

theorem ParameterHeader.encode_append_ne_nil (header : ParameterHeader) (more : Bytes) :
    header.encode ++ more ≠ [] := by
  refine List.ne_nil_of_length_pos ?_
  rw [List.length_append, length_encode, size]
  omega

namespace Parameter
open RawParameter (Fill Precede Gives Obstacle)

inductive Framing : Bytes → Prop
  | headless {bytes : Bytes} : bytes.length < ParameterHeader.size → Framing bytes
  | undersized {header : ParameterHeader} (more : Bytes) :
      header.length.toNat < ParameterHeader.size → Framing (header.encode ++ more)
  | overrun {header : ParameterHeader} {more : Bytes} :
      ParameterHeader.size ≤ header.length.toNat →
      (header.encode ++ more).length < header.length.toNat → Framing (header.encode ++ more)
  | whole (raw : RawParameter) (more : Bytes) : Framing (raw.bytes ++ more)

theorem framing (bytes : Bytes) : Framing bytes := by
  by_cases hsize : bytes.length < ParameterHeader.size
  · exact .headless hsize
  · obtain ⟨header, more, rfl⟩ := ParameterHeader.exists_encode (Nat.le_of_not_lt hsize)
    by_cases hfour : header.length.toNat < ParameterHeader.size
    · exact .undersized more hfour
    · by_cases hover : (header.encode ++ more).length < header.length.toNat
      · exact .overrun (Nat.le_of_not_lt hfour) hover
      · rw [List.length_append, ParameterHeader.length_encode] at hover
        have hlen : (more.take (header.length.toNat - ParameterHeader.size)).length =
            header.length.toNat - ParameterHeader.size := List.length_take_of_le (by omega)
        have hsum : ParameterHeader.size +
            (more.take (header.length.toNat - ParameterHeader.size)).length =
              header.length.toNat := by omega
        let raw : RawParameter := {
          type := header.type
          data := more.take (header.length.toNat - ParameterHeader.size)
          fits := Nat.lt_of_le_of_lt (Nat.le_of_eq hsum) header.length.toNat_lt_size }
        have hheader : raw.header = header := by
          simp only [raw, RawParameter.header, RawParameter.length, hsum, UInt16.ofNat_toNat]
        have hbytes : header.encode ++ more =
            raw.bytes ++ more.drop (header.length.toNat - ParameterHeader.size) := by
          rw [RawParameter.bytes, hheader, List.append_assoc, List.take_append_drop]
        rw [hbytes]
        exact .whole raw _

variable {d : Decoder Parameter} {bytes rest : Bytes} {parameters : List Parameter}
  {raws : List RawParameter} {error : DecodeError}

theorem decodePadded_of_headless (h : bytes.length < ParameterHeader.size) :
    (decodePadded d).run bytes = .error .insufficientLength :=
  run_bind_of_error (run_peek_of_error (ParameterHeader.fixed_decode.short bytes h))

theorem decodePadded_of_undersized {header : ParameterHeader} (more : Bytes)
    (h : header.length.toNat < ParameterHeader.size) :
    (decodePadded d).run (header.encode ++ more) = .error .insufficientLength := by
  rw [decodePadded, run_bind_of_ok (run_peek_of_ok (header.reads_encode more))]
  simp only [if_pos h]
  rfl

theorem decodePadded_of_overrun {header : ParameterHeader} {more : Bytes}
    (hfour : ParameterHeader.size ≤ header.length.toNat)
    (h : (header.encode ++ more).length < header.length.toNat) :
    (decodePadded d).run (header.encode ++ more) = .error .insufficientLength := by
  rw [decodePadded, run_bind_of_ok (run_peek_of_ok (header.reads_encode more))]
  simp only [if_neg (Nat.not_lt.mpr hfour)]
  exact run_bind_of_error (run_within_of_lt h)

/-- A whole parameter decodes as its own bytes do, and takes its padding with it as far as there is
any. -/
theorem decodePadded_of_whole (raw : RawParameter) (more : Bytes) :
    (decodePadded d).run (raw.bytes ++ more) =
      (d.run raw.bytes).map fun found => (found.1, more.drop raw.paddingLength) := by
  have hfour : ¬ raw.header.length.toNat < ParameterHeader.size := by
    rw [raw.length_header, RawParameter.length]
    omega
  have hstretch : raw.bytes.length = raw.header.length.toNat := by
    rw [raw.length_header, raw.length_bytes]
  rw [decodePadded, run_bind_of_ok (run_peek_of_ok (raw.run_decode_header more))]
  simp only [if_neg hfour]
  cases hrun : d.run raw.bytes with
  | error error => exact run_bind_of_error (run_within_of_error hstretch hrun more)
  | ok found =>
    rw [(reads_within hstretch hrun).run_bind, raw.paddingLength_eq]
    rfl

theorem whole_of_decodePadded {parameter : Parameter}
    (h : (decodePadded d).run bytes = .ok (parameter, rest)) :
    ∃ raw more, bytes = raw.bytes ++ more ∧ Gives d raw parameter ∧
      rest = more.drop raw.paddingLength := by
  cases framing bytes with
  | headless hsize => rw [decodePadded_of_headless hsize] at h; cases h
  | undersized more hfour => rw [decodePadded_of_undersized more hfour] at h; cases h
  | overrun hfour hover => rw [decodePadded_of_overrun hfour hover] at h; cases h
  | whole raw more =>
    rw [decodePadded_of_whole] at h
    cases hrun : d.run raw.bytes with
    | error error => rw [hrun] at h; cases h
    | ok found =>
      rw [hrun] at h
      cases h
      exact ⟨raw, more, rfl, ⟨found.2, hrun⟩, rfl⟩

theorem decodePadded_of_gives {raw : RawParameter} {parameter : Parameter}
    (h : Gives d raw parameter) (more : Bytes) : (decodePadded d).run (raw.bytes ++ more) =
      .ok (parameter, more.drop raw.paddingLength) := by
  obtain ⟨left, hrun⟩ := h
  rw [decodePadded_of_whole, hrun]
  rfl

theorem decodePadded_of_padding {raw : RawParameter} {parameter : Parameter} {padding : Bytes}
    (h : Gives d raw parameter) (hpadding : padding.length = raw.paddingLength) (more : Bytes) :
    (decodePadded d).run (raw.bytes ++ (padding ++ more)) = .ok (parameter, more) := by
  rw [decodePadded_of_gives h, ← hpadding, List.drop_left]

theorem fill_of_peels (h : (decodePadded d).Peels bytes parameters []) :
    ∃ raws, Fill raws bytes ∧ List.Forall₂ (Gives d) raws parameters := by
  generalize hnil : ([] : Bytes) = rest at h
  induction h with
  | done bytes =>
    subst hnil
    exact ⟨[], .nil, .nil⟩
  | cons hrun _ ih =>
    obtain ⟨raw, more, rfl, hgives, rfl⟩ := whole_of_decodePadded hrun
    obtain ⟨raws, hfill, hall⟩ := ih hnil
    by_cases hcut : more.length ≤ raw.paddingLength
    · rw [List.drop_of_length_le hcut] at hfill
      obtain rfl := hfill.eq_nil
      cases hall
      exact ⟨[raw], .last raw hcut, .cons hgives .nil⟩
    · have hpadding := List.length_take_of_le (Nat.le_of_not_le hcut)
      refine ⟨raw :: raws, ?_, .cons hgives hall⟩
      rw [← List.take_append_drop raw.paddingLength more]
      exact .cons raw hpadding hfill

theorem peels_of_fill (hfill : Fill raws bytes) (hall : List.Forall₂ (Gives d) raws parameters) :
    (decodePadded d).Peels bytes parameters [] := by
  induction hfill generalizing parameters with
  | nil =>
    cases hall
    exact .done []
  | @last raw cut hcut =>
    obtain _ | ⟨hgives, hrest⟩ := hall
    cases hrest
    have hrun := decodePadded_of_gives hgives cut
    rw [List.drop_of_length_le hcut] at hrun
    exact .cons hrun (.done [])
  | @cons raw padding bytes raws hpadding _ ih =>
    obtain _ | ⟨hgives, hrest⟩ := hall
    exact .cons (decodePadded_of_padding hgives hpadding bytes) (ih hrest)

theorem precede_of_peels (h : (decodePadded d).Peels bytes parameters rest) (hne : rest ≠ []) :
    ∃ raws, Precede raws bytes rest ∧ ∀ raw ∈ raws, ∃ parameter, Gives d raw parameter := by
  induction h with
  | done bytes => exact ⟨[], .nil bytes, nofun⟩
  | @cons _ _ _ parameter _ hrun _ ih =>
    obtain ⟨raw, more, rfl, hgives, rfl⟩ := whole_of_decodePadded hrun
    obtain ⟨raws, hprecede, hall⟩ := ih hne
    have hpadding : (more.take raw.paddingLength).length = raw.paddingLength := by
      have hle := hprecede.length_le
      have hpos := List.length_pos_iff.mpr hne
      rw [List.length_drop] at hle
      exact List.length_take_of_le (by omega)
    refine ⟨raw :: raws, ?_, ?_⟩
    · rw [← List.take_append_drop raw.paddingLength more]
      exact .cons raw hpadding hprecede
    · intro other hmem
      rcases List.mem_cons.mp hmem with rfl | hmem
      · exact ⟨parameter, hgives⟩
      · exact hall other hmem

theorem peels_of_precede (h : Precede raws bytes rest)
    (hall : ∀ raw ∈ raws, ∃ parameter, Gives d raw parameter) :
    ∃ parameters, (decodePadded d).Peels bytes parameters rest := by
  induction h with
  | nil rest => exact ⟨[], .done rest⟩
  | @cons raw padding bytes rest raws hpadding _ ih =>
    obtain ⟨parameter, hgives⟩ := hall raw List.mem_cons_self
    obtain ⟨parameters, hpeels⟩ := ih fun other hmem => hall other (List.mem_cons_of_mem _ hmem)
    exact ⟨parameter :: parameters, .cons (decodePadded_of_padding hgives hpadding bytes) hpeels⟩

theorem obstacle_iff : Obstacle d bytes error ↔
    bytes ≠ [] ∧ (decodePadded d).run bytes = .error error := by
  constructor
  · intro h
    cases h with
    | headless hne hsize => exact ⟨hne, decodePadded_of_headless hsize⟩
    | @undersized header more hfour =>
      exact ⟨header.encode_append_ne_nil more, decodePadded_of_undersized more hfour⟩
    | @overrun header more hover =>
      refine ⟨header.encode_append_ne_nil more, ?_⟩
      by_cases hfour : header.length.toNat < ParameterHeader.size
      · exact decodePadded_of_undersized more hfour
      · exact decodePadded_of_overrun (Nat.le_of_not_lt hfour) hover
    | @refused raw _ more hrun =>
      refine ⟨raw.bytes_ne_nil more, ?_⟩
      rw [decodePadded_of_whole, hrun]
      rfl
  · rintro ⟨hne, h⟩
    cases framing bytes with
    | headless hsize =>
      rw [decodePadded_of_headless hsize] at h
      cases h
      exact .headless hne hsize
    | undersized more hfour =>
      rw [decodePadded_of_undersized more hfour] at h
      cases h
      exact .undersized more hfour
    | overrun hfour hover =>
      rw [decodePadded_of_overrun hfour hover] at h
      cases h
      exact .overrun hover
    | whole raw more =>
      rw [decodePadded_of_whole] at h
      cases hrun : d.run raw.bytes with
      | ok found => rw [hrun] at h; cases h
      | error other =>
        rw [hrun] at h
        cases h
        exact .refused more hrun

theorem decodeAll_eq_ok_iff : (decodeAll d).run bytes = .ok (parameters, rest) ↔
    rest = [] ∧ ∃ raws, Fill raws bytes ∧ List.Forall₂ (Gives d) raws parameters := by
  rw [decodeAll, many_eq_ok_iff (advances_decodePadded d)]
  constructor
  · rintro ⟨hrest, hpeels⟩
    exact ⟨hrest, fill_of_peels hpeels⟩
  · rintro ⟨hrest, raws, hfill, hall⟩
    exact ⟨hrest, peels_of_fill hfill hall⟩

theorem decodeAll_eq_error_iff : (decodeAll d).run bytes = .error error ↔
    ∃ raws rest, Precede raws bytes rest ∧ (∀ raw ∈ raws, ∃ parameter, Gives d raw parameter) ∧
      Obstacle d rest error := by
  rw [decodeAll, many_eq_error_iff (advances_decodePadded d)]
  constructor
  · rintro ⟨parameters, rest, hpeels, hne, herror⟩
    obtain ⟨raws, hprecede, hall⟩ := precede_of_peels hpeels hne
    exact ⟨raws, rest, hprecede, hall, obstacle_iff.mpr ⟨hne, herror⟩⟩
  · rintro ⟨raws, rest, hprecede, hall, hobstacle⟩
    obtain ⟨hne, herror⟩ := obstacle_iff.mp hobstacle
    obtain ⟨parameters, hpeels⟩ := peels_of_precede hprecede hall
    exact ⟨parameters, rest, hpeels, hne, herror⟩

/-- A parameter list decodes just where the bytes are filled with parameters that the decoder
accepts, to what it makes of them, and there is one way to fill them at most. Otherwise the error is
that of the first obstacle behind accepted parameters. -/
theorem decodeAll_grammar (d : Decoder Parameter) (bytes : Bytes) :
    (∀ parameters rest, (decodeAll d).run bytes = .ok (parameters, rest) ↔
      rest = [] ∧ ∃ raws, Fill raws bytes ∧ List.Forall₂ (Gives d) raws parameters) ∧
    (∀ raws others, Fill raws bytes → Fill others bytes → raws = others) ∧
    ∀ error, (decodeAll d).run bytes = .error error ↔
      ∃ raws rest, Precede raws bytes rest ∧ (∀ raw ∈ raws, ∃ parameter, Gives d raw parameter) ∧
        Obstacle d rest error :=
  ⟨fun _ _ => decodeAll_eq_ok_iff, fun _ _ => Fill.unique, fun _ => decodeAll_eq_error_iff⟩

/-- An address, and a parameter of one byte with two of its three bytes of padding. -/
def cutBytes : Bytes := [0, 5, 0, 8, 10, 0, 0, 1, 0, 12, 0, 5, 7, 0xee, 0xee]

theorem decodeAll_grammar_cut :
    let address : RawParameter := ⟨.ipv4Sender, [10, 0, 0, 1], by decide⟩
    let other : RawParameter := ⟨⟨12⟩, [7], by decide⟩
    (∀ raws, Fill raws cutBytes → raws = [address, other]) ∧
      (decodeAll (decode .init)).run cutBytes =
        .ok ([⟨address.header, .ipv4Sender ⟨[10, 0, 0, 1], rfl⟩⟩,
          ⟨other.header, .unknown [7]⟩], []) := by
  intro address other
  obtain ⟨hok, hunique, _⟩ := decodeAll_grammar (decode .init) cutBytes
  have hother : Fill [other] (other.bytes ++ [0xee, 0xee]) := .last other (by decide)
  have hpadding : ([] : Bytes).length = address.paddingLength := by decide
  have hbytes : address.bytes ++ ([] ++ (other.bytes ++ [0xee, 0xee])) = cutBytes := by decide
  have hfill : Fill [address, other] cutBytes := hbytes ▸ .cons address hpadding hother
  have hgives : List.Forall₂ (Gives (decode .init)) [address, other]
      [⟨address.header, .ipv4Sender ⟨[10, 0, 0, 1], rfl⟩⟩, ⟨other.header, .unknown [7]⟩] := by
    refine .cons ⟨[], ?_⟩ (.cons ⟨[], ?_⟩ .nil)
    · rw [show address.bytes = [0, 5, 0, 8, 10, 0, 0, 1] by decide]
      rfl
    · rw [show other.bytes = [0, 12, 0, 5, 7] by decide]
      rfl
  constructor
  · intro raws h
    exact hunique raws _ h hfill
  · exact (hok _ _).mpr ⟨rfl, _, hfill, hgives⟩

end Parameter
end PacketCapture.Sctp
