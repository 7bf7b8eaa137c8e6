import PacketCapture.Proofs.Sctp.Refusals
import PacketCapture.Proofs.Wire.Acceptance

/-! # Registries compared

Parameters lie where their headers put them, whatever a registry makes of their values. Reading them
by the registry of INIT chunks and keeping them as they are therefore yields the same headers, and
differs where a value is cut: its type asks for more than the declared length has room for.
-/
namespace PacketCapture

namespace Decoder
variable {bytes rest : Bytes}

theorem octets_eq_take {n : Nat} {field : Octets n}
    (h : (octets n).run bytes = .ok (field, rest)) : field.val = bytes.take n := by
  obtain rfl := octets_eq_ok h
  exact (List.take_left' field.property).symm

theorem bytes32_eq_take {order : ByteOrder} {word : UInt32}
    (h : (word32 order).run bytes = .ok (word, rest)) : order.bytes32 word = bytes.take 4 := by
  obtain rfl := word32_eq_ok h
  exact (List.take_left' (order.length_bytes32 word)).symm

end Decoder

namespace Sctp
open Decoder
open RawParameter (Gives)

/-- What INIT chunks read off the data of a parameter: an address or an increment that opens them, if
the type says so, and the data as they are for any other type. -/
def ParameterValue.ReadInit (type : ParameterType) (data : Bytes) : ParameterValue → Prop
  | .ipv4Sender address => type = .ipv4Sender ∧ address.val = data.take 4
  | .ipv6Sender address => type = .ipv6Sender ∧ address.val = data.take 16
  | .cookieLifespanIncrement increment =>
    type = .cookieLifespanIncrement ∧ ByteOrder.bigEndian.bytes32 increment = data.take 4
  | .heartbeatInfo _ => False
  | .unknown raw => raw = data ∧
    type ≠ .ipv4Sender ∧ type ≠ .ipv6Sender ∧ type ≠ .cookieLifespanIncrement

/-- The declared length has no room for the value that INIT chunks read at this type. -/
def ParameterHeader.CutsInit (header : ParameterHeader) : Prop :=
  (header.type = .ipv4Sender ∨ header.type = .cookieLifespanIncrement) ∧ header.length.toNat < 8 ∨
    header.type = .ipv6Sender ∧ header.length.toNat < 20

namespace Registry
variable {type : ParameterType} {layout : Layout ParameterValue} {data left : Bytes}
  {value : ParameterValue}

@[elab_as_elim]
theorem byInitType {motive : ParameterType → Prop} (ipv4Sender : motive .ipv4Sender)
    (ipv6Sender : motive .ipv6Sender)
    (cookieLifespanIncrement : motive .cookieLifespanIncrement)
    (other : ∀ type, type ≠ .ipv4Sender → type ≠ .ipv6Sender →
      type ≠ .cookieLifespanIncrement → motive type) (type : ParameterType) : motive type := by
  by_cases hipv4 : type = .ipv4Sender
  · exact hipv4 ▸ ipv4Sender
  by_cases hipv6 : type = .ipv6Sender
  · exact hipv6 ▸ ipv6Sender
  by_cases hcookie : type = .cookieLifespanIncrement
  · exact hcookie ▸ cookieLifespanIncrement
  exact other type hipv4 hipv6 hcookie

theorem exists_layout_init (type : ParameterType) : ∃ layout, init type = some layout := by
  cases type using byInitType with
  | ipv4Sender | ipv6Sender | cookieLifespanIncrement => exact ⟨_, rfl⟩
  | other type hipv4 hipv6 hcookie => exact ⟨_, init_of_other hipv4 hipv6 hcookie⟩

theorem readInit_of_layout (hlayout : init type = some layout)
    (hvalue : layout.value.run data = .ok (value, left)) : value.ReadInit type data := by
  cases type using byInitType with
  | ipv4Sender | ipv6Sender =>
    cases hlayout
    obtain ⟨address, haddress, rfl⟩ := map_eq_ok hvalue
    exact ⟨rfl, octets_eq_take haddress⟩
  | cookieLifespanIncrement =>
    cases hlayout
    obtain ⟨increment, hincrement, rfl⟩ := map_eq_ok hvalue
    exact ⟨rfl, bytes32_eq_take hincrement⟩
  | other type hipv4 hipv6 hcookie =>
    rw [init_of_other hipv4 hipv6 hcookie] at hlayout
    cases hlayout
    cases hvalue
    exact ⟨rfl, hipv4, hipv6, hcookie⟩

theorem accepts_of_layout (hlayout : init type = some layout)
    (h : layout.least ≤ ParameterHeader.size + data.length) : layout.value.Accepts data := by
  cases type using byInitType with
  | ipv4Sender =>
    cases hlayout
    apply ((fixed_octets 4).recognizes.map _ data).mpr
    exact Nat.le_of_add_le_add_left h
  | ipv6Sender =>
    cases hlayout
    apply ((fixed_octets 16).recognizes.map _ data).mpr
    exact Nat.le_of_add_le_add_left h
  | cookieLifespanIncrement =>
    cases hlayout
    apply ((fixed_word32 .bigEndian).recognizes.map _ data).mpr
    exact Nat.le_of_add_le_add_left h
  | other type hipv4 hipv6 hcookie =>
    rw [init_of_other hipv4 hipv6 hcookie] at hlayout
    cases hlayout
    exact (recognizes_rest.map _ data).mpr trivial

theorem least_le_iff_not_cutsInit {header : ParameterHeader}
    (hlayout : init header.type = some layout)
    (hsize : ParameterHeader.size ≤ header.length.toNat) :
    layout.least ≤ header.length.toNat ↔ ¬ header.CutsInit := by
  obtain ⟨type, length⟩ := header
  cases type using byInitType with
  | ipv4Sender =>
    cases hlayout
    simp [ParameterHeader.CutsInit, ParameterValue.ipv4SenderLayout, ParameterType.ipv4Sender,
      ParameterType.ipv6Sender]
  | ipv6Sender =>
    cases hlayout
    simp [ParameterHeader.CutsInit, ParameterValue.ipv6SenderLayout, ParameterType.ipv4Sender,
      ParameterType.ipv6Sender, ParameterType.cookieLifespanIncrement]
  | cookieLifespanIncrement =>
    cases hlayout
    simp [ParameterHeader.CutsInit, ParameterValue.cookieLifespanIncrementLayout,
      ParameterType.ipv6Sender, ParameterType.cookieLifespanIncrement]
  | other type hipv4 hipv6 hcookie =>
    rw [init_of_other hipv4 hipv6 hcookie] at hlayout
    cases hlayout
    refine iff_of_true hsize ?_
    simp [ParameterHeader.CutsInit, hipv4, hipv6, hcookie]

end Registry

namespace RawParameter
variable {raw : RawParameter} {raws : List RawParameter} {parameter : Parameter}

def kept (raw : RawParameter) : Parameter := ⟨raw.header, .unknown raw.data⟩

theorem gives_iff_of_layout {registry : Registry} {layout : Layout ParameterValue}
    (hlayout : registry raw.type = some layout) :
    Gives (Parameter.decode registry) raw parameter ↔
      parameter.header = raw.header ∧ layout.least ≤ raw.header.length.toNat ∧
        ∃ left, layout.value.run raw.data = .ok (parameter.value, left) := by
  constructor
  · rintro ⟨rest, hrun⟩
    obtain ⟨found, value, left, hfound, hleast, hbytes, hlen, hvalue⟩ := Parameter.decode_eq_ok hrun
    obtain ⟨header, parsed⟩ := parameter
    have hheader := raw.run_decode_header []
    rw [List.append_nil, List.append_nil] at hheader
    obtain rfl := ParameterHeader.eq_of_encode hheader hbytes
    obtain rfl := Option.some.inj (hlayout.symm.trans hfound)
    have hdata := List.append_cancel_left hbytes
    rw [raw.length_header, length, Nat.add_sub_cancel_left] at hlen
    obtain ⟨rfl, _⟩ := List.append_inj (hdata.symm.trans (List.append_nil _).symm) hlen
    exact ⟨rfl, hleast, left, hvalue⟩
  · rintro ⟨hheader, hleast, left, hvalue⟩
    obtain ⟨header, value⟩ := parameter
    obtain rfl := hheader
    rw [raw.length_header] at hleast
    have hreads := ParameterHeader.reads_decodeWithValue hlayout raw.length_header hleast hvalue
    exact ⟨[], hreads.bind_pure.run_eq⟩

theorem size_le_header (raw : RawParameter) :
    ParameterHeader.size ≤ raw.header.length.toNat := by
  rw [raw.length_header]
  exact Nat.le_add_right _ _

theorem gives_unknown_iff : Gives (Parameter.decode .unknown) raw parameter ↔
    raw.kept = parameter := by
  rw [gives_iff_of_layout rfl]
  constructor
  · rintro ⟨hheader, _, left, hvalue⟩
    obtain ⟨header, value⟩ := parameter
    obtain rfl := hheader
    cases hvalue
    rfl
  · rintro rfl
    exact ⟨rfl, raw.size_le_header, [], rfl⟩

theorem readInit_of_gives (h : Gives (Parameter.decode .init) raw parameter) :
    parameter.header = raw.header ∧ parameter.value.ReadInit raw.type raw.data := by
  obtain ⟨layout, hlayout⟩ := Registry.exists_layout_init raw.type
  obtain ⟨hheader, _, _, hvalue⟩ := (gives_iff_of_layout hlayout).mp h
  exact ⟨hheader, Registry.readInit_of_layout hlayout hvalue⟩

theorem exists_gives_init_iff : (∃ parameter, Gives (Parameter.decode .init) raw parameter) ↔
    ¬ raw.header.CutsInit := by
  obtain ⟨layout, hlayout⟩ := Registry.exists_layout_init raw.type
  rw [← Registry.least_le_iff_not_cutsInit hlayout raw.size_le_header]
  constructor
  · rintro ⟨parameter, hgives⟩
    exact ((gives_iff_of_layout hlayout).mp hgives).2.1
  · intro hleast
    obtain ⟨value, left, hvalue⟩ := Registry.accepts_of_layout hlayout (raw.length_header ▸ hleast)
    exact ⟨⟨raw.header, value⟩, (gives_iff_of_layout hlayout).mpr ⟨rfl, hleast, left, hvalue⟩⟩

theorem exists_gives_all_iff {d : Decoder Parameter} :
    (∃ parameters, List.Forall₂ (Gives d) raws parameters) ↔
      ∀ raw ∈ raws, ∃ parameter, Gives d raw parameter := by
  induction raws with
  | nil => simp
  | cons raw raws ih =>
    rw [List.forall_mem_cons, ← ih]
    constructor
    · rintro ⟨_, hall⟩
      obtain _ | ⟨hfirst, hrest⟩ := hall
      exact ⟨⟨_, hfirst⟩, _, hrest⟩
    · rintro ⟨⟨parameter, hfirst⟩, parameters, hrest⟩
      exact ⟨parameter :: parameters, .cons hfirst hrest⟩

end RawParameter

namespace Parameter
variable {bytes rest : Bytes} {parameters : List Parameter} {raws : List RawParameter}

/-- The one parameter is what INIT chunks make of the other, which is kept as it is. -/
structure TypedFrom (typed kept : Parameter) : Prop where
  header : typed.header = kept.header
  value : ∃ data, kept.value = .unknown data ∧ typed.value.ReadInit kept.header.type data

theorem decodeAll_unknown_eq_ok_iff :
    (decodeAll (decode .unknown)).run bytes = .ok (parameters, rest) ↔
      rest = [] ∧ ∃ raws, RawParameter.Fill raws bytes ∧
        raws.map RawParameter.kept = parameters := by
  have hkept : ∀ raws, List.Forall₂ (Gives (decode .unknown)) raws parameters ↔
      raws.map RawParameter.kept = parameters := by
    intro raws
    have heq := List.forall₂_map_left_iff (R := Eq) (f := RawParameter.kept) (l := raws)
      (u := parameters)
    rw [List.forall₂_eq_eq_eq] at heq
    simpa only [← RawParameter.gives_unknown_iff] using heq.symm
  simp only [decodeAll_eq_ok_iff, hkept]

theorem typedFrom_of_gives {raw : RawParameter} {parameter : Parameter}
    (h : Gives (decode .init) raw parameter) : parameter.TypedFrom raw.kept := by
  obtain ⟨hheader, hvalue⟩ := RawParameter.readInit_of_gives h
  exact ⟨hheader, raw.data, rfl, hvalue⟩

theorem accepts_init_iff_of_fill (hfill : RawParameter.Fill raws bytes) :
    (decodeAll (decode .init)).Accepts bytes ↔ ∀ raw ∈ raws, ¬ raw.header.CutsInit := by
  simp only [← RawParameter.exists_gives_init_iff, ← RawParameter.exists_gives_all_iff]
  constructor
  · rintro ⟨parameters, rest, hrun⟩
    obtain ⟨_, others, hothers, hall⟩ := decodeAll_eq_ok_iff.mp hrun
    obtain rfl := hfill.unique hothers
    exact ⟨parameters, hall⟩
  · rintro ⟨parameters, hall⟩
    exact ⟨parameters, [], decodeAll_eq_ok_iff.mpr ⟨rfl, raws, hfill, hall⟩⟩

/-- Parameters of INIT chunks are those kept as they are, one by one and with the same headers, their
values read off the data where the type says so. Where the parameters are kept, reading them fails
just if one of them is cut, and for want of bytes. Parameters of ERROR chunks are kept. -/
theorem decodeAll_init_typed (bytes : Bytes) :
    (∀ parameters rest, (decodeAll (decode .init)).run bytes = .ok (parameters, rest) →
      ∃ kept, (decodeAll (decode .unknown)).run bytes = .ok (kept, rest) ∧
        List.Forall₂ TypedFrom parameters kept) ∧
    (∀ kept rest, (decodeAll (decode .unknown)).run bytes = .ok (kept, rest) →
      ((∃ error, (decodeAll (decode .init)).run bytes = .error error) ↔
        ∃ parameter ∈ kept, parameter.header.CutsInit) ∧
      ∀ error, (decodeAll (decode .init)).run bytes = .error error → error = .insufficientLength) ∧
    (decodeAll (decode .error)).run bytes = (decodeAll (decode .unknown)).run bytes := by
  refine ⟨?_, ?_, rfl⟩
  · intro parameters rest hrun
    obtain ⟨hrest, raws, hfill, hall⟩ := decodeAll_eq_ok_iff.mp hrun
    refine ⟨_, decodeAll_unknown_eq_ok_iff.mpr ⟨hrest, raws, hfill, rfl⟩, ?_⟩
    rw [List.forall₂_map_right_iff]
    exact (hall.imp fun _ _ => typedFrom_of_gives).flip
  · intro kept rest hrun
    obtain ⟨_, raws, hfill, rfl⟩ := decodeAll_unknown_eq_ok_iff.mp hrun
    refine ⟨?_, fun error => wants_decodeAll wants_decode_init bytes error⟩
    rw [← not_accepts_iff, accepts_init_iff_of_fill hfill]
    simp [RawParameter.kept]

/-- An increment, an address with four bytes behind it, and a parameter of one byte whose padding is
cut. -/
def overlongBytes : Bytes := [
  0, 9, 0, 8, 0, 0, 0x0e, 0x10,
  0, 6, 0, 24, 0x20, 1, 0x0d, 0xb8, 0, 0, 0, 0, 0, 0, 0, 0, 0, 0, 0, 1, 0xde, 0xad, 0xbe, 0xef,
  0, 12, 0, 5, 7, 0xee]

def cutIncrementBytes : Bytes := [0, 5, 0, 8, 10, 0, 0, 1, 0, 9, 0, 6, 0x0e, 0x10]

theorem decodeAll_init_typed_overlong :
    (∃ parameters kept, (decodeAll (decode .init)).run overlongBytes = .ok (parameters, []) ∧
      (decodeAll (decode .unknown)).run overlongBytes = .ok (kept, []) ∧ kept.length = 3 ∧
      List.Forall₂ TypedFrom parameters kept) ∧
    ∃ kept, (decodeAll (decode .unknown)).run cutIncrementBytes = .ok (kept, []) ∧
      (decodeAll (decode .init)).run cutIncrementBytes = .error .insufficientLength ∧
      ∃ parameter ∈ kept, parameter.header.CutsInit := by
  obtain ⟨parameters, hinit⟩ : ∃ parameters,
    (decodeAll (decode .init)).run overlongBytes = .ok (parameters, []) := ⟨_, rfl⟩
  obtain ⟨kept, hkept, hlen⟩ : ∃ kept,
    (decodeAll (decode .unknown)).run overlongBytes = .ok (kept, []) ∧ kept.length = 3 :=
      ⟨_, rfl, rfl⟩
  obtain ⟨cut, hcut⟩ : ∃ kept,
    (decodeAll (decode .unknown)).run cutIncrementBytes = .ok (kept, []) := ⟨_, rfl⟩
  have hfail : (decodeAll (decode .init)).run cutIncrementBytes = .error .insufficientLength := rfl
  obtain ⟨others, hothers, htyped⟩ := (decodeAll_init_typed overlongBytes).1 _ _ hinit
  rw [hkept] at hothers
  cases hothers
  have hiff := ((decodeAll_init_typed cutIncrementBytes).2.1 cut [] hcut).1
  exact ⟨⟨parameters, kept, hinit, hkept, hlen, htyped⟩, cut, hcut, hfail, hiff.mp ⟨_, hfail⟩⟩

end Parameter
end Sctp
end PacketCapture
