import PacketCapture.Proofs.Wire.Repetition
import PacketCapture.Proofs.Wire.Words
import PacketCapture.Sctp.Parameter

/-! # Encoded parameters

The encoding of a parameter is its header and its value. In a chunk the parameters are padded to four
bytes with bytes of any value, the last one as far as the chunk goes. What is well formed decodes from
its encodings.
-/
namespace PacketCapture.Sctp

namespace ParameterHeader

def encode (header : ParameterHeader) : Bytes :=
  ByteOrder.bigEndian.bytes16 header.type.code ++ ByteOrder.bigEndian.bytes16 header.length

theorem reads_encode (header : ParameterHeader) : decode.Reads header.encode header :=
  (Decoder.reads_bytes16 _ _).bind (Decoder.reads_bytes16 _ _).bind_pure

@[simp] theorem length_encode (header : ParameterHeader) : header.encode.length = size := by
  simp [encode, size]

theorem reads_decodeWithValue {α : Type} {layouts : ParameterType → Option (Layout α)}
    {header : ParameterHeader} {layout : Layout α} {value left : Bytes} {a : α}
    (hlayout : layouts header.type = some layout)
    (hlength : header.length.toNat = size + value.length)
    (hleast : layout.least ≤ size + value.length)
    (hvalue : layout.value.run value = .ok (a, left)) :
    (decodeWithValue layouts).Reads (header.encode ++ value) (header, a) := by
  intro more
  have hrest : value.length = header.length.toNat - size := by omega
  have hlong : ¬ header.length.toNat < layout.least := by omega
  rw [decodeWithValue, List.append_assoc, header.reads_encode.run_bind]
  simp only [hlayout, if_neg hlong]
  exact (Decoder.reads_within hrest hvalue).bind_pure more

end ParameterHeader

namespace ParameterValue

def encode : ParameterValue → Bytes
  | .ipv4Sender address => address.val
  | .ipv6Sender address => address.val
  | .cookieLifespanIncrement increment => ByteOrder.bigEndian.bytes32 increment
  | .heartbeatInfo info => info
  | .unknown data => data

inductive FitsInit : ParameterType → ParameterValue → Prop
  | ipv4Sender (address : Octets 4) : FitsInit .ipv4Sender (.ipv4Sender address)
  | ipv6Sender (address : Octets 16) : FitsInit .ipv6Sender (.ipv6Sender address)
  | cookieLifespanIncrement (increment : UInt32) :
      FitsInit .cookieLifespanIncrement (.cookieLifespanIncrement increment)
  | unknown {type : ParameterType} (data : Bytes) : type ≠ .ipv4Sender → type ≠ .ipv6Sender →
      type ≠ .cookieLifespanIncrement → FitsInit type (.unknown data)

/-- The values in ERROR chunks, whose types mean nothing. -/
inductive FitsError : ParameterType → ParameterValue → Prop
  | unknown (type : ParameterType) (data : Bytes) : FitsError type (.unknown data)

end ParameterValue

theorem Registry.init_of_other {type : ParameterType} (hipv4 : type ≠ .ipv4Sender)
    (hipv6 : type ≠ .ipv6Sender) (hcookie : type ≠ .cookieLifespanIncrement) :
    init type = some ParameterValue.unknownLayout := by
  unfold init
  split
  · exact absurd rfl hipv4
  · exact absurd rfl hipv6
  · exact absurd rfl hcookie
  · rfl

namespace Parameter

def encode (parameter : Parameter) : Bytes := parameter.header.encode ++ parameter.value.encode

def paddingLength (parameter : Parameter) : Nat :=
  align4 parameter.header.length.toNat - parameter.header.length.toNat

/-- The type goes with the value, and the declared length is that of the encoding. -/
structure WellFormed (fits : ParameterType → ParameterValue → Prop) (parameter : Parameter) :
    Prop where
  fits : fits parameter.header.type parameter.value
  length : parameter.header.length.toNat = ParameterHeader.size + parameter.value.encode.length

/-- The ways to write parameters one after another, each with its padding, the last one with all of
its padding or some or none. -/
inductive EncodesAll : List Parameter → Bytes → Prop
  | nil : EncodesAll [] []
  | last (parameter : Parameter) {padding : Bytes} : padding.length ≤ parameter.paddingLength →
      EncodesAll [parameter] (parameter.encode ++ padding)
  | cons (parameter : Parameter) {padding bytes : Bytes} {parameters : List Parameter} :
      padding.length = parameter.paddingLength → EncodesAll parameters bytes →
      EncodesAll (parameter :: parameters) (parameter.encode ++ (padding ++ bytes))

variable {fits : ParameterType → ParameterValue → Prop} {parameter : Parameter}

theorem length_encode_pos (parameter : Parameter) : 0 < parameter.encode.length := by
  rw [encode, List.length_append, ParameterHeader.length_encode]
  exact Nat.add_pos_left (by decide) _

theorem WellFormed.length_encode (h : parameter.WellFormed fits) :
    parameter.encode.length = parameter.header.length.toNat := by
  rw [encode, List.length_append, ParameterHeader.length_encode, h.length]

theorem reads_of_layout {registry : Registry} {layout : Layout ParameterValue} {left : Bytes}
    (h : parameter.WellFormed fits) (hlayout : registry parameter.header.type = some layout)
    (hleast : layout.least ≤ ParameterHeader.size + parameter.value.encode.length)
    (hvalue : layout.value.run parameter.value.encode = .ok (parameter.value, left)) :
    (decode registry).Reads parameter.encode parameter :=
  (ParameterHeader.reads_decodeWithValue hlayout h.length hleast hvalue).bind_pure

theorem reads_init (h : parameter.WellFormed ParameterValue.FitsInit) :
    (decode .init).Reads parameter.encode parameter := by
  have hfits := h.fits
  obtain ⟨⟨type, length⟩, value⟩ := parameter
  cases hfits with
  | ipv4Sender address =>
    refine reads_of_layout h rfl ?_ ((Decoder.reads_octets address).map _).run_eq
    exact Nat.le_of_eq (congrArg (4 + ·) address.property.symm)
  | ipv6Sender address =>
    refine reads_of_layout h rfl ?_ ((Decoder.reads_octets address).map _).run_eq
    exact Nat.le_of_eq (congrArg (4 + ·) address.property.symm)
  | cookieLifespanIncrement increment =>
    refine reads_of_layout h rfl ?_ ((Decoder.reads_bytes32 .bigEndian increment).map _).run_eq
    exact Nat.le_of_eq (congrArg (4 + ·) (ByteOrder.length_bytes32 .bigEndian increment).symm)
  | unknown data hipv4 hipv6 hcookie =>
    exact reads_of_layout h (Registry.init_of_other hipv4 hipv6 hcookie) (Nat.le_add_right _ _) rfl

theorem reads_error (h : parameter.WellFormed ParameterValue.FitsError) :
    (decode .error).Reads parameter.encode parameter := by
  have hfits := h.fits
  obtain ⟨⟨type, length⟩, value⟩ := parameter
  cases hfits with
  | unknown => exact reads_of_layout h rfl (Nat.le_add_right _ _) rfl

variable {d : Decoder Parameter}

theorem run_decodePadded (h : parameter.WellFormed fits) (hd : d.Reads parameter.encode parameter)
    (more : Bytes) : (decodePadded d).run (parameter.encode ++ more) =
      .ok (parameter, more.drop parameter.paddingLength) := by
  have hheader : ParameterHeader.decode.run (parameter.encode ++ more) =
      .ok (parameter.header, parameter.value.encode ++ more) := by
    rw [encode, List.append_assoc]
    exact parameter.header.reads_encode _
  have hlong : ¬ parameter.header.length.toNat < ParameterHeader.size := by
    rw [h.length]
    omega
  rw [decodePadded, Decoder.run_bind_of_ok (Decoder.run_peek_of_ok hheader)]
  simp only [if_neg hlong]
  exact (Decoder.reads_within h.length_encode hd.run_eq).run_bind

theorem tiles_encoding {parameters : List Parameter} {bytes : Bytes}
    (henc : EncodesAll parameters bytes) (h : ∀ parameter ∈ parameters, parameter.WellFormed fits)
    (hd : ∀ {parameter : Parameter}, parameter.WellFormed fits →
      d.Reads parameter.encode parameter) : (decodePadded d).Tiles bytes parameters := by
  induction henc with
  | nil => exact .nil
  | @last parameter padding hpadding =>
    have hwell := h parameter List.mem_cons_self
    have hrun := run_decodePadded hwell (hd hwell) padding
    rw [List.drop_of_length_le hpadding] at hrun
    have hpos := parameter.length_encode_pos
    refine .cons hrun ?_ .nil
    rw [List.length_append]
    exact Nat.add_pos_left hpos _
  | @cons parameter padding bytes parameters hpadding _ ih =>
    have hwell := h parameter List.mem_cons_self
    have hrun := run_decodePadded hwell (hd hwell) (padding ++ bytes)
    rw [← hpadding, List.drop_left] at hrun
    have hpos := parameter.length_encode_pos
    refine .cons hrun ?_ (ih fun other hother => h other (List.mem_cons_of_mem _ hother))
    rw [List.length_append, List.length_append]
    omega

theorem run_decodeAll_init {parameters : List Parameter} {bytes : Bytes}
    (henc : EncodesAll parameters bytes)
    (h : ∀ parameter ∈ parameters, parameter.WellFormed ParameterValue.FitsInit) :
    (decodeAll (decode .init)).run bytes = .ok (parameters, []) :=
  (tiles_encoding henc h reads_init).run_many

theorem run_decodeAll_error {parameters : List Parameter} {bytes : Bytes}
    (henc : EncodesAll parameters bytes)
    (h : ∀ parameter ∈ parameters, parameter.WellFormed ParameterValue.FitsError) :
    (decodeAll (decode .error)).run bytes = .ok (parameters, []) :=
  (tiles_encoding henc h reads_error).run_many

end Parameter

namespace HeartbeatInfo

structure WellFormed (info : HeartbeatInfo) : Prop where
  type : info.header.type = .heartbeatInfo
  length : info.header.length.toNat = ParameterHeader.size + info.info.length

def Encodes (info : HeartbeatInfo) (bytes : Bytes) : Prop :=
  ∃ padding : Bytes,
    padding.length ≤ align4 info.header.length.toNat - info.header.length.toNat ∧
      bytes = info.header.encode ++ (info.info ++ padding)

theorem length_of_encodes {info : HeartbeatInfo} {bytes : Bytes} (h : info.Encodes bytes) :
    ParameterHeader.size ≤ bytes.length := by
  obtain ⟨padding, _, rfl⟩ := h
  simp

theorem reads_encode {info : HeartbeatInfo} (hwell : info.WellFormed) :
    decode.Reads (info.header.encode ++ info.info) info := by
  obtain ⟨⟨type, length⟩, raw⟩ := info
  obtain ⟨rfl, hlength⟩ := hwell
  exact (ParameterHeader.reads_decodeWithValue rfl hlength (Nat.le_add_right _ _) rfl).bind_pure

theorem run_decode {info : HeartbeatInfo} {bytes : Bytes} (hwell : info.WellFormed)
    (h : info.Encodes bytes) : ∃ left, decode.run bytes = .ok (info, left) := by
  obtain ⟨padding, _, rfl⟩ := h
  refine ⟨padding, ?_⟩
  rw [← List.append_assoc]
  exact reads_encode hwell padding

end HeartbeatInfo
end PacketCapture.Sctp
