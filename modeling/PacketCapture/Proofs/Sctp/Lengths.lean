import PacketCapture.Proofs.Sctp.Taken

/-! # Declared lengths of segments

No chunk and no parameter that was decoded reaches beyond what contains it: a chunk with its padding
lies in the segment after the chunks before it, and a parameter so in the body of its chunk. What a
length declares is there in full.
-/
namespace PacketCapture.Sctp
open Decoder

/-- Whatever the layout reads from as many bytes as a length declares is right for that length. -/
def Layout.Ensures {α : Type} (layout : Layout α) (P : Nat → α → Prop) : Prop :=
  ∀ ⦃length : Nat⦄ ⦃bytes left : Bytes⦄ ⦃a : α⦄, layout.least ≤ length →
    bytes.length = length - 4 → layout.value.run bytes = .ok (a, left) → P length a

theorem Layout.ensures_map {α β : Type} {d : Decoder α} {g : α → β} {least : Nat}
    {P : Nat → β → Prop} (h : ∀ {length : Nat} {bytes left : Bytes} {a : α}, least ≤ length →
      bytes.length = length - 4 → d.run bytes = .ok (a, left) → P length (g a)) :
    Layout.Ensures ⟨least, g <$> d⟩ P := by
  intro length bytes left b hleast hlen hrun
  obtain ⟨a, hd, rfl⟩ := map_eq_ok hrun
  exact h hleast hlen hd

theorem Layout.ensures_pure {α : Type} {a : α} {least : Nat} {P : Nat → α → Prop}
    (h : ∀ {length : Nat}, least ≤ length → P length a) : Layout.Ensures ⟨least, pure a⟩ P := by
  intro length bytes left b hleast _ hrun
  cases hrun
  exact h hleast

theorem Layout.ensures_rest {α : Type} {g : Bytes → α} {P : Nat → α → Prop}
    (h : ∀ {length : Nat} {raw : Bytes}, raw.length + 4 = length → P length (g raw)) :
    Layout.Ensures ⟨4, g <$> .rest⟩ P := by
  refine Layout.ensures_map ?_
  intro length bytes left raw hleast hlen hrun
  cases hrun
  refine h ?_
  rw [hlen, Nat.sub_add_cancel hleast]

/-- The value is complete for the declared length of its parameter. -/
def ParameterValue.Within (length : Nat) : ParameterValue → Prop
  | .ipv4Sender _ => 8 ≤ length
  | .ipv6Sender _ => 20 ≤ length
  | .cookieLifespanIncrement _ => 8 ≤ length
  | .heartbeatInfo info => info.length + 4 = length
  | .unknown raw => raw.length + 4 = length

theorem ParameterValue.ensures_unknownLayout : unknownLayout.Ensures Within :=
  Layout.ensures_rest id

namespace Registry

def Complete (registry : Registry) : Prop :=
  ∀ ⦃type layout⦄, registry type = some layout → layout.Ensures ParameterValue.Within

theorem complete_unknown : unknown.Complete := by
  intro type layout hlayout
  cases hlayout
  exact ParameterValue.ensures_unknownLayout

theorem complete_init : init.Complete := by
  intro type layout hlayout
  unfold init at hlayout
  split at hlayout
  · cases hlayout
    exact Layout.ensures_map fun hleast _ _ => hleast
  · cases hlayout
    exact Layout.ensures_map fun hleast _ _ => hleast
  · cases hlayout
    exact Layout.ensures_map fun hleast _ _ => hleast
  · cases hlayout
    exact ParameterValue.ensures_unknownLayout

end Registry

namespace Parameter

/-- The parameters fill a room of so many bytes, each of them complete. -/
def Fill (room : Nat) (parameters : List Parameter) : Prop :=
  Packed (fun parameter => parameter.header.length.toNat)
      (fun parameter => align4 parameter.header.length.toNat) room parameters ∧
    ∀ parameter ∈ parameters, parameter.value.Within parameter.header.length.toNat

variable {registry : Registry} {bytes rest : Bytes}

theorem within_of_decodePadded {parameter : Parameter} (hregistry : registry.Complete)
    (h : (decodePadded (decode registry)).run bytes = .ok (parameter, rest)) :
    parameter.header.length.toNat ≤ bytes.length ∧
      rest.length = bytes.length - align4 parameter.header.length.toNat ∧
      parameter.value.Within parameter.header.length.toNat := by
  obtain ⟨header, left, stretch, used, more, hheader, _, rfl, hlen, hparameter, rfl⟩ :=
    decodePadded_eq_ok h
  obtain ⟨layout, value, end_, hlayout, hleast, rfl, hvalue, hrun⟩ := decode_eq_ok hparameter
  rw [List.append_assoc] at hheader
  obtain rfl := ParameterHeader.eq_of_encode hheader rfl
  have hle := le_align4 parameter.header.length.toNat
  refine ⟨?_, ?_, hregistry hlayout hleast hvalue hrun⟩
  · rw [List.length_append]
    omega
  · rw [List.length_append, List.length_drop]
    omega

theorem fill_of_decodeAll {parameters : List Parameter} (hregistry : registry.Complete)
    (h : (decodeAll (decode registry)).run bytes = .ok (parameters, rest)) :
    Fill bytes.length parameters := by
  obtain ⟨htiles, _⟩ := tiles_of_decodeAll h
  exact htiles.packed (within_of_decodePadded hregistry)

end Parameter

namespace ChunkBody

/-- The body is complete for the declared length of its chunk, and what it contains lies inside. -/
def Within (length : Nat) : ChunkBody → Prop
  | .data payload => payload.data.length + 16 = length
  | .init initiation | .initAck initiation =>
    20 ≤ length ∧ Parameter.Fill (length - 20) initiation.parameters
  | .sack acknowledgement => 16 + 4 * (acknowledgement.gapBlocks.length +
      acknowledgement.duplicateTsns.length) ≤ length
  | .heartbeat info | .heartbeatAck info => info.header.length.toNat ≤ length - 4 ∧
      info.info.length + 4 = info.header.length.toNat
  | .abort _ | .shutdown _ => 8 ≤ length
  | .error causes => 4 ≤ length ∧ Parameter.Fill (length - 4) causes
  | .shutdownAck | .cookieAck | .shutdownComplete => 4 ≤ length
  | .cookieEcho cookie => cookie.length + 4 = length
  | .unknown raw => raw.length + 4 = length

variable {length : Nat} {bytes left : Bytes}

theorem fill_of_initiation {initiation : Initiation} (hleast : 20 ≤ length)
    (hlen : bytes.length = length - 4)
    (h : Initiation.decode.run bytes = .ok (initiation, left)) :
    20 ≤ length ∧ Parameter.Fill (length - 20) initiation.parameters := by
  obtain ⟨parameters, rfl, hparameters⟩ := Initiation.decode_eq_ok h
  rw [List.length_append, Initiation.length_encodeFields] at hlen
  have hroom : parameters.length = length - 20 := by omega
  have hfill := Parameter.fill_of_decodeAll Registry.complete_init hparameters
  rw [hroom] at hfill
  exact ⟨hleast, hfill⟩

theorem within_of_heartbeatInfo {info : HeartbeatInfo} (hlen : bytes.length = length - 4)
    (h : HeartbeatInfo.decode.run bytes = .ok (info, left)) :
    info.header.length.toNat ≤ length - 4 ∧ info.info.length + 4 = info.header.length.toNat := by
  obtain ⟨_, hleast, rfl, hinfo⟩ := HeartbeatInfo.decode_eq_ok h
  simp only [List.length_append, ParameterHeader.length_encode] at hlen
  unfold ParameterHeader.size at hleast hinfo hlen
  constructor <;> omega

theorem ensures_layout (type : ChunkType) : (layout type).Ensures Within := by
  cases type using ChunkType.byLayout with
  | data =>
    refine Layout.ensures_map fun hleast hlen hrun => ?_
    obtain ⟨rfl, _⟩ := Payload.decode_eq_ok hrun
    simp only [Payload.encode, List.length_append, ByteOrder.length_bytes16,
      ByteOrder.length_bytes32] at hlen
    simp only [Within]
    omega
  | init | initAck => exact Layout.ensures_map fill_of_initiation
  | sack =>
    refine Layout.ensures_map fun hleast hlen hrun => ?_
    have hcounts := Acknowledgement.length_of_decode hrun
    rw [Acknowledgement.length_encode] at hcounts
    simp only [Within]
    omega
  | heartbeat | heartbeatAck => exact Layout.ensures_map fun _ => within_of_heartbeatInfo
  | abort | shutdown => exact Layout.ensures_map fun hleast _ _ => hleast
  | shutdownAck | cookieAck | shutdownComplete => exact Layout.ensures_pure id
  | error =>
    refine Layout.ensures_map fun hleast hlen hrun => ⟨hleast, ?_⟩
    rw [← hlen]
    exact Parameter.fill_of_decodeAll Registry.complete_unknown hrun
  | cookieEcho => exact Layout.ensures_rest id
  | other type hother =>
    rw [layout_of_unknown hother]
    exact Layout.ensures_rest id

end ChunkBody

theorem Chunk.within_of_decodeBounded {bytes rest : Bytes} {chunk : Chunk}
    (h : decodeBounded.run bytes = .ok (chunk, rest)) :
    chunk.header.alignedLength ≤ bytes.length ∧
      rest.length = bytes.length - chunk.header.alignedLength ∧
      chunk.body.Within chunk.header.length.toNat := by
  obtain ⟨stretch, left, _, rfl, hlen, hchunk⟩ := decodeBounded_eq_ok h
  obtain ⟨content, _, _, hleast, _, hcontent, _, hbody⟩ := decode_eq_ok hchunk
  refine ⟨?_, ?_, ChunkBody.ensures_layout _ hleast hcontent hbody⟩
  · rw [List.length_append]
    omega
  · rw [List.length_append]
    omega

namespace Segment

/-- The chunks with their padding fill a room of so many bytes behind the common header, each of them
complete. -/
def Within (room : Nat) (segment : Segment) : Prop :=
  headerSize ≤ room ∧
    Packed (fun chunk => chunk.header.alignedLength) (fun chunk => chunk.header.alignedLength)
      (room - headerSize) segment.chunks ∧
    ∀ chunk ∈ segment.chunks, chunk.body.Within chunk.header.length.toNat

theorem within_of_decode {bytes rest : Bytes} {segment : Segment}
    (h : decode.run bytes = .ok (segment, rest)) : segment.Within bytes.length := by
  obtain ⟨chunks, rfl, hchunks⟩ := decode_eq_ok h
  obtain ⟨htiles, _⟩ := Chunk.tiles_of_decodeAll hchunks
  rw [Within, List.length_append, length_encodeFields, Nat.add_sub_cancel_left]
  exact ⟨Nat.le_add_right _ _, htiles.packed Chunk.within_of_decodeBounded⟩

end Segment
end PacketCapture.Sctp
