import PacketCapture.Proofs.Layer.Data

/-! # Tagged frames

A VLAN tag stands between the addresses of a frame and its length-or-type word, and tells nothing of
what follows. Put into a frame that has none it changes nothing but itself, whether the frame is
decoded or refused.
-/
namespace PacketCapture.Ethernet
open Decoder

namespace VlanTag

/-- The frame with the tag behind its addresses. -/
def insertInto (tag : VlanTag) (bytes : Bytes) : Bytes :=
  bytes.take 12 ++ (tag.bytes ++ bytes.drop 12)

theorem toNat_id (tag : VlanTag) : tag.id.toNat = tag.control.val.value % 2 ^ 12 := by
  rw [id, UInt16.toNat_ofNat']
  omega

end VlanTag

namespace Frame

def tagged (tag : VlanTag) (frame : Frame) : Frame := { frame with vlanTag := some tag }

theorem decodeTagAndWord_of_cut {bytes : Bytes} {error : DecodeError}
    (h : (word16 .bigEndian).run bytes = .error error) :
    decodeTagAndWord.run bytes = .error error ∧
      ∀ tag : VlanTag, decodeTagAndWord.run (tag.bytes ++ bytes) = .error error := by
  refine ⟨run_bind_of_error h, ?_⟩
  intro tag
  change decodeTagAndWord.run
    (ByteOrder.bigEndian.bytes16 vlanTpid ++ tag.control.val ++ bytes) = _
  rw [decodeTagAndWord, List.append_assoc, (reads_bytes16 .bigEndian vlanTpid).run_bind,
    if_pos rfl, (reads_octets tag.control).run_bind]
  exact run_bind_of_error h

section Addresses
variable (destination source : Octets 6)

theorem run_decode_of_cut_header {bytes : Bytes} {error : DecodeError}
    (h : decodeTagAndWord.run bytes = .error error) :
    decode.run (destination.val ++ (source.val ++ bytes)) = .error error := by
  rw [decode, (reads_octets destination).run_bind, (reads_octets source).run_bind]
  exact run_bind_of_error h

theorem length_addresses : (destination.val ++ source.val).length = 12 := by
  rw [List.length_append, destination.property, source.property]

theorem drop_addresses (bytes : Bytes) :
    (destination.val ++ (source.val ++ bytes)).drop 12 = bytes := by
  rw [← List.append_assoc, List.drop_left' (length_addresses destination source)]

theorem insertInto_addresses (tag : VlanTag) (bytes : Bytes) :
    tag.insertInto (destination.val ++ (source.val ++ bytes)) =
      destination.val ++ (source.val ++ (tag.bytes ++ bytes)) := by
  rw [VlanTag.insertInto, drop_addresses, ← List.append_assoc destination.val source.val bytes,
    List.take_left' (length_addresses destination source), List.append_assoc]

theorem run_decode_of_complete_header {word : UInt16} (hword : word ≠ vlanTpid) (tag : VlanTag)
    (payload : Bytes) :
    let behind := ByteOrder.bigEndian.bytes16 word ++ payload
    let run := (InternetLayer.decode (LengthOrType.ofWord word).typeValue).run payload
    decode.run (destination.val ++ (source.val ++ behind)) =
      run.map (fun found => (⟨destination, source, none, .ofWord word, found.1⟩, found.2)) ∧
    decode.run (destination.val ++ (source.val ++ (tag.bytes ++ behind))) =
      run.map (fun found => (⟨destination, source, some tag, .ofWord word, found.1⟩, found.2)) := by
  intro behind run
  have huntagged : (none : Option VlanTag) = none → word ≠ vlanTpid := fun _ => hword
  have hannounced : some tag = none → word ≠ vlanTpid := nofun
  have hplain := run_decode_of_encodeHeader destination source huntagged payload
  have htagged := run_decode_of_encodeHeader destination source hannounced payload
  simp only [encodeHeader, List.append_assoc] at hplain htagged
  exact ⟨hplain, htagged⟩

end Addresses

theorem exists_addresses {bytes : Bytes} (h : 12 ≤ bytes.length) :
    ∃ (destination source : Octets 6) (behind : Bytes),
      bytes = destination.val ++ (source.val ++ behind) := by
  refine ⟨⟨bytes.take 6, ?_⟩, ⟨(bytes.drop 6).take 6, ?_⟩, (bytes.drop 6).drop 6, ?_⟩
  · exact List.length_take_of_le (by omega)
  · apply List.length_take_of_le
    rw [List.length_drop]
    omega
  · rw [List.take_append_drop, List.take_append_drop]

/-- A tag put into a frame that has none tells its own identifier and changes nothing else: neither
whether the frame is decoded, nor what is left over or carried, nor the error it is refused with. -/
theorem decode_insert_tag {bytes : Bytes} (tag : VlanTag) (haddresses : 12 ≤ bytes.length)
    (huntagged : ¬ [0x81, 0x00] <+: bytes.drop 12) :
    decode.run (tag.insertInto bytes) =
      (decode.run bytes).map (fun found => (found.1.tagged tag, found.2)) ∧
    ∀ frame rest, decode.run bytes = .ok (frame, rest) →
      frame.vlanTag = none ∧ frame.vlanId = none ∧
      (frame.tagged tag).vlanId.map UInt16.toNat = some (tag.control.val.value % 2 ^ 12) := by
  obtain ⟨destination, source, behind, rfl⟩ := exists_addresses haddresses
  rw [drop_addresses] at huntagged
  rw [insertInto_addresses]
  cases hrun : (word16 .bigEndian).run behind with
  | error error =>
    obtain ⟨hplain, htagged⟩ := decodeTagAndWord_of_cut hrun
    rw [run_decode_of_cut_header destination source (htagged tag),
      run_decode_of_cut_header destination source hplain]
    refine ⟨rfl, ?_⟩
    intro frame rest hframe
    cases hframe
  | ok found =>
    obtain ⟨word, payload⟩ := found
    obtain rfl := word16_eq_ok hrun
    have hword : word ≠ vlanTpid := by
      rintro rfl
      exact huntagged (List.prefix_append ..)
    obtain ⟨hplain, htagged⟩ :=
      run_decode_of_complete_header destination source hword tag payload
    rw [htagged, hplain]
    cases (InternetLayer.decode (LengthOrType.ofWord word).typeValue).run payload with
    | error error =>
      refine ⟨rfl, ?_⟩
      intro frame rest hframe
      cases hframe
    | ok found =>
      refine ⟨rfl, ?_⟩
      intro frame rest hframe
      cases hframe
      exact ⟨rfl, rfl, congrArg some tag.toNat_id⟩

def sampleTag : VlanTag := ⟨⟨[0x20, 0x64], rfl⟩⟩

theorem decode_insert_sampleTag :
    (∃ frame, decode.run LinkLayer.chunkFrame = .ok (frame, []) ∧ frame.vlanId = none ∧
      decode.run (sampleTag.insertInto LinkLayer.chunkFrame) =
        .ok (frame.tagged sampleTag, []) ∧
      (frame.tagged sampleTag).vlanId.map UInt16.toNat = some 100) ∧
    decode.run (sampleTag.insertInto heartbeatFrame) = .error .typeMismatch ∧
    decode.run (sampleTag.insertInto (heartbeatFrame.take 13)) = .error .insufficientLength := by
  have hchunk := @decode_insert_tag LinkLayer.chunkFrame sampleTag (by decide) (by decide)
  have hheartbeat := @decode_insert_tag heartbeatFrame sampleTag (by decide) (by decide)
  have hcut := @decode_insert_tag (heartbeatFrame.take 13) sampleTag (by decide) (by decide)
  obtain ⟨frame, hframe⟩ : ∃ frame, decode.run LinkLayer.chunkFrame = .ok (frame, []) := ⟨_, rfl⟩
  obtain ⟨-, hid, hid'⟩ := hchunk.2 frame [] hframe
  refine ⟨⟨frame, hframe, hid, ?_, hid'⟩, ?_, ?_⟩
  · rw [hchunk.1, hframe]
    rfl
  · rw [hheartbeat.1]
    rfl
  · rw [hcut.1]
    rfl

end Frame
end PacketCapture.Ethernet
