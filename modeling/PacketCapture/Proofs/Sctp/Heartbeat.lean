import PacketCapture.Proofs.Sctp.ChunkGrammar

/-! # Heartbeats

The body of a heartbeat opens with its one parameter. Whatever bytes the body has behind the parameter
are taken with the chunk and dropped, be they its padding, another parameter or neither. The parameter
fills the body just where there are no more of them than padding.
-/
namespace PacketCapture.Sctp
open Decoder

def HeartbeatInfo.paddingLength (info : HeartbeatInfo) : Nat :=
  align4 info.header.length.toNat - info.header.length.toNat

namespace ChunkBody
variable {type : ChunkType} {content left : Bytes} {body : ChunkBody} {info : HeartbeatInfo}

def heartbeatInfo : ChunkBody → Option HeartbeatInfo
  | .heartbeat info | .heartbeatAck info => some info
  | _ => none

theorem heartbeat_value_iff (hinfo : body.heartbeatInfo = some info) :
    (layout type).value.run content = .ok (body, left) ↔
      body.kind = some type ∧ HeartbeatInfo.decode.run content = .ok (info, left) := by
  cases body with
  | heartbeat | heartbeatAck =>
    cases hinfo
    constructor
    · intro hrun
      have hkind := kind_of_value hrun
      split at hkind
      · cases hkind
        obtain ⟨_, hinfo, hbody⟩ := map_eq_ok hrun
        cases hbody
        exact ⟨rfl, hinfo⟩
      · cases hkind
    · rintro ⟨hkind, hrun⟩
      cases hkind
      exact run_map_of_ok hrun _
  | _ => cases hinfo

theorem least_of_heartbeat (hinfo : body.heartbeatInfo = some info) (hkind : body.kind = some type) :
    (layout type).least = 8 := by
  cases body with
  | heartbeat | heartbeatAck =>
    cases hkind
    rfl
  | _ => cases hinfo

end ChunkBody

namespace Chunk

/-- In front of the rest stand a chunk header and a body as long as it declares, padded, and the body
has the parameter in front of trailing bytes. -/
inductive Heartbeat (header : ChunkHeader) (info : HeartbeatInfo) (trailing : Bytes) :
    Bytes → Bytes → Prop
  | padded {content padding : Bytes} (rest : Bytes) :
      content = info.header.encode ++ (info.info ++ trailing) →
      header.length.toNat = ChunkHeader.size + content.length →
      padding.length = header.alignedLength - header.length.toNat →
      Heartbeat header info trailing (header.encode ++ (content ++ (padding ++ rest))) rest

/-- The body is the parameter and no more than its padding. -/
structure FilledBy (header : ChunkHeader) (info : HeartbeatInfo) : Prop where
  inside : info.header.length.toNat ≤ header.length.toNat - ChunkHeader.size
  outside : header.length.toNat - ChunkHeader.size ≤ align4 info.header.length.toNat
  info : info.info.length = info.header.length.toNat - ParameterHeader.size

variable {chunk : Chunk} {header : ChunkHeader} {info : HeartbeatInfo} {bytes rest trailing : Bytes}

theorem heartbeat_of_decode (hinfo : chunk.body.heartbeatInfo = some info)
    (h : decode.run bytes = .ok (chunk, rest)) :
    chunk.body.kind = some chunk.header.type ∧ info.WellFormed ∧
      ∃ trailing, Heartbeat chunk.header info trailing bytes rest := by
  obtain ⟨content, padding, trailing, hleast, rfl, hcontent, hpadding, hbody⟩ := decode_eq_ok h
  have hfour := ChunkBody.size_le hleast
  obtain ⟨hkind, hrun⟩ := (ChunkBody.heartbeat_value_iff hinfo).mp hbody
  obtain ⟨htype, hsize, hfront, hlen⟩ := HeartbeatInfo.decode_eq_ok hrun
  exact ⟨hkind, ⟨htype, by omega⟩, trailing, .padded rest hfront (by omega) hpadding⟩

theorem decode_of_heartbeat (hinfo : chunk.body.heartbeatInfo = some info)
    (hkind : chunk.body.kind = some chunk.header.type) (hwell : info.WellFormed)
    (h : Heartbeat chunk.header info trailing bytes rest) :
    decode.run bytes = .ok (chunk, rest) := by
  obtain @⟨content, padding, _, rfl, hlength, hpadding⟩ := h
  have hleast : (ChunkBody.layout chunk.header.type).least ≤ chunk.header.length.toNat := by
    rw [ChunkBody.least_of_heartbeat hinfo hkind, hlength]
    simp [ChunkHeader.size, ParameterHeader.size]
    omega
  have hrun := HeartbeatInfo.reads_encode hwell trailing
  rw [List.append_assoc] at hrun
  have hbody := (ChunkBody.heartbeat_value_iff hinfo).mpr ⟨hkind, hrun⟩
  rw [decode_of_whole rest hleast (Nat.eq_sub_of_add_eq' hlength.symm) hpadding, hbody]
  rfl

theorem Heartbeat.filledBy_iff (h : Heartbeat header info trailing bytes rest)
    (hwell : info.WellFormed) :
    FilledBy header info ↔ trailing.length ≤ info.paddingLength := by
  obtain ⟨_, rfl, hlength, _⟩ := h
  simp only [List.length_append, ParameterHeader.length_encode] at hlength
  have hinfo := hwell.length
  have hle := le_align4 info.header.length.toNat
  unfold HeartbeatInfo.paddingLength
  constructor
  · rintro ⟨_, houtside, _⟩
    omega
  · intro htrailing
    constructor
    · omega
    · omega
    · omega

/-- A heartbeat decodes just where a well-formed parameter opens the body, whatever the body has behind
it, so that the parameter fills the body only if there are no more bytes behind it than padding. -/
theorem decode_heartbeat_iff (hinfo : chunk.body.heartbeatInfo = some info) :
    (decode.run bytes = .ok (chunk, rest) ↔
      chunk.body.kind = some chunk.header.type ∧ info.WellFormed ∧
        ∃ trailing, Heartbeat chunk.header info trailing bytes rest) ∧
    (decode.run bytes = .ok (chunk, rest) →
      ∀ trailing, Heartbeat chunk.header info trailing bytes rest →
        (FilledBy chunk.header info ↔ trailing.length ≤ info.paddingLength)) := by
  constructor
  · constructor
    · exact heartbeat_of_decode hinfo
    · rintro ⟨hkind, hwell, trailing, h⟩
      exact decode_of_heartbeat hinfo hkind hwell h
  · intro hrun trailing h
    obtain ⟨_, hwell, _⟩ := heartbeat_of_decode hinfo hrun
    exact h.filledBy_iff hwell

def paddedInfoBytes : Bytes := [4, 0, 0, 12, 0, 1, 0, 6, 0xca, 0xfe, 0, 0]

theorem decode_heartbeat_iff_paddedInfo :
    let info : HeartbeatInfo := ⟨⟨.heartbeatInfo, 6⟩, [0xca, 0xfe]⟩
    let chunk : Chunk := ⟨⟨.heartbeat, 0, 12⟩, .heartbeat info⟩
    decode.run paddedInfoBytes = .ok (chunk, []) ∧
      Heartbeat chunk.header info [0, 0] paddedInfoBytes [] ∧ FilledBy chunk.header info := by
  intro info chunk
  have hinfo : chunk.body.heartbeatInfo = some info := rfl
  have hbytes : chunk.header.encode ++ (paddedInfoBytes.drop 4 ++ ([] ++ [])) = paddedInfoBytes := by
    decide
  have h : Heartbeat chunk.header info [0, 0] paddedInfoBytes [] := by
    rw [← hbytes]
    exact .padded [] (by decide) (by decide) (by decide)
  obtain ⟨hiff, hfilled⟩ := @decode_heartbeat_iff chunk info paddedInfoBytes [] hinfo
  have hrun := hiff.mpr ⟨rfl, ⟨rfl, rfl⟩, _, h⟩
  exact ⟨hrun, h, (hfilled hrun _ h).mpr (by decide)⟩

/-- A second parameter behind the first one. -/
def twoInfoBytes : Bytes := [4, 0, 0, 16, 0, 1, 0, 8, 0xde, 0xad, 0xbe, 0xef, 0, 5, 0, 4]

theorem decode_twoInfoBytes :
    let info : HeartbeatInfo := ⟨⟨.heartbeatInfo, 8⟩, [0xde, 0xad, 0xbe, 0xef]⟩
    let header : ChunkHeader := ⟨.heartbeat, 0, 16⟩
    decode.run twoInfoBytes = .ok (⟨header, .heartbeat info⟩, []) ∧ ¬ FilledBy header info :=
  ⟨rfl, fun hfilled => absurd hfilled.outside (by decide)⟩

end Chunk
end PacketCapture.Sctp
