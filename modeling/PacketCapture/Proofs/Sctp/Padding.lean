import PacketCapture.Proofs.Sctp.Concatenation
import PacketCapture.Proofs.Sctp.Grammar
import PacketCapture.Proofs.Wire.EqualExcept

/-! # Padding

Chunks are padded to four bytes, and in some bodies so are the parameters, the last one as far as the
body goes. Where the padding stands follows from the declared lengths. Nothing that is decoded depends
on the bytes there.
-/
namespace PacketCapture.Sctp
open Decoder

namespace Parameter

/-- The position lies behind the declared length of a parameter and before the next multiple of four,
the parameters lying one after another. It may be beyond the end, where the last one lacks padding. -/
inductive PaddingAt : Bytes → Nat → Prop
  | behind (raw : RawParameter) (more : Bytes) {k : Nat} : raw.length ≤ k →
      k < raw.length + raw.paddingLength → PaddingAt (raw.bytes ++ more) k
  | later (raw : RawParameter) (more : Bytes) {k : Nat} :
      PaddingAt (more.drop raw.paddingLength) k →
      PaddingAt (raw.bytes ++ more) (raw.length + (raw.paddingLength + k))

theorem PaddingAt.of_append {raw : RawParameter} {more : Bytes} {k : Nat}
    (h : PaddingAt (raw.bytes ++ more) k) :
    (raw.length ≤ k ∧ k < raw.length + raw.paddingLength) ∨
      ∃ j, k = raw.length + (raw.paddingLength + j) ∧
        PaddingAt (more.drop raw.paddingLength) j := by
  generalize hbytes : raw.bytes ++ more = bytes at h
  cases h with
  | behind other left hle hlt =>
    obtain ⟨rfl, rfl⟩ := RawParameter.eq_of_bytes_append hbytes
    exact .inl ⟨hle, hlt⟩
  | @later other left j hj =>
    obtain ⟨rfl, rfl⟩ := RawParameter.eq_of_bytes_append hbytes
    exact .inr ⟨j, rfl, hj⟩

variable {d : Decoder Parameter} {bytes other rest : Bytes} {parameter : Parameter}

theorem decodePadded_of_padding_differs (h : EqualExcept (PaddingAt bytes) bytes other)
    (hrun : (decodePadded d).run bytes = .ok (parameter, rest)) :
    ∃ left, (decodePadded d).run other = .ok (parameter, left) ∧
      EqualExcept (PaddingAt rest) rest left := by
  obtain ⟨raw, more, rfl, hgives, rfl⟩ := whole_of_decodePadded hrun
  obtain ⟨more', rfl, hmore⟩ := h.behind fun k hk hpadding => by
    rw [RawParameter.length_bytes] at hk
    rcases hpadding.of_append with ⟨hle, _⟩ | ⟨j, rfl, _⟩
    · omega
    · omega
  refine ⟨_, decodePadded_of_gives hgives more', (hmore.drop raw.paddingLength).mono ?_⟩
  intro k _ hpadding
  rw [RawParameter.length_bytes] at hpadding
  rcases hpadding.of_append with ⟨_, hlt⟩ | ⟨j, hj, hlater⟩
  · omega
  · obtain rfl : k = j := by omega
    exact hlater

theorem decodeAll_of_padding_differs {parameters : List Parameter}
    (h : EqualExcept (PaddingAt bytes) bytes other)
    (hrun : (decodeAll d).run bytes = .ok (parameters, rest)) :
    (decodeAll d).run other = .ok (parameters, rest) :=
  many_of_related (R := fun bytes other => EqualExcept (PaddingAt bytes) bytes other)
    (advances_decodePadded d) EqualExcept.eq_nil decodePadded_of_padding_differs hrun h

end Parameter

namespace ChunkBody
variable {type : ChunkType} {content other left : Bytes} {body : ChunkBody}

/-- The position is in the padding of a parameter, if the body has a list of parameters. -/
def PaddingAt (content : Bytes) (k : Nat) : ChunkType → Prop
  | .init | .initAck => ∃ j, k = 16 + j ∧ Parameter.PaddingAt (content.drop 16) j
  | .error => Parameter.PaddingAt content k
  | _ => False

theorem not_paddingAt_of_unknown (h : type ∉ decodedTypes) (k : Nat) :
    ¬ PaddingAt content k type := by
  unfold PaddingAt
  split
  · exact absurd (by decide) h
  · exact absurd (by decide) h
  · exact absurd (by decide) h
  · exact id

theorem initiation_of_padding_differs {initiation : Initiation}
    (h : EqualExcept (fun k => ∃ j, k = 16 + j ∧ Parameter.PaddingAt (content.drop 16) j) content
      other)
    (hrun : Initiation.decode.run content = .ok (initiation, left)) :
    Initiation.decode.run other = .ok (initiation, left) := by
  obtain ⟨parameters, rfl, hparameters⟩ := Initiation.decode_eq_ok hrun
  obtain ⟨parameters', rfl, hsame⟩ := h.behind fun k hk hpadding => by
    obtain ⟨j, rfl, _⟩ := hpadding
    rw [Initiation.length_encodeFields] at hk
    omega
  have hdrop : (initiation.encodeFields ++ parameters).drop 16 = parameters :=
    List.drop_left' initiation.length_encodeFields
  apply Initiation.run_decode_of_fields
  apply Parameter.decodeAll_of_padding_differs (hsame.mono _) hparameters
  intro k _ hpadding
  rw [hdrop, Initiation.length_encodeFields] at hpadding
  obtain ⟨j, hj, hpadding⟩ := hpadding
  obtain rfl := Nat.add_left_cancel hj
  exact hpadding

theorem value_of_padding_differs (h : EqualExcept (PaddingAt content · type) content other)
    (hrun : (layout type).value.run content = .ok (body, left)) :
    (layout type).value.run other = .ok (body, left) := by
  cases type using ChunkType.byLayout with
  | init | initAck =>
    obtain ⟨initiation, hinitiation, rfl⟩ := map_eq_ok hrun
    exact run_map_of_ok (initiation_of_padding_differs h hinitiation) _
  | error =>
    obtain ⟨causes, hcauses, rfl⟩ := map_eq_ok hrun
    exact run_map_of_ok (Parameter.decodeAll_of_padding_differs h hcauses) _
  | other type hother =>
    obtain rfl := h.eq fun k _ => not_paddingAt_of_unknown hother k
    exact hrun
  | _ =>
    obtain rfl := h.eq fun _ _ => id
    exact hrun

end ChunkBody

theorem ChunkHeader.eq_of_encode_append {header other : ChunkHeader} {more left : Bytes}
    (h : header.encode ++ more = other.encode ++ left) : header = other ∧ more = left := by
  have hrun := header.reads_encode more
  rw [h, other.reads_encode] at hrun
  cases hrun
  exact ⟨rfl, rfl⟩

namespace Chunk

/-- The position lies behind the declared length of a chunk and before the next multiple of four, or
in the padding of a parameter inside the body, the chunks lying one after another. -/
inductive PaddingAt : Bytes → Nat → Prop
  | behind {header : ChunkHeader} (more : Bytes) {k : Nat} : header.length.toNat ≤ k →
      k < header.alignedLength → PaddingAt (header.encode ++ more) k
  | inside {header : ChunkHeader} {content : Bytes} (more : Bytes) {k : Nat} :
      content.length = header.length.toNat - ChunkHeader.size → k < content.length →
      ChunkBody.PaddingAt content k header.type →
      PaddingAt (header.encode ++ (content ++ more)) (ChunkHeader.size + k)
  | later {header : ChunkHeader} {more rest : Bytes} {k : Nat} :
      more.length = header.alignedLength - ChunkHeader.size → PaddingAt rest k →
      PaddingAt (header.encode ++ (more ++ rest)) (header.alignedLength + k)

variable {header : ChunkHeader} {bytes other content padding rest : Bytes}

theorem PaddingAt.of_whole {k : Nat}
    (hcontent : content.length = header.length.toNat - ChunkHeader.size)
    (hpadding : padding.length = header.alignedLength - header.length.toNat)
    (hleast : ChunkHeader.size ≤ header.length.toNat)
    (h : PaddingAt (header.encode ++ (content ++ (padding ++ rest))) k) :
    (header.length.toNat ≤ k ∧ k < header.alignedLength) ∨
      (∃ j < content.length, k = ChunkHeader.size + j ∧ ChunkBody.PaddingAt content j header.type) ∨
      ∃ j, k = header.alignedLength + j ∧ PaddingAt rest j := by
  have hle := header.length_le_alignedLength
  generalize hbytes : header.encode ++ (content ++ (padding ++ rest)) = bytes at h
  cases h with
  | behind more hlow hhigh =>
    obtain ⟨rfl, rfl⟩ := ChunkHeader.eq_of_encode_append hbytes
    exact .inl ⟨hlow, hhigh⟩
  | @inside header content' more j hcontent' hlt hj =>
    obtain ⟨rfl, hmore⟩ := ChunkHeader.eq_of_encode_append hbytes
    obtain ⟨rfl, rfl⟩ := List.append_inj hmore (hcontent.trans hcontent'.symm)
    exact .inr (.inl ⟨j, hlt, rfl, hj⟩)
  | @later header more rest' j hmore hj =>
    obtain ⟨rfl, hfront⟩ := ChunkHeader.eq_of_encode_append hbytes
    rw [← List.append_assoc] at hfront
    have hlen : (content ++ padding).length = more.length := by
      rw [List.length_append]
      omega
    obtain ⟨_, rfl⟩ := List.append_inj hfront hlen
    exact .inr (.inr ⟨j, rfl, hj⟩)

variable {chunk : Chunk} {chunks : List Chunk}

theorem decode_of_padding_differs (h : EqualExcept (PaddingAt bytes) bytes other)
    (hrun : decode.run bytes = .ok (chunk, rest)) :
    ∃ left, decode.run other = .ok (chunk, left) ∧ EqualExcept (PaddingAt rest) rest left := by
  obtain ⟨content, padding, unused, hleast, rfl, hcontent, hpadding, hbody⟩ := decode_eq_ok hrun
  have hfour := ChunkBody.size_le hleast
  have hle := chunk.header.length_le_alignedLength
  have hsize := chunk.header.length_encode
  have hwhere {k : Nat}
      (hat : PaddingAt (chunk.header.encode ++ (content ++ (padding ++ rest))) k) :=
    hat.of_whole hcontent hpadding hfour
  -- header, body, padding and what is left, each against its counterpart
  obtain ⟨_, rfl, hbehind⟩ := h.behind fun k hk hat => by
    rcases hwhere hat with ⟨hlow, _⟩ | ⟨j, _, rfl, _⟩ | ⟨j, rfl, _⟩ <;> omega
  obtain ⟨content', _, rfl, hsame, hbehind⟩ := hbehind.append
  obtain ⟨padding', rest', rfl, hpad, hrest⟩ := hbehind.append
  have hvalue : (ChunkBody.layout chunk.header.type).value.run content' =
      .ok (chunk.body, unused) := by
    refine ChunkBody.value_of_padding_differs (hsame.mono ?_) hbody
    intro k hk hat
    rcases hwhere hat with ⟨hlow, _⟩ | ⟨j, _, hj, hinside⟩ | ⟨j, hj, _⟩
    · omega
    · obtain rfl : k = j := by omega
      exact hinside
    · omega
  refine ⟨rest', ?_, hrest.mono ?_⟩
  · rw [decode_of_whole rest' hleast (hsame.length_eq.trans hcontent)
      (hpad.length_eq.trans hpadding), hvalue]
    rfl
  · intro k _ hat
    rcases hwhere hat with ⟨_, hhigh⟩ | ⟨j, hlt, hj, _⟩ | ⟨j, hj, hlater⟩
    · omega
    · omega
    · obtain rfl : k = j := by omega
      exact hlater

theorem run_decodeAll_of_padding_differs (h : EqualExcept (PaddingAt bytes) bytes other)
    (hrun : decodeAll.run bytes = .ok (chunks, rest)) : decodeAll.run other = .ok (chunks, rest) := by
  rw [decodeAll_eq_many_decode] at hrun ⊢
  exact many_of_related (R := fun bytes other => EqualExcept (PaddingAt bytes) bytes other)
    advances_decode EqualExcept.eq_nil decode_of_padding_differs hrun h

/-- Chunks decode to the same from byte strings that differ in their padding only, and so do the
segments, and their data, whatever common header stands in front. -/
theorem decodeAll_any_padding (hrun : decodeAll.run bytes = .ok (chunks, rest))
    (h : EqualExcept (PaddingAt bytes) bytes other) :
    decodeAll.run other = .ok (chunks, rest) ∧
      ∀ fields : Bytes, fields.length = Segment.headerSize → ∃ segment,
        segment.chunks = chunks ∧
          Segment.decode.run (fields ++ bytes) = .ok (segment, []) ∧
          Segment.decode.run (fields ++ other) = .ok (segment, []) := by
  have hother := run_decodeAll_of_padding_differs h hrun
  obtain ⟨_, rfl⟩ := tiles_of_decodeAll hrun
  refine ⟨hother, ?_⟩
  intro fields hfields
  obtain ⟨common, rfl⟩ := Segment.exists_encodeFields hfields
  refine ⟨{ common with chunks }, rfl, ?_, ?_⟩
  · rw [Segment.run_decode_of_fields, hrun]
    rfl
  · rw [Segment.run_decode_of_fields, hother]
    rfl

/-- Other padding behind the second parameter, and behind the last one, where the chunk ends. -/
def repaddedBytes : Bytes := ((openingBytes.set 35 0x11).set 41 0).set 43 0xff

theorem equalExcept_repaddedBytes :
    EqualExcept (PaddingAt openingBytes) openingBytes repaddedBytes := by
  let address : RawParameter := ⟨.ipv4Sender, [10, 0, 0, 1], by decide⟩
  let second : RawParameter := ⟨⟨0x8008⟩, [1, 2, 3], by decide⟩
  have hfirst : address.bytes ++ openingParameters.drop 8 = openingParameters := by decide
  have hnext : second.bytes ++ openingParameters.drop 15 =
      (openingParameters.drop 8).drop address.paddingLength := by decide
  have hbehind : Parameter.PaddingAt (second.bytes ++ openingParameters.drop 15) 7 :=
    .behind second _ (by decide) (by decide)
  have hplace : address.length + (address.paddingLength + 7) = 15 := by decide
  have hsecond : Parameter.PaddingAt openingParameters 15 := by
    rw [← hfirst, ← hplace]
    exact .later address _ (hnext ▸ hbehind)
  have hinside : ChunkBody.PaddingAt openingBody 31 .init := ⟨15, rfl, hsecond⟩
  have hparameter : PaddingAt openingBytes 35 :=
    @PaddingAt.inside openingChunk.header openingBody [0xaa, 0xbb, 0xcc] 31 rfl (by decide) hinside
  have hchunk {k : Nat} (hlow : 41 ≤ k) (hhigh : k < 44) : PaddingAt openingBytes k :=
    @PaddingAt.behind openingChunk.header (openingBytes.drop 4) k hlow hhigh
  exact (((EqualExcept.refl _ _).set hparameter _).set (hchunk (by decide) (by decide)) _).set
    (hchunk (by decide) (by decide)) _

theorem decodeAll_any_padding_repadded :
    repaddedBytes ≠ openingBytes ∧ EqualExcept (PaddingAt openingBytes) openingBytes repaddedBytes ∧
      decodeAll.run openingBytes = .ok ([openingChunk], []) ∧
      decodeAll.run repaddedBytes = .ok ([openingChunk], []) ∧ ∃ segment,
        Segment.decode.run (List.replicate 12 0 ++ openingBytes) = .ok (segment, []) ∧
        Segment.decode.run (List.replicate 12 0 ++ repaddedBytes) = .ok (segment, []) := by
  have hrun : decodeAll.run openingBytes = .ok ([openingChunk], []) := rfl
  obtain ⟨hother, hsegments⟩ := decodeAll_any_padding hrun equalExcept_repaddedBytes
  obtain ⟨segment, _, hsegment, hrepadded⟩ := hsegments (List.replicate 12 0) rfl
  exact ⟨by decide, equalExcept_repaddedBytes, hrun, hother, segment, hsegment, hrepadded⟩

end Chunk
end PacketCapture.Sctp
