import PacketCapture.Proofs.Sctp.Framing
import PacketCapture.Proofs.Wire.Span

/-! # User data of segments

The user data of a DATA chunk stand behind its headers, as many bytes as it declares. In a segment
they stand one behind another and apart, since chunk headers are between them: neither padding nor
other chunks add to the data of the segment.
-/
namespace PacketCapture.Sctp
open Decoder

namespace Payload

/-- The size of all that is in front of the user data of a DATA chunk. -/
def offset : Nat := 16

def encodeFields (payload : Payload) : Bytes :=
  let order := ByteOrder.bigEndian
  order.bytes32 payload.tsn ++ (order.bytes16 payload.streamIdentifier ++
    (order.bytes16 payload.streamSequenceNumber ++ order.bytes32 payload.payloadProtocolIdentifier))

@[simp] theorem length_encodeFields (payload : Payload) :
    ChunkHeader.size + payload.encodeFields.length = offset := by
  simp [encodeFields, offset, ChunkHeader.size]

theorem encode_eq (payload : Payload) : payload.encode = payload.encodeFields ++ payload.data := by
  simp only [encode, encodeFields, List.append_assoc]

end Payload

namespace Chunk

def isData (chunk : Chunk) : Bool :=
  match chunk.body with
  | .data _ => true
  | _ => false

/-- The user data of a chunk are the bytes that stand there, as many as its length declares. -/
structure DataAt (bytes : Bytes) (chunk : Chunk) (span : Span) : Prop where
  size : span.size = chunk.header.length.toNat - Payload.offset
  inside : span.stop ≤ bytes.length
  cut : span.cut bytes = chunk.userData

/-- Each DATA chunk has its user data in its own stretch, and the stretches are in the order of the
chunks and apart from each other. -/
structure AllDataAt (bytes : Bytes) (chunks : List Chunk) (spans : List Span) : Prop where
  each : List.Forall₂ (DataAt bytes) (chunks.filter isData) spans
  ordered : spans.Pairwise fun a b => a.stop < b.start

variable {chunk : Chunk} {chunks : List Chunk} {bytes rest : Bytes} {span : Span}
  {spans : List Span}

theorem DataAt.shift (before after : Bytes) (h : chunk.DataAt bytes span) :
    chunk.DataAt (before ++ (bytes ++ after)) (span.shift before.length) := by
  constructor
  · exact h.size
  · have hinside := h.inside
    simp only [Span.stop_shift, List.length_append]
    omega
  · rw [Span.cut_shift before after h.inside, h.cut]

theorem DataAt.append (after : Bytes) (h : chunk.DataAt bytes span) :
    chunk.DataAt (bytes ++ after) span := by
  simpa using h.shift [] after

theorem AllDataAt.shift (before after : Bytes) (h : AllDataAt bytes chunks spans) :
    AllDataAt (before ++ (bytes ++ after)) chunks (spans.map (Span.shift before.length)) := by
  constructor
  · rw [List.forall₂_map_right_iff]
    exact h.each.imp fun _ _ hat => hat.shift before after
  · rw [List.pairwise_map]
    refine h.ordered.imp fun hlt => ?_
    simp only [Span.stop_shift, Span.start_shift]
    omega

theorem AllDataAt.behind (before : Bytes) (h : AllDataAt bytes chunks spans) :
    AllDataAt (before ++ bytes) chunks (spans.map (Span.shift before.length)) := by
  simpa using h.shift before []

theorem AllDataAt.cons_other (hdata : chunk.isData = false) (h : AllDataAt bytes chunks spans) :
    AllDataAt bytes (chunk :: chunks) spans := by
  constructor
  · rw [List.filter_cons_of_neg (by simp [hdata])]
    exact h.each
  · exact h.ordered

theorem AllDataAt.cons_data (hdata : chunk.isData = true) (hat : chunk.DataAt bytes span)
    (h : AllDataAt bytes chunks spans) (hapart : ∀ later ∈ spans, span.stop < later.start) :
    AllDataAt bytes (chunk :: chunks) (span :: spans) := by
  constructor
  · rw [List.filter_cons_of_pos hdata]
    exact .cons hat h.each
  · exact List.pairwise_cons.mpr ⟨hapart, h.ordered⟩

theorem userData_of_not_isData (h : chunk.isData = false) : chunk.userData = [] := by
  unfold isData at h
  unfold userData
  cases hbody : chunk.body with
  | data payload => simp [hbody] at h
  | _ => rfl

theorem flatMap_userData_filter (chunks : List Chunk) :
    (chunks.filter isData).flatMap userData = chunks.flatMap userData := by
  induction chunks with
  | nil => rfl
  | cons chunk chunks ih =>
    cases hdata : chunk.isData with
    | true => simp [hdata, ih]
    | false => simp [hdata, userData_of_not_isData hdata, ih]

theorem AllDataAt.flatMap_cut (h : AllDataAt bytes chunks spans) :
    chunks.flatMap userData = spans.flatMap fun span => span.cut bytes := by
  have heach := h.each
  clear h
  rw [← flatMap_userData_filter]
  generalize chunks.filter isData = dataChunks at heach
  induction heach with
  | nil => rfl
  | cons hat _ ih => simp [hat.cut, ih]

theorem payload_of_layout {type : ChunkType} {content left : Bytes} {payload : Payload}
    (h : (ChunkBody.layout type).value.run content = .ok (.data payload, left)) :
    content = payload.encode := by
  cases type using ChunkType.byLayout with
  | data =>
    obtain ⟨found, hrun, hbody⟩ := map_eq_ok h
    cases hbody
    exact (Payload.decode_eq_ok hrun).1
  | shutdownAck | cookieAck | shutdownComplete => cases h
  | other type hother =>
    rw [ChunkBody.layout_of_unknown hother] at h
    obtain ⟨_, _, hbody⟩ := map_eq_ok h
    cases hbody
  | _ =>
    obtain ⟨_, _, hbody⟩ := map_eq_ok h
    cases hbody

theorem dataAt_of_decode (h : decode.run bytes = .ok (chunk, rest)) (hdata : chunk.isData = true) :
    ∃ front, bytes = front ++ rest ∧ front.length = chunk.header.alignedLength ∧
      chunk.DataAt front ⟨Payload.offset, chunk.header.length.toNat - Payload.offset⟩ := by
  obtain ⟨content, padding, left, hleast, rfl, hcontent, hpadding, hbody⟩ := decode_eq_ok h
  obtain ⟨payload, hpayload⟩ : ∃ payload, chunk.body = .data payload := by
    unfold isData at hdata
    split at hdata
    · exact ⟨_, ‹_›⟩
    · cases hdata
  rw [hpayload] at hbody
  obtain rfl := payload_of_layout hbody
  have hoffset := payload.length_encodeFields
  have hroom := ChunkBody.size_le hleast
  have hle := chunk.header.length_le_alignedLength
  rw [payload.encode_eq, List.length_append] at hcontent
  have hfront : (chunk.header.encode ++ payload.encodeFields).length = Payload.offset := by
    rw [List.length_append, ChunkHeader.length_encode, hoffset]
  have hdataLen : payload.data.length = chunk.header.length.toNat - Payload.offset := by omega
  have hbytes : chunk.header.encode ++ (payload.encode ++ (padding ++ rest)) =
      chunk.header.encode ++ payload.encodeFields ++ (payload.data ++ padding) ++ rest := by
    rw [payload.encode_eq]
    simp only [List.append_assoc]
  refine ⟨_, hbytes, ?_, rfl, ?_, ?_⟩
  · simp only [List.length_append] at hfront ⊢
    omega
  · simp only [Span.stop, List.length_append] at hfront ⊢
    omega
  · rw [Span.cut_of_append padding hfront hdataLen, userData, hpayload]

/-- The user data of chunks that tile a byte string stand in it in order, each behind the headers of
its chunk. -/
theorem allDataAt_of_tiles (h : decode.Tiles bytes chunks) :
    ∃ spans, AllDataAt bytes chunks spans ∧ ∀ span ∈ spans, Payload.offset ≤ span.start := by
  induction h with
  | nil => exact ⟨[], ⟨.nil, .nil⟩, nofun⟩
  | @cons bytes rest chunk chunks hrun _ _ ih =>
    obtain ⟨spans, hspans, hbehind⟩ := ih
    have hlater : ∀ front : Bytes, ∀ span ∈ spans.map (Span.shift front.length),
        front.length + Payload.offset ≤ span.start := by
      intro front span hmem
      obtain ⟨span, hspan, rfl⟩ := List.mem_map.mp hmem
      exact Nat.add_le_add_left (hbehind span hspan) _
    cases hdata : chunk.isData with
    | false =>
      obtain ⟨front, rfl, _⟩ := front_of_decode hrun
      refine ⟨_, (hspans.behind front).cons_other hdata, ?_⟩
      intro span hmem
      exact Nat.le_of_add_left_le (hlater front span hmem)
    | true =>
      obtain ⟨front, rfl, _, hat⟩ := dataAt_of_decode hrun hdata
      refine ⟨_, (hspans.behind front).cons_data hdata (hat.append rest) ?_, ?_⟩
      · intro span hmem
        have hinside := hat.inside
        have hstart := hlater front span hmem
        unfold Payload.offset at hstart
        omega
      · intro span hmem
        rcases List.mem_cons.mp hmem with rfl | hmem
        · exact Nat.le_refl _
        · exact Nat.le_of_add_left_le (hlater front span hmem)

end Chunk

theorem Segment.allDataAt_of_decode {segment : Segment} {bytes rest : Bytes}
    (h : decode.run bytes = .ok (segment, rest)) :
    ∃ spans, Chunk.AllDataAt bytes segment.chunks spans := by
  obtain ⟨chunks, rfl, hchunks⟩ := decode_eq_ok h
  obtain ⟨htiles, _⟩ := Chunk.tiles_decode_of_decodeAll hchunks
  obtain ⟨spans, hspans, _⟩ := Chunk.allDataAt_of_tiles htiles
  exact ⟨_, hspans.behind segment.encodeFields⟩

end PacketCapture.Sctp
