import PacketCapture.Proofs.Sctp.Taken

/-! # Chunks one after another

A chunk is bounded by its aligned length before its body is decoded, so that nothing it holds
depends on the bytes that follow. Bounding it once more from outside changes neither the chunk nor
the error: chunks are decoded one by one on what is left, and their aligned lengths tile the bytes.
-/
namespace PacketCapture.Sctp
open Decoder

theorem ChunkBody.size_le_least (type : ChunkType) : ChunkHeader.size ≤ (layout type).least := by
  unfold layout
  split <;> decide

theorem ChunkBody.size_le {type : ChunkType} {n : Nat} (hleast : (layout type).least ≤ n) :
    ChunkHeader.size ≤ n := Nat.le_trans (size_le_least type) hleast

namespace Chunk

/-- A byte string has less than a chunk header, or a header that declares too little for its type or
more than there is, or a whole chunk in front. -/
inductive Framing : Bytes → Prop
  | headless {bytes : Bytes} : bytes.length < ChunkHeader.size → Framing bytes
  | undersized {header : ChunkHeader} (more : Bytes) :
      header.length.toNat < (ChunkBody.layout header.type).least → Framing (header.encode ++ more)
  | cut {header : ChunkHeader} {more : Bytes} :
      (ChunkBody.layout header.type).least ≤ header.length.toNat →
      more.length < header.alignedLength - ChunkHeader.size → Framing (header.encode ++ more)
  | whole {header : ChunkHeader} {content padding : Bytes} (rest : Bytes) :
      (ChunkBody.layout header.type).least ≤ header.length.toNat →
      content.length = header.length.toNat - ChunkHeader.size →
      padding.length = header.alignedLength - header.length.toNat →
      Framing (header.encode ++ (content ++ (padding ++ rest)))

theorem exists_whole {header : ChunkHeader} {more : Bytes}
    (hleast : (ChunkBody.layout header.type).least ≤ header.length.toNat)
    (h : header.alignedLength - ChunkHeader.size ≤ more.length) : ∃ content padding rest,
      more = content ++ (padding ++ rest) ∧
        content.length = header.length.toNat - ChunkHeader.size ∧
        padding.length = header.alignedLength - header.length.toNat := by
  have hle := header.length_le_alignedLength
  have hfour := ChunkBody.size_le_least header.type
  let size := header.length.toNat - ChunkHeader.size
  refine ⟨more.take size, (more.drop size).take (header.alignedLength - header.length.toNat),
    (more.drop size).drop (header.alignedLength - header.length.toNat), ?_, ?_, ?_⟩
  · rw [List.take_append_drop, List.take_append_drop]
  · exact List.length_take_of_le (by omega)
  · apply List.length_take_of_le
    rw [List.length_drop]
    omega

theorem framing (bytes : Bytes) : Framing bytes := by
  by_cases hsize : bytes.length < ChunkHeader.size
  · exact .headless hsize
  · obtain ⟨header, more, rfl⟩ := ChunkHeader.exists_encode (Nat.le_of_not_lt hsize)
    by_cases hleast : header.length.toNat < (ChunkBody.layout header.type).least
    · exact .undersized more hleast
    · by_cases hcut : more.length < header.alignedLength - ChunkHeader.size
      · exact .cut (Nat.le_of_not_lt hleast) hcut
      · obtain ⟨content, padding, rest, rfl, hcontent, hpadding⟩ :=
          exists_whole (Nat.le_of_not_lt hleast) (Nat.le_of_not_lt hcut)
        exact .whole rest (Nat.le_of_not_lt hleast) hcontent hpadding

variable {header : ChunkHeader} {bytes more content padding rest : Bytes}

theorem decode_of_headless (h : bytes.length < ChunkHeader.size) :
    decode.run bytes = .error .insufficientLength :=
  run_bind_of_error (ChunkHeader.fixed_decode.short bytes h)

theorem decode_of_undersized (more : Bytes)
    (h : header.length.toNat < (ChunkBody.layout header.type).least) :
    decode.run (header.encode ++ more) = .error .insufficientLength := by
  rw [decode, header.reads_encode.run_bind]
  simp only [if_pos h]
  rfl

theorem decode_of_cut (hleast : (ChunkBody.layout header.type).least ≤ header.length.toNat)
    (h : more.length < header.alignedLength - ChunkHeader.size) :
    decode.run (header.encode ++ more) = .error .insufficientLength := by
  rw [decode, header.reads_encode.run_bind]
  simp only [if_neg (Nat.not_lt.mpr hleast)]
  by_cases hbody : more.length < header.length.toNat - ChunkHeader.size
  · exact run_bind_of_error (run_take_of_lt hbody)
  · have hcontent := List.length_take_of_le (Nat.le_of_not_lt hbody)
    rw [← List.take_append_drop (header.length.toNat - ChunkHeader.size) more,
      (reads_take hcontent).run_bind]
    refine run_bind_of_error (run_take_of_lt ?_)
    rw [List.length_drop]
    omega

/-- A whole chunk decodes as the content of its body does, whatever follows and whatever the body
leaves. -/
theorem decode_of_whole (rest : Bytes)
    (hleast : (ChunkBody.layout header.type).least ≤ header.length.toNat)
    (hcontent : content.length = header.length.toNat - ChunkHeader.size)
    (hpadding : padding.length = header.alignedLength - header.length.toNat) :
    decode.run (header.encode ++ (content ++ (padding ++ rest))) =
      ((ChunkBody.layout header.type).value.run content).map fun found =>
        (⟨header, found.1⟩, rest) := by
  rw [decode, header.reads_encode.run_bind]
  simp only [if_neg (Nat.not_lt.mpr hleast)]
  rw [(reads_take hcontent).run_bind, (reads_take hpadding).run_bind]
  cases hbody : (ChunkBody.layout header.type).value.run content with
  | error error => exact run_bind_of_error (run_on_of_error hbody rest)
  | ok found => exact (reads_on hbody).bind_pure rest

theorem decodeBounded_of_encode (more : Bytes) : decodeBounded.run (header.encode ++ more) =
    if header.length.toNat < ChunkHeader.size then .error .insufficientLength
    else (decode.within header.alignedLength).run (header.encode ++ more) := by
  have hheader := run_peek_of_ok (header.reads_encode more)
  rw [decodeBounded, run_bind_of_ok hheader]
  by_cases h : header.length.toNat < ChunkHeader.size
  · simp only [if_pos h]
    rfl
  · simp only [if_neg h]

/-- A chunk that is bounded from outside decodes as it does in front of all the bytes that follow.
-/
theorem decodeBounded_eq_decode : decodeBounded = decode := by
  funext bytes
  change decodeBounded.run bytes = decode.run bytes
  cases framing bytes with
  | headless hsize =>
    have hheader := ChunkHeader.fixed_decode.short bytes hsize
    rw [decode_of_headless hsize]
    exact run_bind_of_error (run_peek_of_error hheader)
  | @undersized header more hshort =>
    rw [decode_of_undersized more hshort, decodeBounded_of_encode]
    by_cases hfour : header.length.toNat < ChunkHeader.size
    · rw [if_pos hfour]
    · have hle := header.length_le_alignedLength
      rw [if_neg hfour]
      by_cases hcut : (header.encode ++ more).length < header.alignedLength
      · exact run_within_of_lt hcut
      · rw [List.length_append, ChunkHeader.length_encode] at hcut
        have hstretch : (header.encode ++
            more.take (header.alignedLength - ChunkHeader.size)).length = header.alignedLength := by
          rw [List.length_append, ChunkHeader.length_encode, List.length_take]
          omega
        have hwithin := run_within_of_error hstretch (decode_of_undersized _ hshort)
          (more.drop (header.alignedLength - ChunkHeader.size))
        rwa [List.append_assoc, List.take_append_drop] at hwithin
  | @cut header more hleast hcut =>
    have hfour := ChunkBody.size_le hleast
    rw [decode_of_cut hleast hcut, decodeBounded_of_encode, if_neg (Nat.not_lt.mpr hfour)]
    refine run_within_of_lt ?_
    rw [List.length_append, ChunkHeader.length_encode]
    omega
  | @whole header content padding rest hleast hcontent hpadding =>
    have hfour := ChunkBody.size_le hleast
    have hstretch := ChunkHeader.length_whole hfour hcontent hpadding
    have halone := decode_of_whole [] hleast hcontent hpadding
    have hsplit : header.encode ++ (content ++ (padding ++ rest)) =
        header.encode ++ (content ++ padding) ++ rest := by
      simp only [List.append_assoc]
    rw [List.append_nil] at halone
    rw [decode_of_whole rest hleast hcontent hpadding, decodeBounded_of_encode,
      if_neg (Nat.not_lt.mpr hfour), hsplit]
    cases hbody : (ChunkBody.layout header.type).value.run content with
    | error error =>
      rw [hbody] at halone
      exact run_within_of_error hstretch halone rest
    | ok found =>
      rw [hbody] at halone
      exact reads_within hstretch halone rest

theorem decodeAll_eq_many_decode : decodeAll = decode.many :=
  congrArg Decoder.many decodeBounded_eq_decode

variable {chunk : Chunk} {chunks before after : List Chunk}

theorem front_of_decode (h : decode.run bytes = .ok (chunk, rest)) :
    ∃ front, bytes = front ++ rest ∧ front.length = chunk.header.alignedLength ∧
      ChunkHeader.size ≤ front.length ∧ chunk.header.encode <+: front := by
  obtain ⟨content, padding, left, hleast, rfl, hcontent, hpadding, _⟩ := decode_eq_ok h
  have hfour := ChunkBody.size_le hleast
  have hle := chunk.header.length_le_alignedLength
  have hlen := ChunkHeader.length_whole hfour hcontent hpadding
  refine ⟨chunk.header.encode ++ (content ++ padding), ?_, hlen, ?_, List.prefix_append _ _⟩
  · simp only [List.append_assoc]
  · rw [hlen]
    omega

theorem advances_decode : decode.Advances := by
  intro bytes rest chunk h
  obtain ⟨front, rfl, _, hsize, _⟩ := front_of_decode h
  rw [List.length_append]
  unfold ChunkHeader.size at hsize
  omega

theorem delimited_decode : decode.Delimited := by
  refine ChunkHeader.fixed_decode.delimited.bind fun header => Delimited.guard ?_
  refine (fixed_take _).delimited.bind fun content => ?_
  refine (fixed_take _).delimited.bind fun padding => ?_
  have hbody := delimited_on (ChunkBody.layout header.type).value content
  exact hbody.bind fun body => delimited_pure _

/-- Decodes one chunk after another, each in front of all the bytes that are left. -/
def decodeEach (bytes : Bytes) : Except DecodeError (List Chunk) :=
  if bytes = [] then .ok []
  else match _h : decode.run bytes with
    | .error error => .error error
    | .ok (chunk, rest) => (decodeEach rest).map (chunk :: ·)
termination_by bytes.length
decreasing_by exact advances_decode _h

theorem run_decodeAll (bytes : Bytes) :
    decodeAll.run bytes = (decodeEach bytes).map fun chunks => (chunks, []) := by
  rw [decodeAll_eq_many_decode]
  fun_induction decodeEach bytes with
  | case1 => exact run_many_nil
  | case2 bytes hne error hrun => exact run_many_of_error hne hrun
  | case3 bytes hne chunk rest hrun ih =>
    rw [run_many_of_ok advances_decode hrun, ih]
    cases decodeEach rest with
    | error error => rfl
    | ok chunks => rfl

theorem tiles_decode_of_decodeAll (h : decodeAll.run bytes = .ok (chunks, rest)) :
    decode.Tiles bytes chunks ∧ rest = [] := by
  have htiles := tiles_of_decodeAll h
  rwa [decodeBounded_eq_decode] at htiles

def totalLength : List Chunk → Nat
  | [] => 0
  | chunk :: chunks => chunk.header.alignedLength + totalLength chunks

theorem totalLength_of_tiles (h : decode.Tiles bytes chunks) :
    totalLength chunks = bytes.length ∧ ChunkHeader.size * chunks.length ≤ bytes.length := by
  induction h with
  | nil => exact ⟨rfl, Nat.le_refl _⟩
  | cons hrun _ _ ih =>
    obtain ⟨front, rfl, hlen, hsize, _⟩ := front_of_decode hrun
    obtain ⟨hsum, hcount⟩ := ih
    simp only [totalLength, List.length_append, List.length_cons] at hsum ⊢
    constructor
    · omega
    · rw [Nat.mul_succ]
      omega

theorem header_at_of_tiles (h : decode.Tiles bytes (before ++ chunk :: after)) :
    chunk.header.encode <+: bytes.drop (totalLength before) := by
  induction before generalizing bytes with
  | nil =>
    obtain _ | ⟨hrun, _, _⟩ := h
    obtain ⟨front, rfl, _, _, hheader⟩ := front_of_decode hrun
    exact hheader.trans (List.prefix_append _ _)
  | cons first before ih =>
    obtain _ | ⟨hrun, _, hrest⟩ := h
    obtain ⟨front, rfl, hlen, _, _⟩ := front_of_decode hrun
    have hfirst : totalLength (first :: before) = front.length + totalLength before := by
      rw [hlen]
      rfl
    rw [hfirst, ← List.drop_drop, List.drop_left]
    exact ih hrest

/-- Chunks bounded by their aligned lengths are those decoded one by one on all that is left, with
the same errors. They tile the bytes: their aligned lengths add up to the whole, and each header
stands where the chunks before it end. -/
theorem decodeAll_eq_decodeEach (bytes : Bytes) :
    decodeAll.run bytes = (decodeEach bytes).map (fun chunks => (chunks, [])) ∧
      ∀ chunks rest, decodeAll.run bytes = .ok (chunks, rest) →
        rest = [] ∧ totalLength chunks = bytes.length ∧ 4 * chunks.length ≤ bytes.length ∧
          ∀ before chunk after, chunks = before ++ chunk :: after →
            chunk.header.encode <+: bytes.drop (totalLength before) := by
  refine ⟨run_decodeAll bytes, ?_⟩
  intro chunks rest h
  obtain ⟨htiles, hrest⟩ := tiles_decode_of_decodeAll h
  obtain ⟨hsum, hcount⟩ := totalLength_of_tiles htiles
  refine ⟨hrest, hsum, hcount, ?_⟩
  rintro before chunk after rfl
  exact header_at_of_tiles htiles

/-- A cookie of one byte with three bytes of padding, and its acknowledgement. -/
def cookieBytes : Bytes := [10, 0, 0, 5, 0xaa, 1, 2, 3, 11, 0, 0, 4]

theorem decodeAll_eq_decodeEach_cookie :
    let cookie : Chunk := ⟨⟨.cookieEcho, 0, 5⟩, .cookieEcho [0xaa]⟩
    let reply : Chunk := ⟨⟨.cookieAck, 0, 4⟩, .cookieAck⟩
    decodeAll.run cookieBytes = .ok ([cookie, reply], []) ∧
      totalLength [cookie, reply] = cookieBytes.length ∧
      reply.header.encode <+: cookieBytes.drop 8 := by
  intro cookie reply
  have hfirst : totalLength [cookie] = 8 := by decide
  have hrun : decodeAll.run cookieBytes = .ok ([cookie, reply], []) := rfl
  obtain ⟨_, hsum, _, hheader⟩ := (decodeAll_eq_decodeEach cookieBytes).2 _ _ hrun
  exact ⟨hrun, hsum, hfirst ▸ hheader [cookie] reply [] rfl⟩

end Chunk
end PacketCapture.Sctp
