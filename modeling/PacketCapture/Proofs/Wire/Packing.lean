import PacketCapture.Proofs.Wire.Acceptance

/-! # Fields that share a word

Fields narrower than a byte or a word are put together by shifts, the first one highest. Where each
of them fits into its own bits the shifts are sums, and nothing overlaps. A word whose place is
known is a number of the input, and what a decoder asks of it is asked of that number.
-/
namespace PacketCapture

theorem shiftLeft_or {low width : Nat} (high : Nat) (h : low < 2 ^ width) :
    high <<< width ||| low = high * 2 ^ width + low := by
  rw [← Nat.shiftLeft_add_eq_or_of_lt h, Nat.shiftLeft_eq]

theorem ByteOrder.bytes16_bigEndian (word : UInt16) :
    bigEndian.bytes16 word = [.ofNat (word.toNat / 256), .ofNat word.toNat] := rfl

namespace Bytes
variable {bytes : Bytes} {n : Nat}

theorem modify_append {front : Bytes} (h : front.length = n) (f : UInt8 → UInt8) (b : UInt8)
    (back : Bytes) : (front ++ b :: back).modify n f = front ++ f b :: back := by
  subst h
  rw [List.modify_eq_take_drop, List.take_left, List.drop_left, List.modifyHead_cons]

/-- The big-endian word behind the first `n` bytes. -/
def word16At (bytes : Bytes) (n : Nat) : UInt16 := .ofNat (value ((bytes.drop n).take 2))

theorem eq_word16At {word : UInt16} {more : Bytes}
    (h : bytes.drop n = ByteOrder.bigEndian.bytes16 word ++ more) :
    word = bytes.word16At n ∧ more = bytes.drop (n + 2) := by
  have hlen : (ByteOrder.bigEndian.bytes16 word).length = 2 := ByteOrder.length_bytes16 ..
  have hvalue : value (ByteOrder.bigEndian.bytes16 word) = word.toNat :=
    ByteOrder.bigEndian.value_bytes16 word
  constructor
  · rw [word16At, h, List.take_left' hlen, hvalue, UInt16.ofNat_toNat]
  · rw [← List.drop_drop, h, List.drop_left' hlen]

theorem drop_eq_word16At (h : n + 2 ≤ bytes.length) :
    bytes.drop n = ByteOrder.bigEndian.bytes16 (bytes.word16At n) ++ bytes.drop (n + 2) := by
  have hle : 2 ≤ (bytes.drop n).length := by
    rw [List.length_drop]
    omega
  obtain ⟨word, rest, hrun⟩ := ((Decoder.fixed_word16 .bigEndian).recognizes _).mpr hle
  have hword := Decoder.word16_eq_ok hrun
  obtain ⟨rfl, rfl⟩ := eq_word16At hword
  exact hword

theorem toNat_word16At (h : n + 2 ≤ bytes.length) :
    (bytes.word16At n).toNat = value ((bytes.drop n).take 2) := by
  have htake : (bytes.drop n).take 2 = ByteOrder.bigEndian.bytes16 (bytes.word16At n) := by
    rw [drop_eq_word16At h, List.take_left' (ByteOrder.length_bytes16 ..)]
  rw [htake]
  exact (ByteOrder.bigEndian.value_bytes16 _).symm

theorem word16At_eq (h : n + 2 ≤ bytes.length) : (bytes.word16At n).toNat =
    256 * (bytes.getD n 0).toNat + (bytes.getD (n + 1) 0).toNat := by
  have hlt : (bytes.word16At n).toNat < 65536 := UInt16.toNat_lt _
  have hget (i : Nat) : bytes[n + i]? =
      (ByteOrder.bigEndian.bytes16 (bytes.word16At n) ++ bytes.drop (n + 2))[i]? := by
    rw [← drop_eq_word16At h, List.getElem?_drop]
  have hhigh : bytes[n]? = some (.ofNat ((bytes.word16At n).toNat / 256)) := hget 0
  have hlow : bytes[n + 1]? = some (.ofNat (bytes.word16At n).toNat) := hget 1
  rw [List.getD_eq_getElem?_getD, List.getD_eq_getElem?_getD, hhigh, hlow, Option.getD_some,
    Option.getD_some, UInt8.toNat_ofNat', UInt8.toNat_ofNat']
  omega

end Bytes

theorem Decoder.behind_word16_iff {bytes : Bytes} {n : Nat} {k : UInt16 → Bytes → Prop} :
    Behind n (fun rest =>
        ∃ word more, rest = ByteOrder.bigEndian.bytes16 word ++ more ∧ k word more) bytes ↔
      n + 2 ≤ bytes.length ∧ k (bytes.word16At n) (bytes.drop (n + 2)) := by
  constructor
  · rintro ⟨hn, word, more, hword, h⟩
    obtain ⟨rfl, rfl⟩ := Bytes.eq_word16At hword
    have hlen := congrArg List.length hword
    rw [List.length_append, ByteOrder.length_bytes16, List.length_drop, List.length_drop] at hlen
    exact ⟨by omega, h⟩
  · rintro ⟨hn, h⟩
    exact ⟨by omega, _, _, Bytes.drop_eq_word16At hn, h⟩

end PacketCapture
