import Mathlib.Algebra.Group.Nat.Defs
import Mathlib.Data.List.Induction
import PacketCapture.Proofs.Wire.Reads

/-! # Words as bytes

The bytes that a word is written with in either byte order. Decoding them gives the word back.
-/
namespace PacketCapture

/-- The last `width` digits of `n` in base 256, most significant first. -/
def Bytes.digits : Nat → Nat → Bytes
  | 0, _ => []
  | width + 1, n => digits width (n / 256) ++ [.ofNat n]

@[simp] theorem Bytes.length_digits (width n : Nat) : (Bytes.digits width n).length = width := by
  induction width generalizing n with
  | zero => rfl
  | succ width ih => simp [digits, ih]

theorem Bytes.value_digits (width n : Nat) : (Bytes.digits width n).value = n % 256 ^ width := by
  induction width generalizing n with
  | zero => simp [digits, Nat.mod_one]
  | succ width ih =>
    have hlast : (UInt8.ofNat n).toNat = n % 256 := UInt8.toNat_ofNat'
    rw [digits, value_append_singleton, ih, hlast, Nat.pow_succ, Nat.mul_comm (256 ^ width),
      Nat.mod_mul, Nat.add_comm]

theorem Bytes.digits_value (bytes : Bytes) : Bytes.digits bytes.length bytes.value = bytes := by
  induction bytes using List.reverseRecOn with
  | nil => rfl
  | append_singleton bytes b ih =>
    have hlt : b.toNat < 256 := b.toNat_lt
    have hrest : (256 * value bytes + b.toNat) / 256 = value bytes := by omega
    have hlast : UInt8.ofNat (256 * value bytes + b.toNat) = b := by
      apply UInt8.toNat_inj.mp
      rw [UInt8.toNat_ofNat']
      omega
    rw [List.length_append, List.length_singleton, digits, value_append_singleton, hrest, hlast, ih]

theorem Bytes.value_lt (bytes : Bytes) : bytes.value < 256 ^ bytes.length := by
  rw [← Bytes.digits_value bytes, Bytes.value_digits, Bytes.length_digits]
  exact Nat.mod_lt _ (Nat.pow_pos (by decide))

namespace ByteOrder

def digits (order : ByteOrder) (width n : Nat) : Bytes :=
  match order with
  | .bigEndian => Bytes.digits width n
  | .littleEndian => (Bytes.digits width n).reverse

@[simp] theorem length_digits (order : ByteOrder) (width n : Nat) :
    (order.digits width n).length = width := by
  cases order <;> simp [digits]

theorem value_digits (order : ByteOrder) (width n : Nat) :
    order.value (order.digits width n) = n % 256 ^ width := by
  cases order <;> simp [digits, value, Bytes.value_digits]

theorem digits_value (order : ByteOrder) (bytes : Bytes) :
    order.digits bytes.length (order.value bytes) = bytes := by
  cases order with
  | bigEndian => exact Bytes.digits_value bytes
  | littleEndian =>
    have h := congrArg List.reverse (Bytes.digits_value bytes.reverse)
    rwa [List.length_reverse, List.reverse_reverse] at h

theorem value_lt (order : ByteOrder) (bytes : Bytes) : order.value bytes < 256 ^ bytes.length := by
  cases order with
  | bigEndian => exact Bytes.value_lt bytes
  | littleEndian =>
    have h := Bytes.value_lt bytes.reverse
    rwa [List.length_reverse] at h

def bytes16 (order : ByteOrder) (word : UInt16) : Bytes := order.digits 2 word.toNat

def bytes32 (order : ByteOrder) (word : UInt32) : Bytes := order.digits 4 word.toNat

theorem bytes16_ofNat_value (order : ByteOrder) {bytes : Bytes} (h : bytes.length = 2) :
    order.bytes16 (.ofNat (order.value bytes)) = bytes := by
  have hlt := order.value_lt bytes
  rw [h] at hlt
  rw [bytes16, UInt16.toNat_ofNat_of_lt' hlt, ← h, digits_value]

theorem bytes32_ofNat_value (order : ByteOrder) {bytes : Bytes} (h : bytes.length = 4) :
    order.bytes32 (.ofNat (order.value bytes)) = bytes := by
  have hlt := order.value_lt bytes
  rw [h] at hlt
  rw [bytes32, UInt32.toNat_ofNat_of_lt' hlt, ← h, digits_value]

theorem value_bytes16 (order : ByteOrder) (word : UInt16) :
    order.value (order.bytes16 word) = word.toNat := by
  have hlt : word.toNat < 256 ^ 2 := word.toNat_lt
  rw [bytes16, value_digits, Nat.mod_eq_of_lt hlt]

theorem value_bytes32 (order : ByteOrder) (word : UInt32) :
    order.value (order.bytes32 word) = word.toNat := by
  have hlt : word.toNat < 256 ^ 4 := word.toNat_lt
  rw [bytes32, value_digits, Nat.mod_eq_of_lt hlt]

@[simp] theorem length_bytes16 (order : ByteOrder) (word : UInt16) :
    (order.bytes16 word).length = 2 := length_digits order 2 _

@[simp] theorem length_bytes32 (order : ByteOrder) (word : UInt32) :
    (order.bytes32 word).length = 4 := length_digits order 4 _

end ByteOrder

namespace Decoder

theorem reads_bytes16 (order : ByteOrder) (word : UInt16) :
    (word16 order).Reads (order.bytes16 word) word := by
  have h := reads_word16 order (order.length_bytes16 word)
  rwa [ByteOrder.value_bytes16, UInt16.ofNat_toNat] at h

theorem reads_bytes32 (order : ByteOrder) (word : UInt32) :
    (word32 order).Reads (order.bytes32 word) word := by
  have h := reads_word32 order (order.length_bytes32 word)
  rwa [ByteOrder.value_bytes32, UInt32.ofNat_toNat] at h

end Decoder
end PacketCapture
