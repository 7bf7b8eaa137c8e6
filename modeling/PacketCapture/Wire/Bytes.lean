/-! # Byte strings

Byte strings are lists of bytes, and a field of fixed width carries its length in its type. A byte
string denotes a number in base 256, most significant digit first.
-/
namespace PacketCapture

abbrev Bytes := List UInt8

/-- Exactly `n` bytes, such as a hardware or network address. -/
abbrev Octets (n : Nat) := { bytes : Bytes // bytes.length = n }

namespace Bytes

/-- The number whose base-256 digits are the bytes, most significant first. -/
def value (bytes : Bytes) : Nat := bytes.foldl (fun n b => 256 * n + b.toNat) 0

@[simp] theorem value_nil : value [] = 0 := rfl

theorem value_append_singleton (bytes : Bytes) (b : UInt8) :
    value (bytes ++ [b]) = 256 * value bytes + b.toNat := by
  simp [value, List.foldl_append]

end Bytes

/-- The least multiple of four that is at least `n`. -/
def align4 (n : Nat) : Nat := (n + 3) / 4 * 4

theorem le_align4 (n : Nat) : n ≤ align4 n := by unfold align4; omega

theorem align4_lt (n : Nat) : align4 n < n + 4 := by unfold align4; omega

theorem align4_mod (n : Nat) : align4 n % 4 = 0 := by unfold align4; omega

end PacketCapture
