import PacketCapture.Wire.Bytes

/-! # Byte orders

The order of the bytes of a word: most significant first or least significant first.
-/
namespace PacketCapture

inductive ByteOrder
  | bigEndian
  | littleEndian
  deriving DecidableEq, Repr

def ByteOrder.value : ByteOrder → Bytes → Nat
  | .bigEndian, bytes => bytes.value
  | .littleEndian, bytes => Bytes.value bytes.reverse

end PacketCapture
