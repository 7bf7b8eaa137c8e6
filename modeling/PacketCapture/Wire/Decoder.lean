import PacketCapture.Error
import PacketCapture.Wire.ByteOrder

/-! # Decoders

A decoder reads a value from the front of a byte string and leaves the bytes after it. Every want of
bytes is `insufficientLength`; `within` bounds a decoder to a stretch of known length, and `many`
repeats one until no byte is left.
-/
namespace PacketCapture

abbrev Decoder (α : Type) := StateT Bytes (Except DecodeError) α

namespace Decoder
variable {α : Type}

def fail (error : DecodeError) : Decoder α := fun _ => .error error

def rest : Decoder Bytes := fun bytes => .ok (bytes, [])

/-- Passes over the next `n` bytes, or as many as there are. -/
def skip (n : Nat) : Decoder Unit := fun bytes => .ok ((), bytes.drop n)

def octets (n : Nat) : Decoder (Octets n) := fun bytes =>
  if h : (bytes.take n).length = n then .ok (⟨bytes.take n, h⟩, bytes.drop n)
  else .error .insufficientLength

def take (n : Nat) : Decoder Bytes := Subtype.val <$> octets n

def byte : Decoder UInt8
  | b :: bytes => .ok (b, bytes)
  | [] => .error .insufficientLength

def word16 (order : ByteOrder) : Decoder UInt16 := do
  return .ofNat (order.value (← take 2))

def word32 (order : ByteOrder) : Decoder UInt32 := do
  return .ofNat (order.value (← take 4))

/-- Reads ahead without moving on. -/
def peek (d : Decoder α) : Decoder α := fun bytes => do
  let (a, _) ← d.run bytes
  return (a, bytes)

/-- Decodes a separate stretch of bytes; what is left of it is dropped. -/
def on (d : Decoder α) (stretch : Bytes) : Decoder α := fun bytes => do
  let (a, _) ← d.run stretch
  return (a, bytes)

/-- Decodes the next `n` bytes and continues after them, whatever `d` made use of. -/
def within (d : Decoder α) (n : Nat) : Decoder α := do
  d.on (← take n)

def mapError (d : Decoder α) (f : DecodeError → DecodeError) : Decoder α := fun bytes =>
  (d.run bytes).mapError f

def times (d : Decoder α) : Nat → Decoder (List α)
  | 0 => return []
  | n + 1 => do
    let a ← d
    return a :: (← times d n)

def manyUpTo (d : Decoder α) : Nat → Bytes → Except DecodeError (List α)
  | _, [] => .ok []
  | 0, _ :: _ => .error .insufficientLength
  | n + 1, bytes => do
    let (a, bytes) ← d.run bytes
    return a :: (← manyUpTo d n bytes)

/-- Values one after another until no byte is left; each takes at least one byte. -/
def many (d : Decoder α) : Decoder (List α) := fun bytes => do
  return (← manyUpTo d bytes.length bytes, [])

end Decoder
end PacketCapture
