import PacketCapture.Tag.ParameterType
import PacketCapture.Wire.Decoder

/-! # SCTP chunk parameters

A parameter is a four-byte header and a value whose size the header declares. A registry says which
types are decoded inside one kind of chunk; the parameters of a chunk are each padded to four bytes,
the last one at will.
-/
namespace PacketCapture.Sctp

structure ParameterHeader where
  type : ParameterType
  /-- Size of header and value, without padding. -/
  length : UInt16
  deriving DecidableEq, Repr

namespace ParameterHeader

def size : Nat := 4

def decode : Decoder ParameterHeader := do
  return { type := ⟨← .word16 .bigEndian⟩, length := ← .word16 .bigEndian }

end ParameterHeader

/-- The least declared length of a record and the decoder of its value. -/
structure Layout (α : Type) where
  least : Nat
  value : Decoder α

/-- A parameter without its padding, its value read as the layout of its type says; a type without a
layout is refused. The type is judged before the declared length, and the length before the value. -/
def ParameterHeader.decodeWithValue {α : Type} (layouts : ParameterType → Option (Layout α)) :
    Decoder (ParameterHeader × α) := do
  let header ← decode
  let some layout := layouts header.type | .fail .typeMismatch
  if header.length.toNat < layout.least then .fail .insufficientLength
  let value ← layout.value.within (header.length.toNat - size)
  return (header, value)

structure HeartbeatInfo where
  header : ParameterHeader
  info : Bytes
  deriving DecidableEq, Repr

def HeartbeatInfo.decode : Decoder HeartbeatInfo := do
  let (header, info) ← ParameterHeader.decodeWithValue fun
    | .heartbeatInfo => some ⟨4, .rest⟩
    | _ => none
  return { header, info }

inductive ParameterValue
  | ipv4Sender (address : Octets 4)
  | ipv6Sender (address : Octets 16)
  /-- Suggested increment of the cookie's life, in milliseconds. -/
  | cookieLifespanIncrement (increment : UInt32)
  | heartbeatInfo (info : Bytes)
  | unknown (data : Bytes)
  deriving DecidableEq, Repr

namespace ParameterValue

def ipv4SenderLayout : Layout ParameterValue := ⟨8, .ipv4Sender <$> .octets 4⟩

def ipv6SenderLayout : Layout ParameterValue := ⟨20, .ipv6Sender <$> .octets 16⟩

def cookieLifespanIncrementLayout : Layout ParameterValue :=
  ⟨8, .cookieLifespanIncrement <$> .word32 .bigEndian⟩

def heartbeatInfoLayout : Layout ParameterValue := ⟨4, .heartbeatInfo <$> .rest⟩

def unknownLayout : Layout ParameterValue := ⟨4, .unknown <$> .rest⟩

end ParameterValue

structure Parameter where
  header : ParameterHeader
  value : ParameterValue
  deriving DecidableEq, Repr

/-- How each type of parameter is read; a type without a layout is refused. -/
abbrev Registry := ParameterType → Option (Layout ParameterValue)

namespace Registry
open ParameterValue

def unknown : Registry := fun _ => some unknownLayout

def init : Registry
  | .ipv4Sender => some ipv4SenderLayout
  | .ipv6Sender => some ipv6SenderLayout
  | .cookieLifespanIncrement => some cookieLifespanIncrementLayout
  | _ => some unknownLayout

def error : Registry := unknown

/-- A registry of a caller's own. No chunk reads parameters with it: heartbeats have theirs read by
`HeartbeatInfo.decode`. -/
def heartbeat : Registry
  | .heartbeatInfo => some heartbeatInfoLayout
  | _ => none

end Registry

namespace Parameter

def decode (registry : Registry) : Decoder Parameter := do
  let (header, value) ← ParameterHeader.decodeWithValue registry
  return { header, value }

/-- One parameter, bounded by its declared length before `parameter` reads it, and as much of its
padding as there is. -/
def decodePadded (parameter : Decoder Parameter) : Decoder Parameter := do
  let header ← ParameterHeader.decode.peek
  let length := header.length.toNat
  if length < ParameterHeader.size then .fail .insufficientLength
  let decoded ← parameter.within length
  .skip (align4 length - length)
  return decoded

def decodeAll (parameter : Decoder Parameter) : Decoder (List Parameter) :=
  .many (decodePadded parameter)

end Parameter
end PacketCapture.Sctp
