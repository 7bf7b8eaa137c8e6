import PacketCapture.Wire.Decoder

/-! # TCP segments

A twenty-byte header, options up to the data offset, and data to the end. The data offset and the
nine control flags share one 16-bit word of the header.
-/
namespace PacketCapture.Tcp

/-- The nine control flags, FIN in the lowest bit. -/
structure Flags where
  bits : UInt16
  deriving DecidableEq, Inhabited, Repr

namespace Flags

def names : List (Flags × String) := [
  (⟨0x100⟩, "NS"),
  (⟨0x080⟩, "CWR"),
  (⟨0x040⟩, "ECE"),
  (⟨0x020⟩, "URG"),
  (⟨0x010⟩, "ACK"),
  (⟨0x008⟩, "PSH"),
  (⟨0x004⟩, "RST"),
  (⟨0x002⟩, "SYN"),
  (⟨0x001⟩, "FIN")]

def union (a b : Flags) : Flags := ⟨a.bits ||| b.bits⟩

def contains (a b : Flags) : Bool := a.bits &&& b.bits == b.bits

/-- The names of the set flags; bits without a name are left out. -/
def text (flags : Flags) : String :=
  let set := names.filter fun named => flags.contains named.1
  "TcpFlags(" ++ "|".intercalate (set.map Prod.snd) ++ ")"

end Flags

structure Segment where
  sourcePort : UInt16
  destinationPort : UInt16
  sequenceNumber : UInt32
  ackNumber : UInt32
  /-- Data offset: size of header and options in words of four bytes. -/
  dataOffset : UInt8
  flags : Flags
  windowSize : UInt16
  checksum : UInt16
  urgentPointer : UInt16
  options : Bytes
  data : Bytes
  deriving DecidableEq, Repr

namespace Segment

def headerSize : Nat := 20

/-- A data offset below five words means no options. -/
def decode : Decoder Segment := do
  let sourcePort ← .word16 .bigEndian
  let destinationPort ← .word16 .bigEndian
  let sequenceNumber ← .word32 .bigEndian
  let ackNumber ← .word32 .bigEndian
  let offsetAndFlags ← Decoder.word16 .bigEndian
  let windowSize ← .word16 .bigEndian
  let checksum ← .word16 .bigEndian
  let urgentPointer ← .word16 .bigEndian
  let dataOffset := (offsetAndFlags / 0x1000).toUInt8
  let options ← .take (dataOffset.toNat * 4 - headerSize)
  let data ← .rest
  return {
    sourcePort, destinationPort, sequenceNumber, ackNumber, dataOffset, windowSize, checksum,
    urgentPointer, options, data, flags := ⟨offsetAndFlags % 0x200⟩ }

end Segment
end PacketCapture.Tcp
