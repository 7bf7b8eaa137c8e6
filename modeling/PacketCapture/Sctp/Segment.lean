import PacketCapture.Sctp.Chunk

/-! # SCTP segments

A twelve-byte common header and the chunks that fill the rest.
-/
namespace PacketCapture.Sctp

structure Segment where
  sourcePort : UInt16
  destinationPort : UInt16
  verificationTag : UInt32
  checksum : UInt32
  chunks : List Chunk
  deriving DecidableEq, Repr

namespace Segment

def headerSize : Nat := 12

def decode : Decoder Segment := do
  return {
    sourcePort := ← .word16 .bigEndian
    destinationPort := ← .word16 .bigEndian
    verificationTag := ← .word32 .bigEndian
    checksum := ← .word32 .bigEndian
    chunks := ← Chunk.decodeAll }

def data (segment : Segment) : Bytes := segment.chunks.flatMap Chunk.userData

end Segment
end PacketCapture.Sctp
