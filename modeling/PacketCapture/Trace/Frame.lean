import PacketCapture.Layer.Link

/-! # Records and frames

A record is a sixteen-byte header and the captured bytes of one frame. The link decoder sees just
those bytes, and the record ends after them whatever it made use of.
-/
namespace PacketCapture.Trace

structure Timestamp where
  seconds : Nat
  nanoseconds : Nat
  nanoseconds_lt : nanoseconds < 1000000000
  deriving DecidableEq, Repr

/-- Microseconds beyond a second carry over. -/
def Timestamp.ofMicroseconds (seconds microseconds : Nat) : Timestamp where
  seconds := seconds + microseconds / 1000000
  nanoseconds := microseconds % 1000000 * 1000
  nanoseconds_lt := by omega

structure RecordHeader where
  seconds : UInt32
  microseconds : UInt32
  capturedLength : UInt32
  wireLength : UInt32
  deriving DecidableEq, Repr

namespace RecordHeader

def size : Nat := 16

def timestamp (header : RecordHeader) : Timestamp :=
  .ofMicroseconds header.seconds.toNat header.microseconds.toNat

def recordLength (header : RecordHeader) : Nat := size + header.capturedLength.toNat

theorem recordLength_pos (header : RecordHeader) : 0 < header.recordLength := by
  unfold recordLength size; omega

def decode (order : ByteOrder) : Decoder RecordHeader := do
  return {
    seconds := ← .word32 order
    microseconds := ← .word32 order
    capturedLength := ← .word32 order
    wireLength := ← .word32 order }

end RecordHeader

structure Frame where
  timestamp : Timestamp
  capturedLength : UInt32
  wireLength : UInt32
  link : LinkLayer
  deriving DecidableEq, Repr

namespace Frame

def isTruncated (frame : Frame) : Bool := frame.capturedLength < frame.wireLength

def decode (order : ByteOrder) (linkType : LinkType) : Decoder Frame := do
  let header ← RecordHeader.decode order
  let link ← (LinkLayer.decode linkType).within header.capturedLength.toNat
  return {
    timestamp := header.timestamp
    capturedLength := header.capturedLength
    wireLength := header.wireLength
    link }

end Frame
end PacketCapture.Trace
