import PacketCapture.Tag.LinkType
import PacketCapture.Wire.Decoder

/-! # Trace headers

A trace opens with a magic number, which settles the byte order of every header in it, and twenty
bytes about the capture as a whole.
-/
namespace PacketCapture.Trace

def magic : ByteOrder → Bytes
  | .bigEndian => [0xa1, 0xb2, 0xc3, 0xd4]
  | .littleEndian => [0xd4, 0xc3, 0xb2, 0xa1]

def decodeMagic : Decoder ByteOrder := do
  let found ← .take 4
  if found = magic .bigEndian then return .bigEndian
  if found = magic .littleEndian then return .littleEndian
  .fail .notATrace

structure Header where
  byteOrder : ByteOrder
  versionMajor : UInt16
  versionMinor : UInt16
  /-- Seconds between local time and the time stamps. -/
  timeZone : Int32
  significantFigures : UInt32
  /-- The most bytes kept of a frame. -/
  snapLength : UInt32
  linkType : LinkType
  deriving DecidableEq, Repr

namespace Header

def size : Nat := 24

/-- The twenty bytes after the magic number. -/
def decodeFields (order : ByteOrder) : Decoder Header := do
  return {
    byteOrder := order
    versionMajor := ← .word16 order
    versionMinor := ← .word16 order
    timeZone := (← Decoder.word32 order).toInt32
    significantFigures := ← .word32 order
    snapLength := ← .word32 order
    linkType := ⟨← .word32 order⟩ }

/-- A header cut short after its magic number is an unexpected end. -/
def decode : Decoder Header := do
  let order ← decodeMagic
  (decodeFields order).mapError fun
    | .insufficientLength => .unexpectedEnd
    | error => error

end Header
end PacketCapture.Trace
