import PacketCapture.Wire.Decoder

/-! # UDP datagrams

An eight-byte header whose length field bounds the data; bytes after the data are left over.
-/
namespace PacketCapture.Udp

structure Datagram where
  sourcePort : UInt16
  destinationPort : UInt16
  /-- Size of header and data. -/
  length : UInt16
  checksum : UInt16
  data : Bytes
  deriving DecidableEq, Repr

namespace Datagram

def headerSize : Nat := 8

def decode : Decoder Datagram := do
  let sourcePort ← .word16 .bigEndian
  let destinationPort ← .word16 .bigEndian
  let length ← Decoder.word16 .bigEndian
  let checksum ← .word16 .bigEndian
  if length.toNat < headerSize then .fail .insufficientLength
  let data ← .take (length.toNat - headerSize)
  return { sourcePort, destinationPort, length, checksum, data }

end Datagram
end PacketCapture.Udp
