import PacketCapture.Layer.Transport

/-! # IPv4 packets

A header of twenty bytes with options up to the header length it declares. The total length bounds
the payload, and bytes after it are left over.
-/
namespace PacketCapture.Ip

structure V4Header where
  /-- Size of header and options in words of four bytes. -/
  ihl : UInt8
  dscp : UInt8
  ecn : UInt8
  /-- Size of header, options and payload. -/
  totalLength : UInt16
  id : UInt16
  dontFragment : Bool
  moreFragments : Bool
  fragmentOffset : UInt16
  ttl : UInt8
  protocol : IpProtocol
  checksum : UInt16
  source : Octets 4
  destination : Octets 4
  options : Bytes
  deriving DecidableEq, Repr

namespace V4Header

def fixedSize : Nat := 20

def length (header : V4Header) : Nat := header.ihl.toNat * 4

/-- The version is judged once the fixed header is complete. A declared size below that of the fixed
header means no options. -/
def decode : Decoder V4Header := do
  let versionAndIhl ← .byte
  let dscpAndEcn ← .byte
  let totalLength ← .word16 .bigEndian
  let id ← .word16 .bigEndian
  let flagsAndOffset ← Decoder.word16 .bigEndian
  let ttl ← .byte
  let protocol ← .byte
  let checksum ← .word16 .bigEndian
  let source ← .octets 4
  let destination ← .octets 4
  if versionAndIhl / 0x10 ≠ 4 then .fail .typeMismatch
  let ihl := versionAndIhl % 0x10
  let options ← .take (ihl.toNat * 4 - fixedSize)
  return {
    ihl, totalLength, id, ttl, checksum, source, destination, options
    dscp := dscpAndEcn / 4
    ecn := dscpAndEcn % 4
    dontFragment := flagsAndOffset.toNat.testBit 14
    moreFragments := flagsAndOffset.toNat.testBit 13
    fragmentOffset := flagsAndOffset % 0x2000
    protocol := ⟨protocol⟩ }

end V4Header

structure V4Packet where
  header : V4Header
  payload : TransportLayer
  deriving DecidableEq, Repr

def V4Packet.decode : Decoder V4Packet := do
  let header ← V4Header.decode
  if header.totalLength.toNat < header.length then .fail .insufficientLength
  let payload ← (TransportLayer.decode header.protocol).within
    (header.totalLength.toNat - header.length)
  return { header, payload }

end PacketCapture.Ip
