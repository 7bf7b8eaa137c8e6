import PacketCapture.Layer.Transport

/-! # IPv6 packets

A header of forty bytes whose next-header field chooses the payload at once: extension headers are
not walked. All bytes after the header belong to the payload.
-/
namespace PacketCapture.Ip

structure V6Header where
  trafficClass : UInt8
  flowLabel : UInt32
  payloadLength : UInt16
  nextHeader : IpProtocol
  hopLimit : UInt8
  source : Octets 16
  destination : Octets 16
  deriving DecidableEq, Repr

namespace V6Header

def size : Nat := 40

def decode : Decoder V6Header := do
  let versionClassAndLabel ← Decoder.word32 .bigEndian
  let payloadLength ← .word16 .bigEndian
  let nextHeader ← .byte
  let hopLimit ← .byte
  let source ← .octets 16
  let destination ← .octets 16
  if versionClassAndLabel / 0x10000000 ≠ 6 then .fail .typeMismatch
  return {
    payloadLength, hopLimit, source, destination
    trafficClass := (versionClassAndLabel / 0x100000 % 0x100).toUInt8
    flowLabel := versionClassAndLabel % 0x100000
    nextHeader := ⟨nextHeader⟩ }

end V6Header

structure V6Packet where
  header : V6Header
  payload : TransportLayer
  deriving DecidableEq, Repr

def V6Packet.decode : Decoder V6Packet := do
  let header ← V6Header.decode
  let payload ← TransportLayer.decode header.nextHeader
  return { header, payload }

end PacketCapture.Ip
