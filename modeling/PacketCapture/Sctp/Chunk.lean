import PacketCapture.Sctp.Parameter
import PacketCapture.Tag.ChunkType

/-! # SCTP chunks

A chunk is a four-byte header, a body whose size the header declares, and padding to four bytes. The
body of every known type has a layout of its own; the body of any other type is kept as it is.
-/
namespace PacketCapture.Sctp

structure ChunkHeader where
  type : ChunkType
  flags : UInt8
  /-- Size of header and body, without padding. -/
  length : UInt16
  deriving DecidableEq, Repr

namespace ChunkHeader

def size : Nat := 4

def alignedLength (header : ChunkHeader) : Nat := align4 header.length.toNat

/-- Of a DATA chunk: the data bypasses the order of its stream. -/
def isUnordered (header : ChunkHeader) : Bool := header.flags &&& 4 != 0

def isBeginning (header : ChunkHeader) : Bool := header.flags &&& 2 != 0

def isEnding (header : ChunkHeader) : Bool := header.flags &&& 1 != 0

def decode : Decoder ChunkHeader := do
  return { type := ⟨← .byte⟩, flags := ← .byte, length := ← .word16 .bigEndian }

end ChunkHeader

structure Payload where
  tsn : UInt32
  streamIdentifier : UInt16
  streamSequenceNumber : UInt16
  payloadProtocolIdentifier : UInt32
  data : Bytes
  deriving DecidableEq, Repr

def Payload.decode : Decoder Payload := do
  return {
    tsn := ← .word32 .bigEndian
    streamIdentifier := ← .word16 .bigEndian
    streamSequenceNumber := ← .word16 .bigEndian
    payloadProtocolIdentifier := ← .word32 .bigEndian
    data := ← .rest }

structure Initiation where
  tag : UInt32
  advertisedReceiverWindowCredit : UInt32
  outboundStreams : UInt16
  inboundStreams : UInt16
  initialTsn : UInt32
  parameters : List Parameter
  deriving DecidableEq, Repr

def Initiation.decode : Decoder Initiation := do
  return {
    tag := ← .word32 .bigEndian
    advertisedReceiverWindowCredit := ← .word32 .bigEndian
    outboundStreams := ← .word16 .bigEndian
    inboundStreams := ← .word16 .bigEndian
    initialTsn := ← .word32 .bigEndian
    parameters := ← Parameter.decodeAll (Parameter.decode .init) }

/-- A run of received sequence numbers, as offsets from the cumulative acknowledgement. -/
structure GapBlock where
  first : UInt16
  last : UInt16
  deriving DecidableEq, Repr

def GapBlock.decode : Decoder GapBlock := do
  return { first := ← .word16 .bigEndian, last := ← .word16 .bigEndian }

structure Acknowledgement where
  cumulativeTsn : UInt32
  advertisedReceiverWindowCredit : UInt32
  gapBlocks : List GapBlock
  duplicateTsns : List UInt32
  deriving DecidableEq, Repr

/-- Two counts announce the gap blocks and the duplicates; bytes after them are dropped. -/
def Acknowledgement.decode : Decoder Acknowledgement := do
  let cumulativeTsn ← .word32 .bigEndian
  let advertisedReceiverWindowCredit ← .word32 .bigEndian
  let gapBlockCount ← Decoder.word16 .bigEndian
  let duplicateCount ← Decoder.word16 .bigEndian
  let gapBlocks ← GapBlock.decode.times gapBlockCount.toNat
  let duplicateTsns ← (Decoder.word32 .bigEndian).times duplicateCount.toNat
  return { cumulativeTsn, advertisedReceiverWindowCredit, gapBlocks, duplicateTsns }

inductive ChunkBody
  | data (payload : Payload)
  | init (initiation : Initiation)
  | initAck (initiation : Initiation)
  | sack (acknowledgement : Acknowledgement)
  | heartbeat (info : HeartbeatInfo)
  | heartbeatAck (info : HeartbeatInfo)
  | abort (errors : UInt32)
  | shutdown (cumulativeTsn : UInt32)
  | shutdownAck
  | error (causes : List Parameter)
  | cookieEcho (cookie : Bytes)
  | cookieAck
  | shutdownComplete
  | unknown (data : Bytes)
  deriving DecidableEq, Repr

def ChunkBody.layout : ChunkType → Layout ChunkBody
  | .data => ⟨16, .data <$> Payload.decode⟩
  | .init => ⟨20, .init <$> Initiation.decode⟩
  | .initAck => ⟨20, .initAck <$> Initiation.decode⟩
  | .sack => ⟨16, .sack <$> Acknowledgement.decode⟩
  | .heartbeat => ⟨8, .heartbeat <$> HeartbeatInfo.decode⟩
  | .heartbeatAck => ⟨8, .heartbeatAck <$> HeartbeatInfo.decode⟩
  | .abort => ⟨8, .abort <$> .word32 .bigEndian⟩
  | .shutdown => ⟨8, .shutdown <$> .word32 .bigEndian⟩
  | .shutdownAck => ⟨4, pure .shutdownAck⟩
  | .error => ⟨4, .error <$> Parameter.decodeAll (Parameter.decode .error)⟩
  | .cookieEcho => ⟨4, .cookieEcho <$> .rest⟩
  | .cookieAck => ⟨4, pure .cookieAck⟩
  | .shutdownComplete => ⟨4, pure .shutdownComplete⟩
  | _ => ⟨4, .unknown <$> .rest⟩

structure Chunk where
  header : ChunkHeader
  body : ChunkBody
  deriving DecidableEq, Repr

namespace Chunk

/-- One chunk with its padding. Body and padding have to be there before the body is decoded. -/
def decode : Decoder Chunk := do
  let header ← ChunkHeader.decode
  let length := header.length.toNat
  let layout := ChunkBody.layout header.type
  if length < layout.least then .fail .insufficientLength
  let content ← .take (length - ChunkHeader.size)
  let _padding ← .take (header.alignedLength - length)
  let body ← layout.value.on content
  return { header, body }

def decodeBounded : Decoder Chunk := do
  let header ← ChunkHeader.decode.peek
  if header.length.toNat < ChunkHeader.size then .fail .insufficientLength
  decode.within header.alignedLength

def decodeAll : Decoder (List Chunk) := .many decodeBounded

def userData (chunk : Chunk) : Bytes :=
  match chunk.body with
  | .data payload => payload.data
  | _ => []

end Chunk
end PacketCapture.Sctp
