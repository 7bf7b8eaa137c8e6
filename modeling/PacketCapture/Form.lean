import PacketCapture.Trace.Frame
import PacketCapture.Trace.Header

/-! # Forms

Every form of byte string that can be decoded by itself, and what comes of it. Values of different
forms compare equal only where the forms share a type of value, as records of either byte order do.
-/
namespace PacketCapture
open Trace (Header RecordHeader Frame)

inductive Form
  | magic
  | traceHeader
  | recordHeader (order : ByteOrder)
  | frame (order : ByteOrder) (linkType : LinkType)
  | linkLayer (linkType : LinkType)
  | ethernet
  | internetLayer (type : EtherType)
  | ipv4
  | ipv6
  | transportLayer (protocol : IpProtocol)
  | tcp
  | udp
  | sctp
  | chunkHeader
  | chunk
  | chunks
  | parameterHeader
  | heartbeatInfo
  | parameter (registry : Sctp.Registry)
  | parameters (registry : Sctp.Registry)

inductive Decoded
  | byteOrder (order : ByteOrder)
  | traceHeader (header : Header)
  | recordHeader (header : RecordHeader)
  | frame (frame : Frame)
  | linkLayer (link : LinkLayer)
  | ethernet (frame : Ethernet.Frame)
  | internetLayer (internet : InternetLayer)
  | ipv4 (packet : Ip.V4Packet)
  | ipv6 (packet : Ip.V6Packet)
  | transportLayer (transport : TransportLayer)
  | tcp (segment : Tcp.Segment)
  | udp (datagram : Udp.Datagram)
  | sctp (segment : Sctp.Segment)
  | chunkHeader (header : Sctp.ChunkHeader)
  | chunk (chunk : Sctp.Chunk)
  | chunks (chunks : List Sctp.Chunk)
  | parameterHeader (header : Sctp.ParameterHeader)
  | heartbeatInfo (info : Sctp.HeartbeatInfo)
  | parameter (parameter : Sctp.Parameter)
  | parameters (parameters : List Sctp.Parameter)
  deriving DecidableEq, Repr

def Form.decode : Form → Decoder Decoded
  | .magic => .byteOrder <$> Trace.decodeMagic
  | .traceHeader => .traceHeader <$> Header.decode
  | .recordHeader order => .recordHeader <$> RecordHeader.decode order
  | .frame order linkType => .frame <$> Frame.decode order linkType
  | .linkLayer linkType => .linkLayer <$> LinkLayer.decode linkType
  | .ethernet => .ethernet <$> Ethernet.Frame.decode
  | .internetLayer type => .internetLayer <$> InternetLayer.decode type
  | .ipv4 => .ipv4 <$> Ip.V4Packet.decode
  | .ipv6 => .ipv6 <$> Ip.V6Packet.decode
  | .transportLayer protocol => .transportLayer <$> TransportLayer.decode protocol
  | .tcp => .tcp <$> Tcp.Segment.decode
  | .udp => .udp <$> Udp.Datagram.decode
  | .sctp => .sctp <$> Sctp.Segment.decode
  | .chunkHeader => .chunkHeader <$> Sctp.ChunkHeader.decode
  | .chunk => .chunk <$> Sctp.Chunk.decode
  | .chunks => .chunks <$> Sctp.Chunk.decodeAll
  | .parameterHeader => .parameterHeader <$> Sctp.ParameterHeader.decode
  | .heartbeatInfo => .heartbeatInfo <$> Sctp.HeartbeatInfo.decode
  | .parameter registry => .parameter <$> Sctp.Parameter.decode registry
  | .parameters registry => .parameters <$> Sctp.Parameter.decodeAll (Sctp.Parameter.decode registry)

def Form.agree (form₁ : Form) (bytes₁ : Bytes) (form₂ : Form) (bytes₂ : Bytes) :
    Except DecodeError Bool := do
  let (value₁, _) ← form₁.decode.run bytes₁
  let (value₂, _) ← form₂.decode.run bytes₂
  return value₁ = value₂

def Decoded.data? : Decoded → Option Bytes
  | .frame captured => some captured.link.data
  | .linkLayer link => some link.data
  | .internetLayer internet => some internet.transport.data
  | .transportLayer transport => some transport.data
  | _ => none

end PacketCapture
