import PacketCapture.Sctp.Segment
import PacketCapture.Tag.IpProtocol
import PacketCapture.Tcp
import PacketCapture.Udp

/-! # The transport layer

What an IP packet carries, chosen by its protocol number. Payloads of other protocols are kept as
they are.
-/
namespace PacketCapture

inductive TransportLayer
  | tcp (segment : Tcp.Segment)
  | udp (datagram : Udp.Datagram)
  | sctp (segment : Sctp.Segment)
  | unknown (bytes : Bytes)
  deriving DecidableEq, Repr

namespace TransportLayer

def decode : IpProtocol → Decoder TransportLayer
  | .tcp => .tcp <$> Tcp.Segment.decode
  | .udp => .udp <$> Udp.Datagram.decode
  | .sctp => .sctp <$> Sctp.Segment.decode
  | _ => .unknown <$> .rest

def data : TransportLayer → Bytes
  | .tcp segment => segment.data
  | .udp datagram => datagram.data
  | .sctp segment => segment.data
  | .unknown bytes => bytes

end TransportLayer
end PacketCapture
