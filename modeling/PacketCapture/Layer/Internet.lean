import PacketCapture.Ip.Version4
import PacketCapture.Ip.Version6
import PacketCapture.Tag.EtherType

/-! # The internet layer

What a link-layer frame carries, chosen by its ether type. Payloads of other types are kept as they
are.
-/
namespace PacketCapture

inductive InternetLayer
  | ipv4 (packet : Ip.V4Packet)
  | ipv6 (packet : Ip.V6Packet)
  | unknown (bytes : Bytes)
  deriving DecidableEq, Repr

namespace InternetLayer

def decode : EtherType → Decoder InternetLayer
  | .ipv4 => .ipv4 <$> Ip.V4Packet.decode
  | .ipv6 => .ipv6 <$> Ip.V6Packet.decode
  | _ => .unknown <$> .rest

/-- The transport layer carried; bytes of an unknown type are unknown there too. -/
def transport : InternetLayer → TransportLayer
  | .ipv4 packet => packet.payload
  | .ipv6 packet => packet.payload
  | .unknown bytes => .unknown bytes

end InternetLayer
end PacketCapture
