import PacketCapture.Ethernet
import PacketCapture.Tag.LinkType

/-! # The link layer

What a captured frame holds, chosen by the link type of the trace. Frames of other link types are
kept as they are.
-/
namespace PacketCapture

inductive LinkLayer
  | ethernet (frame : Ethernet.Frame)
  | unknown (bytes : Bytes)
  deriving DecidableEq, Repr

namespace LinkLayer

def decode : LinkType → Decoder LinkLayer
  | .ethernet => .ethernet <$> Ethernet.Frame.decode
  | _ => .unknown <$> .rest

def internet : LinkLayer → InternetLayer
  | .ethernet frame => frame.payload
  | .unknown bytes => .unknown bytes

def data (link : LinkLayer) : Bytes := link.internet.transport.data

end LinkLayer
end PacketCapture
