import PacketCapture.Tag.Text

/-! # IP protocols

The protocol carried by an IP packet; TCP, UDP and SCTP are decoded.
-/
namespace PacketCapture

structure IpProtocol where
  code : UInt8
  deriving DecidableEq, Inhabited, Repr

namespace IpProtocol

@[match_pattern] def tcp : IpProtocol := ⟨6⟩
@[match_pattern] def udp : IpProtocol := ⟨17⟩
@[match_pattern] def sctp : IpProtocol := ⟨132⟩

def names : List (Nat × String) := [
  (0, "HOPOPT"),
  (1, "ICMP"),
  (6, "TCP"),
  (17, "UDP"),
  (56, "TLSP"),
  (58, "ICMPV6"),
  (132, "SCTP")]

def text (tag : IpProtocol) : String := Tag.text "IpProtocol" names tag.code.toNat

end IpProtocol
end PacketCapture
