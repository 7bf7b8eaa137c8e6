import PacketCapture.Tag.Text

/-! # Ether types

The protocol carried by an Ethernet frame; only the two versions of IP are decoded.
-/
namespace PacketCapture

structure EtherType where
  code : UInt16
  deriving DecidableEq, Inhabited, Repr

namespace EtherType

@[match_pattern] def ipv4 : EtherType := ⟨0x0800⟩
@[match_pattern] def ipv6 : EtherType := ⟨0x86dd⟩

def names : List (Nat × String) := [
  (0x0800, "IPV4"),
  (0x0806, "ARP"),
  (0x0842, "WAKE_ON_LAN"),
  (0x22f3, "TRILL"),
  (0x6003, "DECNET_PHASE_4"),
  (0x8035, "REVERSE_ARP"),
  (0x809b, "APPLETALK"),
  (0x80f3, "APPLETALK_ARP"),
  (0x8100, "VLAN"),
  (0x8137, "IPX1"),
  (0x8138, "IPX2"),
  (0x8204, "QNET"),
  (0x86dd, "IPV6"),
  (0x8808, "FLOW_CONTROL"),
  (0x8809, "SLOW"),
  (0x8819, "COBRANET"),
  (0x8847, "MPLS_UNICAST"),
  (0x8848, "MPLS_MULTICAST"),
  (0x8863, "PPPOE_DISCOVERY"),
  (0x8864, "PPPOE_SESSION"),
  (0x8870, "JUMBO_FRAMES"),
  (0x887b, "HOMEPLUG"),
  (0x888e, "EAP_OVER_LAN"),
  (0x8892, "PROFINET"),
  (0x889a, "HYPERSCSI"),
  (0x88a2, "ATA_OVER_ETHERNET"),
  (0x88a4, "ETHERCAT"),
  (0x88ab, "POWERLINK"),
  (0x88cc, "LLDP"),
  (0x88cd, "SERCOS3"),
  (0x88e3, "MRP"),
  (0x88e5, "MAC_SECURITY"),
  (0x88f7, "IEEE1588"),
  (0x8906, "FCOE"),
  (0x8914, "FCOE_INIT"),
  (0x8915, "ROCE"),
  (0x892f, "HSR")]

def text (tag : EtherType) : String := Tag.text "EtherType" names tag.code.toNat

end EtherType
end PacketCapture
