import PacketCapture.Tag.Text

/-! # Link types

The kind of link-layer header that opens every frame of a trace; only Ethernet is decoded.
-/
namespace PacketCapture

structure LinkType where
  code : UInt32
  deriving DecidableEq, Inhabited, Repr

namespace LinkType

@[match_pattern] def ethernet : LinkType := ⟨1⟩

def names : List (Nat × String) := [
  (0, "NULL"),
  (1, "ETHERNET"),
  (3, "AX25"),
  (6, "IEEE802_5"),
  (7, "ARCNET_BSD"),
  (8, "SLIP"),
  (9, "PPP"),
  (10, "FDDI"),
  (50, "PPP_HDLC"),
  (51, "PPP_ETHER"),
  (100, "ATM_RFC1483"),
  (101, "RAW"),
  (104, "C_HDLC"),
  (105, "IEEE802_11"),
  (107, "FRELAY"),
  (108, "LOOP"),
  (113, "LINUX_SLL"),
  (114, "LTALK"),
  (117, "PFLOG"),
  (119, "IEEE802_11_PRISM"),
  (122, "IP_OVER_FC"),
  (123, "SUNATM"),
  (127, "IEEE802_11_RADIOTAP"),
  (129, "ARCNET_LINUX"),
  (138, "APPLE_IP_OVER_IEEE1394"),
  (139, "MTP2_WITH_PHDR"),
  (140, "MTP2"),
  (141, "MTP3"),
  (142, "SCCP"),
  (143, "DOCSIS"),
  (144, "LINUX_IRDA"),
  (163, "IEEE802_11_AVS"),
  (165, "BACNET_MS_TP"),
  (166, "PPP_PPPD"),
  (169, "GPRS_LLC"),
  (177, "LINUX_LAPD"),
  (187, "BLUETOOTH_HCI_H4"),
  (189, "USB_LINUX"),
  (192, "PPI"),
  (195, "IEEE802_15_4"),
  (196, "SITA"),
  (197, "ERF"),
  (201, "BLUETOOTH_HCI_H4_WITH_PHDR"),
  (202, "AX25_KISS"),
  (203, "LAPD"),
  (204, "PPP_WITH_DIR"),
  (205, "C_HDLC_WITH_DIR"),
  (206, "FRELAY_WITH_DIR"),
  (209, "IPMB_LINUX"),
  (215, "IEEE802_15_4_NONASK_PHY"),
  (220, "USB_LINUX_MMAPPED"),
  (224, "FC_2"),
  (225, "FC_2_WITH_FRAME_DELIMS"),
  (226, "IPNET"),
  (227, "CAN_SOCKETCAN"),
  (228, "IPV4"),
  (229, "IPV6"),
  (230, "IEEE802_15_4_NOFCS"),
  (231, "DBUS"),
  (235, "DVB_CI"),
  (236, "MUX27010"),
  (237, "STANAG_5066_D_PDU"),
  (239, "NFLOG"),
  (240, "NETANALYZER"),
  (241, "NETANALYZER_TRANSPARENT"),
  (242, "IPOIB"),
  (243, "MPEG_2_TS"),
  (244, "NG40"),
  (245, "NFC_LLCP"),
  (247, "INFINIBAND"),
  (248, "SCTP"),
  (249, "USBPCAP"),
  (250, "RTAC_SERIAL"),
  (251, "BLUETOOTH_LE_LL"),
  (276, "LINUX_SLL2")]

def text (tag : LinkType) : String := Tag.text "Linktype" names tag.code.toNat

end LinkType
end PacketCapture
