import PacketCapture.Tag.Text

/-! # SCTP parameter types

The kind of an SCTP chunk parameter; each kind of chunk has its own choice of those it decodes.
-/
namespace PacketCapture

structure ParameterType where
  code : UInt16
  deriving DecidableEq, Inhabited, Repr

namespace ParameterType

@[match_pattern] def heartbeatInfo : ParameterType := ⟨1⟩
@[match_pattern] def ipv4Sender : ParameterType := ⟨5⟩
@[match_pattern] def ipv6Sender : ParameterType := ⟨6⟩
@[match_pattern] def cookieLifespanIncrement : ParameterType := ⟨9⟩

def names : List (Nat × String) := [
  (1, "HEARTBEAT_INFO"),
  (5, "IPV4_SENDER"),
  (6, "IPV6_SENDER"),
  (7, "STATE_COOKIE"),
  (8, "UNRECOGNIZED_PARAMETER"),
  (9, "COOKIE_LIFESPAN_INCREMENT"),
  (11, "HOSTNAME_ADDRESS"),
  (12, "SUPPORTED_ADDRESS_TYPES")]

def text (tag : ParameterType) : String := Tag.text "ParameterType" names tag.code.toNat

end ParameterType
end PacketCapture
