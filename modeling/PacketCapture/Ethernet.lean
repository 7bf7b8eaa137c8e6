import PacketCapture.Layer.Internet

/-! # Ethernet frames

Two hardware addresses, at most one VLAN tag, and a word that is a length below 1536 and an ether
type from there on. Bytes that the payload does not use are left over.
-/
namespace PacketCapture.Ethernet

/-- The word that announces a VLAN tag. -/
def vlanTpid : UInt16 := 0x8100

def minEtherType : UInt16 := 1536

structure VlanTag where
  /-- Priority, drop eligibility and identifier. -/
  control : Octets 2
  deriving DecidableEq, Repr

namespace VlanTag

def id (tag : VlanTag) : UInt16 := .ofNat (Bytes.value tag.control.val % 0x1000)

def bytes (tag : VlanTag) : Bytes := 0x81 :: 0x00 :: tag.control.val

end VlanTag

inductive LengthOrType
  | length (n : UInt16)
  | etherType (type : EtherType)
  deriving DecidableEq, Repr

namespace LengthOrType

def ofWord (word : UInt16) : LengthOrType :=
  if word < minEtherType then .length word else .etherType ⟨word⟩

def lengthValue : LengthOrType → UInt16
  | .length n => n
  | .etherType _ => 0

def typeValue : LengthOrType → EtherType
  | .length _ => ⟨0⟩
  | .etherType type => type

end LengthOrType

structure Frame where
  destination : Octets 6
  source : Octets 6
  vlanTag : Option VlanTag
  lengthOrType : LengthOrType
  payload : InternetLayer
  deriving DecidableEq, Repr

namespace Frame

def vlanId (frame : Frame) : Option UInt16 := frame.vlanTag.map VlanTag.id

/-- The VLAN tag, if the announcing word stands first, and the length-or-type word. -/
def decodeTagAndWord : Decoder (Option VlanTag × UInt16) := do
  let word ← Decoder.word16 .bigEndian
  if word = vlanTpid then
    let control ← .octets 2
    return (some { control }, ← .word16 .bigEndian)
  return (none, word)

def decode : Decoder Frame := do
  let destination ← .octets 6
  let source ← .octets 6
  let (vlanTag, word) ← decodeTagAndWord
  let lengthOrType := LengthOrType.ofWord word
  let payload ← InternetLayer.decode lengthOrType.typeValue
  return { destination, source, vlanTag, lengthOrType, payload }

end Frame
end PacketCapture.Ethernet
