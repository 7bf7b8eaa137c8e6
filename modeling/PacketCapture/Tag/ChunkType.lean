import PacketCapture.Tag.Text

/-! # SCTP chunk types

The kind of an SCTP chunk, which fixes the layout of its body.
-/
namespace PacketCapture

structure ChunkType where
  code : UInt8
  deriving DecidableEq, Inhabited, Repr

namespace ChunkType

@[match_pattern] def data : ChunkType := ⟨0⟩
@[match_pattern] def init : ChunkType := ⟨1⟩
@[match_pattern] def initAck : ChunkType := ⟨2⟩
@[match_pattern] def sack : ChunkType := ⟨3⟩
@[match_pattern] def heartbeat : ChunkType := ⟨4⟩
@[match_pattern] def heartbeatAck : ChunkType := ⟨5⟩
@[match_pattern] def abort : ChunkType := ⟨6⟩
@[match_pattern] def shutdown : ChunkType := ⟨7⟩
@[match_pattern] def shutdownAck : ChunkType := ⟨8⟩
@[match_pattern] def error : ChunkType := ⟨9⟩
@[match_pattern] def cookieEcho : ChunkType := ⟨10⟩
@[match_pattern] def cookieAck : ChunkType := ⟨11⟩
@[match_pattern] def shutdownComplete : ChunkType := ⟨14⟩

def names : List (Nat × String) := [
  (0, "DATA"),
  (1, "INIT"),
  (2, "INIT_ACK"),
  (3, "SACK"),
  (4, "HEARTBEAT"),
  (5, "HEARTBEAT_ACK"),
  (6, "ABORT"),
  (7, "SHUTDOWN"),
  (8, "SHUTDOWN_ACK"),
  (9, "ERROR"),
  (10, "COOKIE_ECHO"),
  (11, "COOKIE_ACK"),
  (14, "SHUTDOWN_COMPLETE")]

def text (tag : ChunkType) : String := Tag.text "ChunkType" names tag.code.toNat

end ChunkType
end PacketCapture
