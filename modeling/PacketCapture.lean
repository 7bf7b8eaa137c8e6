import PacketCapture.Form
import PacketCapture.Trace
import PacketCapture.Trace.Session
import PacketCapture.Proofs.Sctp.Chunk
import PacketCapture.Proofs.Sctp.ChunkGrammar
import PacketCapture.Proofs.Sctp.Concatenation
import PacketCapture.Proofs.Sctp.Framing
import PacketCapture.Proofs.Sctp.Grammar
import PacketCapture.Proofs.Sctp.Heartbeat
import PacketCapture.Proofs.Sctp.Padding
import PacketCapture.Proofs.Sctp.Registry
import PacketCapture.Proofs.Sctp.UserData
import PacketCapture.Proofs.Layer.Data
import PacketCapture.Proofs.Layer.Headers
import PacketCapture.Proofs.Layer.Lengths
import PacketCapture.Proofs.Layer.Packets
import PacketCapture.Proofs.Layer.Refusals
import PacketCapture.Proofs.Layer.Segments
import PacketCapture.Proofs.Layer.Strict
import PacketCapture.Proofs.Layer.Tagging
import PacketCapture.Proofs.SelfDelimiting
import PacketCapture.Proofs.Trace.Account
import PacketCapture.Proofs.Trace.Cut
import PacketCapture.Proofs.Trace.Division
import PacketCapture.Proofs.Trace.Fused
import PacketCapture.Proofs.Trace.ReadLog
import PacketCapture.Proofs.Trace.RoundTrip
