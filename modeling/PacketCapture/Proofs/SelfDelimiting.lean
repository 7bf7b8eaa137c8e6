import PacketCapture.Form
import PacketCapture.Proofs.Sctp.Framing
import PacketCapture.Proofs.Trace.Header
import PacketCapture.Proofs.Trace.Record
import PacketCapture.Proofs.Wire.Refusals

/-! # Forms that tell their own end

Trace headers, records, IPv4 packets, datagrams, chunks and parameters say how long they are. They
are decoded alike whatever follows them, and no part of them is enough. Inside there may be decoders
that take all there is: they are given a stretch of declared length, and that before they run.
-/
namespace PacketCapture
open Decoder

namespace Sctp

theorem ParameterHeader.delimited_decodeWithValue {α : Type}
    (layouts : ParameterType → Option (Layout α)) : (decodeWithValue layouts).Delimited := by
  refine fixed_decode.delimited.bind fun header => ?_
  cases hlayout : layouts header.type with
  | none => exact delimited_fail .typeMismatch
  | some layout =>
    have hvalue := delimited_within layout.value (header.length.toNat - size)
    exact Delimited.guard (hvalue.bind fun value => delimited_pure _)

theorem HeartbeatInfo.delimited_decode : decode.Delimited :=
  (ParameterHeader.delimited_decodeWithValue _).bind fun _ => delimited_pure _

theorem Parameter.delimited_decode (registry : Registry) : (decode registry).Delimited :=
  (ParameterHeader.delimited_decodeWithValue registry).bind fun _ => delimited_pure _

end Sctp

theorem Udp.Datagram.delimited_decode : decode.Delimited := by
  have hword16 := (fixed_word16 .bigEndian).delimited
  refine hword16.bind fun sourcePort => ?_
  refine hword16.bind fun destinationPort => ?_
  refine hword16.bind fun length => ?_
  refine hword16.bind fun checksum => ?_
  have hdata := (fixed_take (length.toNat - headerSize)).delimited
  exact Delimited.guard (hdata.bind fun data => delimited_pure _)

namespace Ip

theorem V4Header.delimited_decode : decode.Delimited := by
  have hbyte := fixed_byte.delimited
  have hword16 := (fixed_word16 .bigEndian).delimited
  have haddress := (fixed_octets 4).delimited
  refine hbyte.bind fun versionAndIhl => ?_
  refine hbyte.bind fun dscpAndEcn => ?_
  refine hword16.bind fun totalLength => ?_
  refine hword16.bind fun id => ?_
  refine hword16.bind fun flagsAndOffset => ?_
  refine hbyte.bind fun ttl => ?_
  refine hbyte.bind fun protocol => ?_
  refine hword16.bind fun checksum => ?_
  refine haddress.bind fun source => ?_
  refine haddress.bind fun destination => ?_
  have hoptions := (fixed_take ((versionAndIhl % 0x10).toNat * 4 - fixedSize)).delimited
  exact Delimited.guard (hoptions.bind fun options => delimited_pure _)

theorem V4Packet.delimited_decode : decode.Delimited := by
  refine V4Header.delimited_decode.bind fun header => ?_
  have hpayload := delimited_within (TransportLayer.decode header.protocol)
    (header.totalLength.toNat - header.length)
  exact Delimited.guard (hpayload.bind fun payload => delimited_pure _)

end Ip

theorem Trace.delimited_decodeMagic : decodeMagic.Delimited := by
  refine (fixed_take 4).delimited.bind fun found => ?_
  split
  · exact delimited_pure _
  · split
    · exact delimited_pure _
    · exact delimited_fail .notATrace

theorem Trace.Header.front_of_run {bytes rest : Bytes} {header : Header}
    (h : decode.run bytes = .ok (header, rest)) :
    rest <:+ bytes ∧ (∀ more, decode.run (bytes ++ more) = .ok (header, rest ++ more)) ∧
      ∀ k < bytes.length - rest.length, decode.run (bytes.take k) =
        .error (if k < 4 then .insufficientLength else .unexpectedEnd) := by
  obtain ⟨front, rfl, hsize, hreads, hcut⟩ := decode_ok h
  refine ⟨List.suffix_append front rest, ?_, ?_⟩
  · intro more
    rw [List.append_assoc]
    exact hreads (rest ++ more)
  · intro k hk
    rw [List.length_append, Nat.add_sub_cancel] at hk
    rw [List.take_append_of_le_length (Nat.le_of_lt hk)]
    exact hcut k (hsize ▸ hk)

namespace Form

/-- The forms whose bytes tell where they end. -/
def TellsEnd : Form → Prop
  | .magic | .traceHeader | .recordHeader _ | .frame _ _ | .ipv4 | .udp => True
  | .chunkHeader | .chunk | .parameterHeader | .heartbeatInfo | .parameter _ => True
  | _ => False

/-- What a form is refused for when it is cut after so many bytes. -/
def cutError : Form → Nat → DecodeError
  | .traceHeader, k => if k < 4 then .insufficientLength else .unexpectedEnd
  | _, _ => .insufficientLength

theorem cutError_of_ne {form : Form} (h : form ≠ .traceHeader) (k : Nat) :
    form.cutError k = .insufficientLength := by
  cases form with
  | traceHeader => exact absurd rfl h
  | _ => rfl

theorem delimited_decode {form : Form} (hform : form.TellsEnd) (h : form ≠ .traceHeader) :
    form.decode.Delimited := by
  cases form with
  | traceHeader => exact absurd rfl h
  | magic => exact Trace.delimited_decodeMagic.map _
  | recordHeader order => exact (Trace.RecordHeader.fixed_decode order).delimited.map _
  | frame order linkType => exact (Trace.Frame.delimited_decode order linkType).map _
  | ipv4 => exact Ip.V4Packet.delimited_decode.map _
  | udp => exact Udp.Datagram.delimited_decode.map _
  | chunkHeader => exact Sctp.ChunkHeader.fixed_decode.delimited.map _
  | chunk => exact Sctp.Chunk.delimited_decode.map _
  | parameterHeader => exact Sctp.ParameterHeader.fixed_decode.delimited.map _
  | heartbeatInfo => exact Sctp.HeartbeatInfo.delimited_decode.map _
  | parameter registry => exact (Sctp.Parameter.delimited_decode registry).map _
  | linkLayer | ethernet | internetLayer | ipv6 | transportLayer | tcp | sctp | chunks |
    parameters => exact hform.elim

/-- A form that tells its own end is decoded from a prefix of its input. Whatever follows is left as
it is and makes no difference, and every shorter prefix is refused as cut. -/
theorem decode_self_delimiting {form : Form} {bytes rest : Bytes} {value : Decoded}
    (hform : form.TellsEnd) (h : form.decode.run bytes = .ok (value, rest)) :
    rest <:+ bytes ∧ (∀ more, form.decode.run (bytes ++ more) = .ok (value, rest ++ more)) ∧
      ∀ k < bytes.length - rest.length,
        form.decode.run (bytes.take k) = .error (form.cutError k) := by
  by_cases hheader : form = .traceHeader
  · subst hheader
    obtain ⟨header, hrun, rfl⟩ := map_eq_ok h
    obtain ⟨hsuffix, hmore, hcut⟩ := Trace.Header.front_of_run hrun
    refine ⟨hsuffix, fun more => run_map_of_ok (hmore more) _, ?_⟩
    intro k hk
    exact map_eq_error_iff.mpr (hcut k hk)
  · simp only [cutError_of_ne hheader]
    exact (delimited_decode hform hheader).front_of_run h

/-- A record with a frame of a type that is kept as it is: its decoder takes all there is. -/
def arpRecord : Bytes := [
  1, 0, 0, 0, 2, 0, 0, 0, 18, 0, 0, 0, 60, 0, 0, 0,
  0, 22, 227, 25, 39, 21, 0, 4, 118, 150, 123, 218, 8, 6, 0, 1, 8, 0]

theorem decode_self_delimiting_arpRecord :
    let form := Form.frame .littleEndian .ethernet
    ∃ value, form.TellsEnd ∧ form.decode.run (arpRecord ++ [0xaa]) = .ok (value, [0xaa]) ∧
      form.decode.run (arpRecord ++ [0xaa] ++ [0xbb]) = .ok (value, [0xaa] ++ [0xbb]) ∧
      form.decode.run ((arpRecord ++ [0xaa]).take 33) = .error .insufficientLength := by
  intro form
  have hform : form.TellsEnd := trivial
  obtain ⟨value, hrun⟩ : ∃ value, form.decode.run (arpRecord ++ [0xaa]) = .ok (value, [0xaa]) :=
    ⟨_, rfl⟩
  obtain ⟨_, hmore, hcut⟩ := decode_self_delimiting hform hrun
  exact ⟨value, hform, hrun, hmore [0xbb], hcut 33 (by decide)⟩

end Form
end PacketCapture
