import PacketCapture.Error
import PacketCapture.Wire.Bytes

/-! # Byte sources

A byte source answers a read with some of the bytes it still has, in order, or with a fault. It may
serve fewer bytes than asked for, and no bytes mean the end; it may interrupt reads, but only
finitely often.
-/
namespace PacketCapture.Trace

abbrev ReadResult := Except Fault Bytes

class ByteSource (σ : Type) where
  read : σ → Nat → ReadResult × σ
  /-- A bound on the interrupted reads still to come. -/
  interruptions : σ → Nat
  length_le_of_read {source after : σ} {want : Nat} {bytes : Bytes} :
    read source want = (.ok bytes, after) → bytes.length ≤ want
  interruptions_le_of_read {source after : σ} {want : Nat} {bytes : Bytes} :
    read source want = (.ok bytes, after) → interruptions after ≤ interruptions source
  interruptions_lt_of_fault {source after : σ} {want : Nat} {fault : Fault} :
    read source want = (.error fault, after) → fault.kind = .interrupted →
      interruptions after < interruptions source

/-- A source with finitely many bytes. -/
class FiniteSource (σ : Type) extends ByteSource σ where
  /-- A bound on the bytes still to come. -/
  remaining : σ → Nat
  remaining_le_of_read {source after : σ} {want : Nat} {bytes : Bytes} :
    read source want = (.ok bytes, after) → bytes.length + remaining after ≤ remaining source
  remaining_le_of_fault {source after : σ} {want : Nat} {fault : Fault} :
    read source want = (.error fault, after) → remaining after ≤ remaining source

end PacketCapture.Trace
