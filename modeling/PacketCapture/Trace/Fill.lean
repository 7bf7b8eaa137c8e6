import PacketCapture.Trace.Buffer
import PacketCapture.Trace.ByteSource

/-! # Filling

Filling a buffer reads until a wanted number of bytes is held, the source ends or it fails. No more
than the missing bytes are ever asked for, and an interrupted read is repeated.
-/
namespace PacketCapture.Trace

structure Filled (σ : Type) where
  fault : Option Fault
  buffer : Buffer
  source : σ

namespace Buffer
variable {σ : Type}

def fill [ByteSource σ] (needed : Nat) (buffer : Buffer) (source : σ) : Filled σ :=
  if buffer.size < needed then
    let roomy := buffer.makeRoom needed
    match h : ByteSource.read source (min (needed - roomy.size) roomy.space) with
    | (.error fault, source) =>
      if fault.kind = .interrupted then fill needed roomy source
      else { fault := some fault, buffer := roomy, source }
    | (.ok [], source) => { fault := none, buffer := roomy, source }
    | (.ok (b :: bytes), source) =>
      have fits := Nat.le_trans (ByteSource.length_le_of_read h) (Nat.min_le_right _ _)
      fill needed (roomy.append (b :: bytes) fits) source
  else { fault := none, buffer, source }
termination_by needed - buffer.size + ByteSource.interruptions source
decreasing_by
  · rename_i hkind
    have := ByteSource.interruptions_lt_of_fault h hkind
    simp only [size_makeRoom]
    omega
  · have := ByteSource.interruptions_le_of_read h
    simp only [roomy, size_append, size_makeRoom, List.length_cons]
    omega

/-- Filling never holds or finds more bytes than were held and still to come. -/
theorem size_fill_le [FiniteSource σ] (needed : Nat) (buffer : Buffer) (source : σ) :
    (buffer.fill needed source).buffer.size +
        FiniteSource.remaining (buffer.fill needed source).source ≤
      buffer.size + FiniteSource.remaining source := by
  fun_induction fill needed buffer source with
  | case1 buffer source _ roomy fault after h _ ih =>
    have := FiniteSource.remaining_le_of_fault h
    simp only [roomy, size_makeRoom] at ih ⊢
    omega
  | case2 buffer source _ roomy fault after h _ =>
    have := FiniteSource.remaining_le_of_fault h
    simp only [roomy, size_makeRoom]
    omega
  | case3 buffer source _ roomy after h =>
    have := FiniteSource.remaining_le_of_read h
    simp only [roomy, size_makeRoom]
    omega
  | case4 buffer source _ roomy b bytes after h _ ih =>
    have := FiniteSource.remaining_le_of_read h
    simp only [roomy, size_append, size_makeRoom] at ih ⊢
    omega
  | case5 => exact Nat.le_refl _

end Buffer
end PacketCapture.Trace
