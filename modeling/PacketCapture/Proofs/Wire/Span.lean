import PacketCapture.Wire.Bytes

/-! # Stretches of a byte string

A span is a place in a byte string and a size. What stands there does not depend on what is in front
or behind.
-/
namespace PacketCapture

structure Span where
  start : Nat
  size : Nat
  deriving DecidableEq, Repr

namespace Span

def stop (span : Span) : Nat := span.start + span.size

def cut (span : Span) (bytes : Bytes) : Bytes := (bytes.drop span.start).take span.size

def shift (n : Nat) (span : Span) : Span := ⟨n + span.start, span.size⟩

@[simp] theorem size_shift (n : Nat) (span : Span) : (span.shift n).size = span.size := rfl

@[simp] theorem start_shift (n : Nat) (span : Span) : (span.shift n).start = n + span.start := rfl

@[simp] theorem stop_shift (n : Nat) (span : Span) : (span.shift n).stop = n + span.stop := by
  simp [stop, Nat.add_assoc]

@[simp] theorem shift_zero (span : Span) : span.shift 0 = span := by
  simp [shift]

variable {span : Span}

theorem cut_of_append {before piece : Bytes} (after : Bytes) (hstart : before.length = span.start)
    (hsize : piece.length = span.size) : span.cut (before ++ (piece ++ after)) = piece := by
  rw [cut, ← hstart, ← hsize, List.drop_left, List.take_left]

theorem cut_shift {bytes : Bytes} (before after : Bytes) (h : span.stop ≤ bytes.length) :
    (span.shift before.length).cut (before ++ (bytes ++ after)) = span.cut bytes := by
  have hstart : span.start ≤ bytes.length := Nat.le_of_add_right_le h
  have hsize : span.size ≤ (bytes.drop span.start).length := by
    rw [List.length_drop]
    unfold stop at h
    omega
  simp only [cut, start_shift, size_shift]
  rw [← List.drop_drop, List.drop_left, List.drop_append_of_le_length hstart,
    List.take_append_of_le_length hsize]

end Span
end PacketCapture
