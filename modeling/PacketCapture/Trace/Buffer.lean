import PacketCapture.Wire.Bytes

/-! # Buffers

Bytes read and not yet consumed lie in a store of known capacity. The store is compacted when an
append has left little space, when its start has passed the middle, and when no space is left to ask
for. If that does not help it grows step by step, so that a bogus length allocates nothing before
data arrives.
-/
namespace PacketCapture.Trace

structure Buffer where
  held : Array UInt8
  /-- Room before the held bytes, left behind by consumed ones. -/
  start : Nat
  capacity : Nat
  fits : start + held.size ≤ capacity

namespace Buffer

def growthUnit : Nat := 4096

def withCapacity (capacity : Nat) : Buffer where
  held := #[]
  start := 0
  capacity := capacity
  fits := by simp

/-- A buffer that holds `bytes`, at least large enough for them. -/
def ofBytes (capacity : Nat) (bytes : Bytes) : Buffer where
  held := bytes.toArray
  start := 0
  capacity := max capacity bytes.length
  fits := by rw [List.size_toArray]; omega

def bytes (buffer : Buffer) : Bytes := buffer.held.toList

def size (buffer : Buffer) : Nat := buffer.held.size

def space (buffer : Buffer) : Nat := buffer.capacity - (buffer.start + buffer.size)

def front (buffer : Buffer) (n : Nat) : Bytes := (buffer.held.extract 0 n).toList

def compact (buffer : Buffer) : Buffer where
  held := buffer.held
  start := 0
  capacity := buffer.capacity
  fits := by
    have hfits := buffer.fits
    omega

def compactIf (buffer : Buffer) (p : Prop) [Decidable p] : Buffer :=
  if p then buffer.compact else buffer

/-- Doubles the capacity, or what is small to the growth unit, but not beyond `needed`. -/
def grow (buffer : Buffer) (needed : Nat) : Buffer where
  held := buffer.held
  start := buffer.start
  capacity := max buffer.capacity (min needed (max (buffer.capacity * 2) growthUnit))
  fits := by
    have hfits := buffer.fits
    omega

/-- Compacts a full store, and grows it if that does not help. -/
def makeRoom (buffer : Buffer) (needed : Nat) : Buffer :=
  if buffer.space = 0 then
    let buffer := buffer.compact
    if buffer.space = 0 then buffer.grow needed else buffer
  else buffer

def extend (buffer : Buffer) (bytes : Bytes) (h : bytes.length ≤ buffer.space) : Buffer where
  held := buffer.held ++ bytes
  start := buffer.start
  capacity := buffer.capacity
  fits := by
    have hfits := buffer.fits
    simp only [space, size] at h
    rw [← Array.length_toList, Array.toList_appendList, List.length_append, Array.length_toList]
    omega

/-- The store is compacted when less space is left than what it holds and what was appended. -/
def append (buffer : Buffer) (bytes : Bytes) (h : bytes.length ≤ buffer.space) : Buffer :=
  let filled := buffer.extend bytes h
  filled.compactIf (filled.space < filled.size + bytes.length)

def drop (buffer : Buffer) (n : Nat) : Buffer where
  held := buffer.held.extract n buffer.size
  start := buffer.start + min n buffer.size
  capacity := buffer.capacity
  fits := by
    have hfits := buffer.fits
    simp only [Array.size_extract, size]
    omega

/-- The store is compacted once its start is past the middle. -/
def consume (buffer : Buffer) (n : Nat) : Buffer :=
  let left := buffer.drop n
  left.compactIf (left.capacity / 2 < left.start)

theorem length_bytes (buffer : Buffer) : buffer.bytes.length = buffer.size := rfl

@[simp] theorem bytes_compactIf (buffer : Buffer) (p : Prop) [Decidable p] :
    (buffer.compactIf p).bytes = buffer.bytes := by
  unfold compactIf
  split <;> rfl

@[simp] theorem bytes_makeRoom (buffer : Buffer) (needed : Nat) :
    (buffer.makeRoom needed).bytes = buffer.bytes := by
  unfold makeRoom
  dsimp only
  split
  · split <;> rfl
  · rfl

@[simp] theorem size_makeRoom (buffer : Buffer) (needed : Nat) :
    (buffer.makeRoom needed).size = buffer.size := by
  simp [← length_bytes]

/-- After room was made for more than is held, at least one byte can be asked for. -/
theorem space_makeRoom_pos {buffer : Buffer} {needed : Nat} (h : buffer.size < needed) :
    0 < (buffer.makeRoom needed).space := by
  unfold makeRoom
  dsimp only
  split
  · split
    · rename_i hs
      have hfits := buffer.fits
      simp only [space, grow, compact, size, growthUnit] at hs h ⊢
      omega
    · omega
  · omega

@[simp] theorem bytes_append (buffer : Buffer) (bytes : Bytes) (h : bytes.length ≤ buffer.space) :
    (buffer.append bytes h).bytes = buffer.bytes ++ bytes := by
  have hextend : (buffer.extend bytes h).bytes = buffer.bytes ++ bytes := by
    simp [extend, Buffer.bytes]
  simp [append, hextend]

@[simp] theorem size_append (buffer : Buffer) (bytes : Bytes) (h : bytes.length ≤ buffer.space) :
    (buffer.append bytes h).size = buffer.size + bytes.length := by
  simp [← length_bytes]

@[simp] theorem bytes_consume (buffer : Buffer) (n : Nat) :
    (buffer.consume n).bytes = buffer.bytes.drop n := by
  have hdrop : (buffer.drop n).bytes = buffer.bytes.drop n := by
    simp only [drop, bytes, size, Array.toList_extract, List.extract_eq_take_drop]
    exact List.take_of_length_le (by simp)
  simp [consume, hdrop]

@[simp] theorem size_consume (buffer : Buffer) (n : Nat) :
    (buffer.consume n).size = buffer.size - n := by
  simp [← length_bytes]

@[simp] theorem front_eq (buffer : Buffer) (n : Nat) : buffer.front n = buffer.bytes.take n := by
  simp [front, bytes]

end Buffer

end PacketCapture.Trace
