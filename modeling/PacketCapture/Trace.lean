import PacketCapture.Trace.Reader

/-! # Traces

Decoding a whole source gives its trace, or the part of it before the first failure.
-/
namespace PacketCapture

structure Trace where
  header : Trace.Header
  frames : List Trace.Frame
  deriving DecidableEq, Repr

structure PartialTrace where
  /-- Absent if the header could not be decoded. -/
  header : Option Trace.Header
  frames : List Trace.Frame
  error : DecodeError
  deriving DecidableEq, Repr

def PartialTrace.message (found : PartialTrace) : String :=
  "trace decoding failed after " ++ toString found.frames.length ++ " frames: " ++
    found.error.message

namespace Trace

/-- The frames before the first error, and that error. -/
def splitItems : List (Except DecodeError Frame) → List Frame × Option DecodeError
  | [] => ([], none)
  | .error error :: _ => ([], some error)
  | .ok frame :: items =>
    let (frames, error) := splitItems items
    (frame :: frames, error)

def ofSource {σ : Type} [FiniteSource σ] (source : σ) : Except PartialTrace Trace × σ :=
  match Reader.ofSource defaultCapacity source with
  | .error failure =>
    (.error { header := none, frames := [], error := failure.error }, failure.source)
  | .ok reader =>
    let (items, after) := reader.collect
    match splitItems items with
    | (frames, none) => (.ok { header := reader.header, frames }, after.source)
    | (frames, some error) =>
      (.error { header := some reader.header, frames, error }, after.source)

end Trace
end PacketCapture
