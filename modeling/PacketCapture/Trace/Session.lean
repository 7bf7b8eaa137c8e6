import PacketCapture.Trace.Reader
import PacketCapture.Trace.Source

/-! # Sessions

A session applies operations to one reader and notes, after each, the answer, the bytes decoded and
the bytes the source has served.
-/
namespace PacketCapture.Trace

inductive Operation
  | header
  | next
  | collect
  deriving DecidableEq, Repr

inductive Answer
  | header (header : Header)
  | item (item : Option (Except DecodeError Frame))
  | items (items : List (Except DecodeError Frame))

structure Step where
  answer : Answer
  consumed : Nat
  served : Nat

namespace Reader

def perform {σ : Type} [FiniteSource σ] (reader : Reader σ) : Operation → Answer × Reader σ
  | .header => (.header reader.header, reader)
  | .next => let (item, reader) := reader.next; (.item item, reader)
  | .collect => let (items, reader) := reader.collect; (.items items, reader)

def session (reader : Reader Source) : List Operation → List Step
  | [] => []
  | operation :: operations =>
    let (answer, reader) := reader.perform operation
    { answer, consumed := reader.consumed, served := reader.source.served }
      :: reader.session operations

end Reader
end PacketCapture.Trace
