/-! # Causes of failure

Decoding fails for one of six causes. A fault of the byte source and the name of a parsing rule are
carried along; everything else is told apart by the constructor alone.
-/
namespace PacketCapture

/-- Kinds of fault a byte source may report. Reading tells only `interrupted` apart from the rest, so
that any kind without a name here is `other`. -/
inductive FaultKind
  | interrupted
  | wouldBlock
  | timedOut
  | brokenPipe
  | unexpectedEof
  | invalidData
  | permissionDenied
  | other
  deriving DecidableEq, Repr

structure Fault where
  kind : FaultKind
  message : String
  deriving DecidableEq, Repr

inductive DecodeError
  | notATrace
  | insufficientLength
  /-- The trace header is cut after its magic number. -/
  | unexpectedEnd
  /-- A decoder met a tag or version of another kind of record. -/
  | typeMismatch
  | source (fault : Fault)
  | rule (name : String)
  deriving DecidableEq, Repr

def DecodeError.message : DecodeError → String
  | .notATrace => "not a pcap file"
  | .insufficientLength => "insufficient length"
  | .unexpectedEnd => "unexpected end of input"
  | .typeMismatch => "incorrect packet type"
  | .source fault => "read error: " ++ fault.message
  | .rule name => "parser error: " ++ name

/-- A parsing rule that can fail; reaching the end of input is set apart from the named ones. -/
inductive ParsingRule
  | endOfInput
  | named (name : String)
  deriving DecidableEq, Repr

def ParsingRule.error : ParsingRule → DecodeError
  | .endOfInput => .insufficientLength
  | .named name => .rule name

def ParsingRule.enclose (_ : ParsingRule) (inner : DecodeError) : DecodeError := inner

inductive ParsingStop
  | incomplete
  | error (cause : DecodeError)
  | failure (cause : DecodeError)
  deriving DecidableEq, Repr

/-- Records are bounded byte strings, so want of input is insufficient length. -/
def ParsingStop.cause : ParsingStop → DecodeError
  | .incomplete => .insufficientLength
  | .error cause | .failure cause => cause

end PacketCapture
