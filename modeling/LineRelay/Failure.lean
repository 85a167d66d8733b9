/-
# `Failure` — why a read, a write or a bind did not work

A failure has a kind, and it may carry words of its own; without them
its kind speaks.  The relay never acts on the words: they reach the logs
and the error texts.
-/

namespace LineRelay

/-- The kinds of failure a transport reports. -/
inductive FailureKind where
  | brokenPipe
  | connectionReset
  | connectionAborted
  | connectionRefused
  | notConnected
  | timedOut
  | interrupted
  | wouldBlock
  | unexpectedEof
  | invalidData
  | invalidInput
  | permissionDenied
  | outOfMemory
  | writeZero
  | unsupported
  | addrInUse
  | addrNotAvailable
  | notFound
  | alreadyExists
  | other
deriving DecidableEq

def FailureKind.text : FailureKind → String
  | .brokenPipe => "broken pipe"
  | .connectionReset => "connection reset"
  | .connectionAborted => "connection aborted"
  | .connectionRefused => "connection refused"
  | .notConnected => "not connected"
  | .timedOut => "timed out"
  | .interrupted => "operation interrupted"
  | .wouldBlock => "operation would block"
  | .unexpectedEof => "unexpected end of file"
  | .invalidData => "invalid data"
  | .invalidInput => "invalid input parameter"
  | .permissionDenied => "permission denied"
  | .outOfMemory => "out of memory"
  | .writeZero => "write zero"
  | .unsupported => "unsupported"
  | .addrInUse => "address in use"
  | .addrNotAvailable => "address not available"
  | .notFound => "entity not found"
  | .alreadyExists => "entity already exists"
  | .other => "other error"

/-- A failure of a transport: what went wrong, for a program, and for a
reader where there is more to say than the kind. -/
structure Failure where
  kind : FailureKind
  detail : Option String
deriving DecidableEq

namespace Failure

/-- The words of a failure: its own, or its kind's. -/
def text (f : Failure) : String := f.detail.getD f.kind.text

/-- How an error that wraps a failure words it. -/
def message (f : Failure) : String := "I/O error: " ++ f.text

end Failure

end LineRelay
