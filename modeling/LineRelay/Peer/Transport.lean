/-
# The write side of a connection

What a transport does with each write and each flush is laid down in
advance, write by write, so that any behaviour of a network can be put
in front of the relay: bytes taken in part or not at all, failures, and
stalls, which last until someone wakes the transport.  Beside the script
stands what came of it: the bytes received, the flushes that succeeded
and how often the transport was shut down.

The answer to a write depends on how many bytes are offered and never on
which, so running through the script is arithmetic on a count.
-/
import LineRelay.Bytes
import LineRelay.Failure

namespace LineRelay

/-- How a transport answers one write: it takes what is offered, but no more
than `most` bytes; it takes all; it fails; or it does not answer until it is
woken. -/
inductive WriteAnswer where
  | takes (most : Nat)
  | takesAll
  | fails (f : Failure)
  | stalls
deriving DecidableEq

/-- How a transport answers one flush. -/
inductive FlushAnswer where
  | succeeds
  | fails (f : Failure)
  | stalls
deriving DecidableEq

/-- How an attempt to write or flush ended.  `refused` says that the
transport took no byte. -/
inductive Attempted where
  | done
  | refused
  | failed (f : Failure)
  | stalled
deriving DecidableEq

/-- A transport: how it will answer, and what it has been given.  `writes`
and `flushes` are the answers to the next ones; each write after those is
answered by `writesAfter`, and each flush succeeds.  `flushed` counts the
flushes that have succeeded, and `flushedBytes` is what had been received at
the last of them. -/
structure Transport where
  writes : List WriteAnswer := []
  writesAfter : WriteAnswer := .takesAll
  flushes : List FlushAnswer := []
  received : Bytes := []
  flushed : Nat := 0
  flushedBytes : Bytes := []
  shutdowns : Nat := 0
deriving DecidableEq

namespace Transport

/-- Write until no more than `floor` of `left` bytes are left, in as many
writes as that takes: the answers not used, the bytes left, and how it
ended.  An answer that takes some bytes every time ends only when none
are left.  A write that was only interrupted is made again; one that is
interrupted every time never ends, which is a stall. -/
def push (floor : Nat) (after : WriteAnswer) :
    List WriteAnswer → Nat → List WriteAnswer × Nat × Attempted
  | [], left =>
      if left ≤ floor then ([], left, .done)
      else
        match after with
        | .takesAll | .takes (_ + 1) => ([], 0, .done)
        | .takes 0 => ([], left, .refused)
        | .fails f => ([], left, if f.kind = .interrupted then .stalled else .failed f)
        | .stalls => ([], left, .stalled)
  | answer :: answers, left =>
      if left ≤ floor then (answer :: answers, left, .done)
      else
        match answer with
        | .takesAll => push floor after answers 0
        | .takes 0 => (answers, left, .refused)
        | .takes most => push floor after answers (left - most)
        | .fails f =>
            if f.kind = .interrupted then push floor after answers left
            else (answers, left, .failed f)
        | .stalls => (answer :: answers, left, .stalled)

/-- Offer bytes until no more than `floor` of them are left: the
transport, the bytes left, and how it ended. -/
def offer (t : Transport) (floor : Nat) (bs : Bytes) : Transport × Bytes × Attempted :=
  let (writes, left, ended) := push floor t.writesAfter t.writes bs.length
  let taken := bs.length - left
  ({ t with writes, received := t.received ++ bs.take taken }, bs.drop taken, ended)

def flush (t : Transport) : Transport × Attempted :=
  match t.flushes with
  | [] => ({ t with flushed := t.flushed + 1, flushedBytes := t.received }, .done)
  | .succeeds :: flushes =>
      ({ t with flushes, flushed := t.flushed + 1, flushedBytes := t.received }, .done)
  | .fails f :: flushes => ({ t with flushes }, .failed f)
  | .stalls :: _ => (t, .stalled)

/-- Shut the transport down.  What it answers does not matter to anyone. -/
def shutdown (t : Transport) : Transport := { t with shutdowns := t.shutdowns + 1 }

/-- Whether writing would find no answer, now and until someone wakes the
transport. -/
def writeStalls (t : Transport) : Bool :=
  match t.writes, t.writesAfter with
  | [], .stalls => true
  | [], .fails f => f.kind = .interrupted
  | answer :: _, _ => answer = .stalls
  | [], _ => false

def flushStalls (t : Transport) : Bool := t.flushes.head? = some .stalls

/-- End a stall: that of the next write if there is one, else that of the
next flush. -/
def wake (t : Transport) : Transport :=
  match t.writes, t.writesAfter, t.flushes with
  | .stalls :: writes, _, _ => { t with writes }
  | [], .stalls, _ => { t with writesAfter := .takesAll }
  | _, _, .stalls :: flushes => { t with flushes }
  | _, _, _ => t

/-- What is offered and not left was received: no byte is lost, made up
or moved. -/
theorem received_offer (t : Transport) (floor : Nat) (bs : Bytes) :
    (t.offer floor bs).1.received ++ (t.offer floor bs).2.1 = t.received ++ bs := by
  simp [offer, List.append_assoc]

@[simp] theorem received_flush (t : Transport) : t.flush.1.received = t.received := by
  unfold flush; split <;> rfl

@[simp] theorem received_wake (t : Transport) : t.wake.received = t.received := by
  unfold wake; split <;> rfl

@[simp] theorem received_shutdown (t : Transport) : t.shutdown.received = t.received := rfl

end Transport

end LineRelay
