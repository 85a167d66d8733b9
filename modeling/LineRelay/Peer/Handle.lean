/-
# `Peer` — what all who hold a peer share

A peer is written to by many, one at a time: a lock hands the outlet to
the senders in the order in which they came.  It is closed once, by the
first call to do so; closing fires a close signal, which may also fire
on its own or with the shutdown of the whole relay.  From then on no
sender writes: one that has the outlet gives it up at its next turn, one
that is handed it later does so at once.

A failed send does not close the peer.  Whoever sees the failure decides.
-/
import LineRelay.Peer.Identity
import LineRelay.Peer.Outlet

namespace LineRelay

/-- Who waits for an outlet or has it. -/
abbrev TaskKey := Nat

/-- How a send ended: the wire is written and flushed, the peer was closed,
before or meanwhile, or the transport failed. -/
inductive SendOutcome where
  | sent
  | closed
  | failed (f : Failure)
deriving DecidableEq

/-- What a send that has not gone through is told. -/
def SendOutcome.message? : SendOutcome → Option String
  | .sent => none
  | .closed => some "peer is closed"
  | .failed f => some f.message

/-- Where a send stands: it has not looked at the peer yet, it waits for the
outlet, it has the outlet and waits for the transport, or it is over. -/
inductive SendState where
  | fresh (wire : Bytes)
  | queued (wire : Bytes)
  | writing (stage : SendStage)
  | ended (outcome : SendOutcome)
deriving DecidableEq

/-- The shared state of a peer.  The first of its senders has the outlet, and
the others wait for it in order.  It is closed by a call; its own close
signal may have fired, and `underShutdown` says whether the shutdown of the
relay fires that too. -/
structure Peer where
  info : Identity
  outlet : Outlet
  senders : List TaskKey := []
  closed : Bool := false
  fired : Bool := false
  underShutdown : Bool := true
deriving DecidableEq

namespace Peer

/-- Whether the close signal has fired, given whether the relay is shut down. -/
def signalled (p : Peer) (shutdown : Bool) : Bool := p.fired || (p.underShutdown && shutdown)

def isClosed (p : Peer) (shutdown : Bool) : Bool := p.closed || p.signalled shutdown

def fire (p : Peer) : Peer := { p with fired := true }

/-- Close the peer, and tell whether this call did it.  The transport is
shut down unless a sender has the outlet; that sender lets it go when it
sees the signal. -/
def close (p : Peer) : Peer × Bool :=
  if p.closed then (p, false)
  else
    let outlet :=
      if p.senders.isEmpty then { p.outlet with transport := p.outlet.transport.shutdown }
      else p.outlet
    ({ p with outlet, closed := true, fired := true }, true)

/-- The first sender lets the outlet go, which hands it to the next. -/
def release (p : Peer) : Peer := { p with senders := p.senders.tail }

/-- Where a send stands that has the outlet and came this far. -/
def advanced (p : Peer) (step : Outlet × Progress) : Peer × SendState :=
  let p := { p with outlet := step.1 }
  match step.2 with
  | .done => (p.release, .ended .sent)
  | .failed f => (p.release, .ended (.failed f))
  | .stalled stage => (p, .writing stage)

/-- One turn of the sender `me`, which ends where it has to wait or when
the send is over.  `none` if it still has to wait. -/
def sendTurn (p : Peer) (me : TaskKey) (shutdown : Bool) : SendState → Option (Peer × SendState)
  | .fresh wire =>
      if p.isClosed shutdown then some (p, .ended .closed)
      else if p.senders.isEmpty then
        some ({ p with senders := [me] }.advanced (p.outlet.send wire))
      else some ({ p with senders := p.senders ++ [me] }, .queued wire)
  | .queued wire =>
      if p.senders.head? ≠ some me then none
      else if p.signalled shutdown then some (p.release, .ended .closed)
      else some (p.advanced (p.outlet.send wire))
  | .writing stage =>
      if p.signalled shutdown then some (p.release, .ended .closed)
      else if p.outlet.stalls stage then none
      else some (p.advanced (p.outlet.resume stage))
  | .ended _ => none

/-- The peer as a diagnosis shows it. -/
def inspect (p : Peer) (shutdown : Bool) : String :=
  "PeerHandle \x7b id: " ++ p.info.id.inspect ++ ", addr: " ++ p.info.addr.inspect
    ++ ", closed: " ++ (if p.isClosed shutdown then "true" else "false") ++ " \x7d"

end Peer

end LineRelay
