/-
# The tasks of a relay

Each activity is a value that says where it stands: what it waits for,
or what it will do at its next turn.  A broadcast is an activity of its
own, whether a worker makes it for a line it has read or someone else
asks for it.
-/
import LineRelay.Relay.Journal

namespace LineRelay

/-- A request to the registry, as its caller sees it: the command is about to
enter the queue, or the reply is awaited. -/
inductive Call where
  | entering (c : Command)
  | waiting (t : Ticket)
deriving DecidableEq

/-! ## Broadcasts -/

/-- Where a broadcast stands.  It asks for its targets, sends to one after
the other, and removes those it has closed, since it could not write to them;
`rest` are the targets that come later. -/
inductive BroadcastStage where
  | asking (call : Call)
  | sending (peer : PeerKey) (state : SendState) (rest : List PeerKey)
  | pruning (peer : PeerKey) (call : Call) (rest : List PeerKey)
  | finished
deriving DecidableEq

/-- One line on its way to all peers but its sender, the `serial`-th of its
task.  The targets are the peers that its snapshot listed, and the attempts
tell what came of the sends so far, in their order. -/
structure Broadcast where
  serial : Nat
  sender : PeerId
  line : Line
  targets : List PeerKey
  attempts : List Attempt
  stage : BroadcastStage
deriving DecidableEq

/-- What a broadcast reports: to how many peers the line was written, and how
many were removed, since it could not be written to them. -/
structure Tally where
  delivered : Nat
  pruned : Nat
deriving DecidableEq

namespace Broadcast

/-- A broadcast that has not begun. -/
def begin (serial : Nat) (sender : PeerId) (line : Line) : Broadcast where
  serial := serial
  sender := sender
  line := line
  targets := []
  attempts := []
  stage := .asking (.entering (.snapshot (some sender)))

def isDelivery (a : Attempt) : Bool := a.outcome = .sent

/-- Whether an attempt ended in a failure of the transport. -/
def isPrune (a : Attempt) : Bool :=
  match a.outcome with
  | .failed _ => true
  | _ => false

/-- What the broadcast reports, as far as it has come. -/
def report (b : Broadcast) : Tally where
  delivered := b.attempts.countP isDelivery
  pruned := b.attempts.countP isPrune

def isOver (b : Broadcast) : Bool := b.stage = .finished

end Broadcast

/-! ## Workers -/

/-- Where a worker stands: it registers its peer, reads, broadcasts a line,
unregisters its peer, or has ended. -/
inductive WorkerStage where
  | registering (call : Call)
  | reading
  | relaying (b : Broadcast)
  | leaving (reason : Reason) (call : Call)
  | finished (reason : Reason)
deriving DecidableEq

/-- The worker of one connection: it reads the lines of its peer and
broadcasts each of them. -/
structure Worker where
  peer : PeerKey
  reader : Framer
  linesRead : Nat
  stage : WorkerStage
deriving DecidableEq

/-! ## Monitors -/

/-- Where a monitor stands: it sleeps until the clock shows the given time,
asks how many peers are online, or has ended. -/
inductive MonitorStage where
  | sleeping (due : Nat)
  | sampling (call : Call)
  | finished
deriving DecidableEq

/-- A monitor: it samples the number of peers again and again, with so many
milliseconds between two samples. -/
structure Monitor where
  interval : Nat
  stage : MonitorStage
deriving DecidableEq

/-! ## Servers -/

/-- What a listener hands over: a connection from an address, with its two
sides, or a failure to accept one. -/
inductive Arrival where
  | connection (addr : AddressLabel) (transport : Transport) (inlet : Inlet)
  | failure (f : Failure)
deriving DecidableEq

/-- Where a server stands.  Once it accepts connections it has a monitor, and
it waits for that before it ends. -/
inductive ServerStage where
  | starting
  | accepting (monitor : TaskKey)
  | joining (monitor : TaskKey)
  | finished
deriving DecidableEq

/-- A server: it accepts connections and gives each a worker and the next
number.  What it listens on is there for the log; what its listener has ready
stands in order. -/
structure Server where
  listen : String
  maxLine : Option UInt64
  interval : Nat
  nextId : UInt64 := 1
  arrivals : List Arrival := []
  stage : ServerStage := .starting
deriving DecidableEq

/-! ## Tasks -/

/-- An activity of the relay, or of one who uses its parts: a send to a peer,
a wait for the close signal of one, a broadcast, a worker, a monitor or a
server. -/
inductive Task where
  | send (peer : PeerKey) (state : SendState)
  | awaitClose (peer : PeerKey) (finished : Bool)
  | broadcast (b : Broadcast)
  | worker (wk : Worker)
  | monitor (m : Monitor)
  | server (s : Server)
deriving DecidableEq

/-- What a task that has ended yields. -/
inductive TaskValue where
  | sent (outcome : SendOutcome)
  | closed
  | report (r : Tally)
  | left (reason : Reason)
  | stopped
deriving DecidableEq

/-- The value of a task, once it has ended. -/
def Task.value? : Task → Option TaskValue
  | .send _ (.ended outcome) => some (.sent outcome)
  | .send .. => none
  | .awaitClose _ finished => if finished then some .closed else none
  | .broadcast b => if b.isOver then some (.report b.report) else none
  | .worker wk =>
      match wk.stage with
      | .finished reason => some (.left reason)
      | _ => none
  | .monitor m => if m.stage = .finished then some .stopped else none
  | .server s => if s.stage = .finished then some .stopped else none

def Task.isOver (t : Task) : Bool := t.value?.isSome

end LineRelay
