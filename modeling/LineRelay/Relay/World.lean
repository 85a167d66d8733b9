/-
# `World` — the state of a relay and of what surrounds it

The registry, the peers with the two sides of their connections, the
tasks, the clock and the shutdown signal; and, as a record of the past,
the samples and the journal.  Peers and tasks are never removed from
their lists, so a position is a name for good.  Whether a peer's
connection is still kept is another matter: it is as long as someone
holds the peer.
-/
import LineRelay.Relay.Task

namespace LineRelay

/-- A peer, which has the write side of its connection, and the read side. -/
structure Connection where
  peer : Peer
  inlet : Inlet
deriving DecidableEq

/-- A sample of how many peers are online, and when it was published. -/
structure Sample where
  time : Nat
  online : Nat
deriving DecidableEq

/-- A relay and what surrounds it: the milliseconds on the clock, whether the
relay is told to shut down, the registry, the peers and the tasks by their
keys, and the samples published and all that has happened so far, in their
order. -/
structure World where
  now : Nat := 0
  shutdown : Bool := false
  registry : Registry := {}
  connections : List Connection := []
  tasks : List Task := []
  samples : List Sample := []
  journal : List Note := []
deriving DecidableEq

namespace World

def peer? (w : World) (k : PeerKey) : Option Peer := w.connections[k]?.map (·.peer)

def note (w : World) (n : Note) : World := { w with journal := w.journal ++ [n] }

def setPeer (w : World) (k : PeerKey) (p : Peer) : World :=
  { w with connections := w.connections.modify k fun c => { c with peer := p } }

def setInlet (w : World) (k : PeerKey) (i : Inlet) : World :=
  { w with connections := w.connections.modify k fun c => { c with inlet := i } }

def setTask (w : World) (t : TaskKey) (task : Task) : World :=
  { w with tasks := w.tasks.set t task }

/-- Close a peer, and tell whether this call did it. -/
def closePeer (w : World) (k : PeerKey) : World × Bool :=
  match w.peer? k with
  | none => (w, false)
  | some p =>
      let (p, first) := p.close
      (w.setPeer k p, first)

def connect (w : World) (c : Connection) : World :=
  { w with connections := w.connections ++ [c] }

def spawn (w : World) (t : Task) : World := { w with tasks := w.tasks ++ [t] }

/-! ## Who holds a peer -/

/-- The peers in a reply that its caller has not looked at. -/
def heldByReply (w : World) (t : Ticket) : List PeerKey :=
  match w.registry.answer? t with
  | some (.ok (.removed (some m))) => [m.handle]
  | some (.ok (.members ms)) => ms.map (·.handle)
  | _ => []

def heldByCommand : Command → List PeerKey
  | .register m => [m.handle]
  | _ => []

def heldByCall (w : World) : Call → List PeerKey
  | .entering c => heldByCommand c
  | .waiting t => w.heldByReply t

/-- The peers that a broadcast holds: of its targets those it has not done with. -/
def heldByBroadcast (w : World) (b : Broadcast) : List PeerKey :=
  match b.stage with
  | .asking call => w.heldByCall call
  | .sending peer _ rest => peer :: rest
  | .pruning peer call rest => peer :: rest ++ w.heldByCall call
  | .finished => []

def heldByTask (w : World) : Task → List PeerKey
  | .send _ (.ended _) => []
  | .send peer _ => [peer]
  | .awaitClose peer finished => if finished then [] else [peer]
  | .broadcast b => w.heldByBroadcast b
  | .worker wk =>
      match wk.stage with
      | .relaying b => wk.peer :: w.heldByBroadcast b
      | .finished _ => []
      | _ => [wk.peer]
  | .monitor _ | .server _ => []

/-- The peers that the registry holds: the members, and those in its queue. -/
def heldByRegistry (w : World) : List PeerKey :=
  w.registry.membership.members.map (·.handle)
    ++ w.registry.queue.flatMap fun q => heldByCommand q.2

/-- Whether anyone in the relay holds a peer.  If not, its connection is
let go. -/
def isHeld (w : World) (k : PeerKey) : Bool :=
  w.heldByRegistry.contains k || w.tasks.any fun t => (w.heldByTask t).contains k

end World

end LineRelay
