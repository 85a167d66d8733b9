/-
# Runs

A run is a list of moves: turns of the tasks and of the registry, in any
order, and what the surroundings do in between.  A move that is not
possible changes nothing, so every list is a run, and what holds after
every list of moves holds whatever the order in which the tasks go on.

One order is used to carry the program out: everyone who can go on takes
a turn, again and again, until nobody can.
-/
import LineRelay.Relay.Turn

namespace LineRelay

/-- One move.  The registry serves a command, and a snapshot lists by the
rank; or a task takes a turn.  The others are made by the surroundings.  The
network supplies something to read, ends a stall of a write side or has one
more answer ready there, and a listener has something ready.  The relay is
told to shut down, time passes, or the registry stops.  And someone makes a
peer of a connection that no server accepted, starts a task, closes a peer,
fires its close signal or sends the registry a command. -/
inductive Move where
  | serve (rank : PeerId → Nat)
  | turn (task : TaskKey)
  | supply (peer : PeerKey) (d : Delivery)
  | wake (peer : PeerKey)
  | answer (peer : PeerKey) (a : WriteAnswer)
  | arrive (server : TaskKey) (a : Arrival)
  | shutdown
  | elapse (ms : Nat)
  | stopRegistry
  | connect (c : Connection)
  | spawn (t : Task)
  | close (peer : PeerKey)
  | fire (peer : PeerKey)
  | request (c : Command)

namespace World

def arrive (w : World) (server : TaskKey) (a : Arrival) : World :=
  match w.tasks[server]? with
  | some (.server s) => w.setTask server (.server { s with arrivals := s.arrivals ++ [a] })
  | _ => w

def supply (w : World) (k : PeerKey) (d : Delivery) : World :=
  match w.connections[k]? with
  | some c => w.setInlet k (c.inlet.supply d)
  | none => w

def onPeer (w : World) (k : PeerKey) (f : Peer → Peer) : World :=
  match w.peer? k with
  | some p => w.setPeer k (f p)
  | none => w

def onTransport (w : World) (k : PeerKey) (f : Transport → Transport) : World :=
  w.onPeer k fun p => { p with outlet := { p.outlet with transport := f p.outlet.transport } }

def wake (w : World) (k : PeerKey) : World := w.onTransport k Transport.wake

def answer (w : World) (k : PeerKey) (a : WriteAnswer) : World :=
  w.onTransport k fun t => { t with writes := t.writes ++ [a] }

/-- Send a command to the registry, if it can enter now. -/
def request (w : World) (c : Command) : World :=
  if w.registry.admits then { w with registry := (w.registry.request c).1 } else w

def move (w : World) : Move → World
  | .serve rank => (w.serve rank).getD w
  | .turn task => (w.turn task).getD w
  | .supply k d => w.supply k d
  | .wake k => w.wake k
  | .answer k a => w.answer k a
  | .arrive server a => w.arrive server a
  | .shutdown => { w with shutdown := true }
  | .elapse ms => { w with now := w.now + ms }
  | .stopRegistry => { w with registry := w.registry.stop }
  | .connect c => w.connect c
  | .spawn t => w.spawn t
  | .close k => (w.closePeer k).1
  | .fire k => w.onPeer k Peer.fire
  | .request c => w.request c

/-- The world after a run. -/
def run (w : World) (moves : List Move) : World := moves.foldl move w

/-- Whether nobody can go on. -/
def isQuiet (w : World) : Bool :=
  w.registry.queue.isEmpty && (List.range w.tasks.length).all fun t => (w.turn t).isNone

/-! ## Carrying a relay out -/

/-- The order in which snapshots list the peers here: by their ids. -/
def byId (id : PeerId) : Nat := id.raw.toNat

/-- Serve up to `n` commands. -/
def serveSome : Nat → World → World
  | 0, w => w
  | n + 1, w =>
      match w.serve byId with
      | none => w
      | some w => serveSome n w

/-- A turn for each of the tasks that can go on; the flag says whether
there was one. -/
def turns : List TaskKey → World → World × Bool
  | [], w => (w, false)
  | t :: ts, w =>
      match w.turn t with
      | none => turns ts w
      | some w => ((turns ts w).1, true)

/-- A turn for everyone.  `none` if nobody can go on. -/
def sweep (w : World) : Option World :=
  let (next, moved) := turns (List.range w.tasks.length) (serveSome w.registry.queue.length w)
  if moved || !w.registry.queue.isEmpty then some next else none

/-- Sweep up to a number of times. -/
def settleWithin : Nat → World → World
  | 0, w => w
  | n + 1, w =>
      match w.sweep with
      | none => w
      | some w => settleWithin n w

def total {α : Type} (size : α → Nat) : List α → Nat
  | [] => 0
  | a :: as => size a + total size as

/-- What a stream has ready, in bytes and reads. -/
def inletSize (i : Inlet) : Nat :=
  total (fun
    | .data bs => bs.length + 1
    | _ => 1) i.items

/-- What a task has ready: what it has read and not used, and what
waits to be accepted. -/
def taskSize : Task → Nat
  | .worker wk => wk.reader.unread.length
  | .server s =>
      total (fun
        | .connection _ _ inlet => inletSize inlet + 1
        | .failure _ => 1) s.arrivals
  | _ => 0

/-- More turns than can be taken before everyone waits: each line that
is ready, and each task, may lead to one broadcast, in which each peer
costs a handful of turns. -/
def effort (w : World) : Nat :=
  let ready := total (fun c => inletSize c.inlet) w.connections + total taskSize w.tasks
  (ready + w.connections.length + w.tasks.length + 2)
    * (8 * (w.connections.length + ready) + 32)

/-- Go on until nobody can. -/
def settle (w : World) : World := settleWithin w.effort w

/-! ## Time -/

/-- When a task that sleeps wants to wake. -/
def dueOf : Task → Option Nat
  | .monitor ⟨_, .sleeping due⟩ => some due
  | _ => none

/-- The first time up to `limit` and after now at which a task wants to wake. -/
def nextDue (w : World) (limit : Nat) : Option Nat :=
  ((w.tasks.filterMap dueOf).filter fun due => w.now < due && due ≤ limit).min?

/-- Let the clock go to `limit`, and everyone go on at each time at which
one of them wanted to wake, of which there are at most `n`. -/
def advanceWithin (limit : Nat) : Nat → World → World
  | 0, w => settle { w with now := limit }
  | n + 1, w =>
      match w.nextDue limit with
      | none => settle { w with now := limit }
      | some due => advanceWithin limit n (settle { w with now := due })

def advance (w : World) (ms : Nat) : World := advanceWithin (w.now + ms) ms w

end World

end LineRelay
