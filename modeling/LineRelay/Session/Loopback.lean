/-
# Clients over the loopback interface

A relay listens on the loopback address and some clients connect to it,
one after the other.  They speak in rounds: in each, one client writes
some bytes and may then close its writing side, which makes the relay
drop it.  In the end all clients close, in order, the relay is shut
down, and what each client has received is looked at.
-/
import LineRelay.Net.Host
import LineRelay.Relay.Run

namespace LineRelay.Loopback

/-- What one client does in a round: it writes some bytes, and may then close
its writing side. -/
structure Round where
  client : Nat
  data : Bytes
  closes : Bool

/-- What came of a session: for each client the peer it became, its address
and what it received, and whether the server ended as it should. -/
structure Outcome where
  peers : List Identity
  addresses : List String
  received : List Bytes
  ended : Bool

def serverKey : TaskKey := 0

def listening (limit : Option UInt64) : World :=
  (({} : World).spawn
    (.server { listen := "127.0.0.1:0", maxLine := limit, interval := 1000 })).settle

/-- The address of the client with an index: each has a port of its own. -/
def address (i : Nat) : String := s!"127.0.0.1:{40001 + i}"

/-- So many clients connect, the one with index `i` first. -/
def connect (i : Nat) : Nat → World → World
  | 0, w => w
  | n + 1, w =>
      connect (i + 1) n
        (w.move (.arrive serverKey (.connection ⟨address i⟩ {} .silent))).settle

def close (state : World × List Nat) (client : Nat) : World × List Nat :=
  if state.2.contains client then
    ((state.1.move (.supply client .ended)).settle, state.2.filter (· ≠ client))
  else state

def write (state : World × List Nat) (client : Nat) (data : Bytes) : World × List Nat :=
  if state.2.contains client && !data.isEmpty then
    ((state.1.move (.supply client (.data data))).settle, state.2)
  else state

/-- One round, given the relay and the clients that are open. -/
def round (state : World × List Nat) (r : Round) : World × List Nat :=
  let state := write state r.client r.data
  if r.closes then close state r.client else state

/-- A session on a host: why no client could connect, or what came of it. -/
def run (host : Host) (clients : Nat) (limit : Option UInt64) (rounds : List Round) :
    Except String Outcome :=
  match clients, host.connect with
  | _ + 1, .error cause => .error cause
  | _, _ =>
      let stillOpen := List.range clients
      let (w, stillOpen) := rounds.foldl round (connect 0 clients (listening limit), stillOpen)
      let w := (stillOpen.foldl close (w, stillOpen)).1
      let w := (w.move .shutdown).settle
      .ok {
        peers := w.connections.map (·.peer.info)
        addresses := (List.range clients).map address
        received := w.connections.map (·.peer.outlet.transport.received)
        ended := w.hasEnded serverKey }

end LineRelay.Loopback
