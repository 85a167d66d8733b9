/-
# Carrying a relay over real connections

A relay that is carried out on a network lives in steps: something comes
in from outside, everyone goes on until all wait, and then the carrier
looks at what is to be done outside.  A transport that stalls at every
write says which bytes it was offered; the carrier sends them and hands
the outcome back as the answer to that write.  The record of the past is
written out and dropped at each step.
-/
import LineRelay.Relay.Run

namespace LineRelay

/-- A transport that waits for its carrier at every write. -/
def Transport.carried : Transport := { writesAfter := .stalls }

/-- The bytes that a send offers while it stands at a stage. -/
def Outlet.offered (o : Outlet) : SendStage → Bytes
  | .makingRoom _ | .emptying => o.buffer
  | .passing rest => rest
  | .flushing => []

namespace World

def stageOf (k : PeerKey) : Task → Option SendStage
  | .send k' (.writing stage) => if k = k' then some stage else none
  | .broadcast b => ofBroadcast b
  | .worker wk =>
      match wk.stage with
      | .relaying b => ofBroadcast b
      | _ => none
  | _ => none
where
  ofBroadcast (b : Broadcast) : Option SendStage :=
    match b.stage with
    | .sending k' (.writing stage) _ => if k = k' then some stage else none
    | _ => none

/-- The bytes that wait for the carrier of a connection. -/
def offered (w : World) (k : PeerKey) : Bytes :=
  ((w.peer? k).bind fun p =>
    p.senders.head?.bind fun t =>
      (w.tasks[t]?.bind (stageOf k)).map p.outlet.offered).getD []

/-- The world without the record of the past: what remains decides all
that is to come. -/
def forget (w : World) : World :=
  { w with
    samples := []
    journal := []
    registry := { w.registry with served := [], events := [] }
    connections := w.connections.map fun c =>
      let transport := { c.peer.outlet.transport with
        received := [], flushed := 0, flushedBytes := [], shutdowns := 0 }
      { c with peer := { c.peer with outlet := { c.peer.outlet with transport } } } }

/-- When a task wants to wake next. -/
def nextWake (w : World) : Option Nat := (w.tasks.filterMap dueOf).min?

end World

end LineRelay
