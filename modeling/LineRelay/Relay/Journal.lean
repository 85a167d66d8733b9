/-
# The journal

What happens in the relay, as it happens.  The notes that concern an
operator have a line in the log, with a level, a message and named
values; the others say what the tasks of the relay did to whom, for
those who reason about a run.
-/
import LineRelay.Framing.Framer
import LineRelay.Peer.Handle
import LineRelay.Registry.Basic

namespace LineRelay

/-- What came of one send of a broadcast, and whether the broadcast closed
the peer. -/
structure Attempt where
  peer : PeerKey
  outcome : SendOutcome
  closedIt : Bool
deriving DecidableEq

/-- One thing that happened.  `received` is the `index`-th line of its
connection; `fanout` says that the `serial`-th broadcast of its task has its
targets, and `delivered` that it is over; `removed` tells how many peers are
left. -/
inductive Note where
  | connected (peer : Identity)
  | dropped (peer : Identity) (e : RequestError)
  | received (key : PeerKey) (peer : Identity) (index : Nat) (line : Line)
  | readFailed (peer : Identity) (e : FramingError)
  | disconnected (peer : Identity) (reason : Reason)
  | removed (peer : Identity) (reason : Reason) (online : Nat)
  | fanout (task : TaskKey) (serial : Nat) (sender : PeerId) (line : Line) (targets : List PeerKey)
  | skipped (sender : PeerId) (e : RequestError)
  | sendFailed (key : PeerKey) (peer : Identity) (f : Failure)
  | delivered (task : TaskKey) (serial : Nat) (sender : PeerId) (attempts : List Attempt)
  | online (n : Nat)
  | monitorStopped (e : RequestError)
  | accepting (listen : String)
  | acceptFailed (f : Failure)
  | shutdownRequested
  | stopped
deriving DecidableEq

namespace Note

/-- How grave a line of the log is. -/
inductive Level where
  | info
  | warn
  | error
deriving DecidableEq

def Level.text : Level → String
  | .info => "INFO"
  | .warn => "WARN"
  | .error => "ERROR"

/-- A line of the log, with the named values in order. -/
structure Entry where
  level : Level
  message : String
  values : List (String × String)

def Entry.text (e : Entry) : String :=
  " ".intercalate ([e.level.text, e.message] ++ e.values.map fun v => v.1 ++ "=" ++ v.2)

/-- The line that a note has in the log, if it has one. -/
def entry? : Note → Option Entry
  | .connected p =>
      some ⟨.info, "Peer connected", [("peer", p.addr.label), ("peer_id", p.id.text)]⟩
  | .dropped p e =>
      some ⟨.warn, "Registry unavailable, dropping connection",
        [("peer", p.addr.label), ("error", e.message)]⟩
  | .received _ p _ l =>
      some ⟨.info, "Message received", [("peer", p.addr.label), ("message", l.text)]⟩
  | .readFailed p e =>
      some ⟨.warn, "Read error", [("peer", p.addr.label), ("error", e.message)]⟩
  | .disconnected p r =>
      some ⟨.info, "Peer disconnected",
        [("peer", p.addr.label), ("peer_id", p.id.text), ("reason", r.text)]⟩
  | .removed p r n =>
      some ⟨.info, "Peer removed",
        [("peer_id", p.id.text), ("peer", p.addr.label), ("reason", r.text),
          ("online", toString n)]⟩
  | .skipped s e =>
      some ⟨.warn, "Broadcast skipped: registry unavailable",
        [("sender", s.text), ("error", e.message)]⟩
  | .sendFailed _ p f =>
      some ⟨.warn, "Send failed, pruning peer",
        [("peer", p.addr.label), ("peer_id", p.id.text), ("error", f.message)]⟩
  | .online n => some ⟨.info, "Online peers", [("online", toString n)]⟩
  | .monitorStopped e =>
      some ⟨.warn, "Peer monitor stopping: registry unavailable", [("error", e.message)]⟩
  | .accepting listen =>
      some ⟨.info, "Relay server accepting connections", [("listen", listen)]⟩
  | .acceptFailed f => some ⟨.error, "Failed to accept connection", [("error", f.text)]⟩
  | .shutdownRequested => some ⟨.info, "Server shutdown requested", []⟩
  | .stopped => some ⟨.info, "Relay server stopped", []⟩
  | .fanout .. | .delivered .. => none

end Note

end LineRelay
