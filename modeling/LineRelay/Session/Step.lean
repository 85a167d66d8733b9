/-
# Trying a relay out, step by step

A session has a relay and whatever a tester needs around it: peers over
pipes of the tester's own making, each with a name; tasks with names;
watchers of the registry's events.  A step does one thing to it, and
then everyone goes on until all wait.  This module holds what can be
asked in a step and what is answered.
-/
import LineRelay.Relay.Run

namespace LineRelay.Session

/-- How the registry of a session is set up: it serves, and watchers are kept
so many events, it takes commands and drops them, or it has stopped. -/
inductive Setup where
  | serving (room : Nat)
  | deaf
  | stopped

/-- One step of a tester.  Peers, pipes, watchers and tasks go by the names
they were given.  `registerMany` registers peers with the ids from the first
to below the second, over pipes without names; `drop` lets go of a peer;
`connect` offers the server a connection over a new pipe. -/
inductive Step where
  | peer (name : String) (info : Identity) (underShutdown : Bool) (transport : Transport)
  | send (peer : String) (wire : Bytes) (task : String)
  | close (peer : String)
  | isClosed (peer : String)
  | awaitClose (peer : String) (task : String)
  | inspect (peer : String)
  | same (a b : String)
  | fire (peer : String)
  | drop (peer : String)
  | wake (pipe : String)
  | pipe (pipe : String)
  | supply (pipe : String) (d : Delivery)
  | register (peer : String)
  | registerMany (first last : Nat)
  | request (c : Command)
  | isConnected
  | stopRegistry
  | subscribe (name : String)
  | events (name : String)
  | broadcast (sender : PeerId) (line : Line) (task : String)
  | monitor (interval : Nat) (task : String)
  | worker (peer : String) (limit : Option UInt64) (task : String)
  | server (listen : String) (limit : Option UInt64) (interval : Nat) (task : String)
  | connect (name : String) (addr : AddressLabel) (transport : Transport)
  | acceptFailure (f : Failure)
  | advance (ms : Nat)
  | shutdown

/-- A peer as it is listed. -/
structure Listed where
  info : Identity
  isClosed : Bool

/-- What a step answers.  `pipe` tells what a pipe has been given and whether
it was let go, `offered` whether the server took the offer, `failed` that the
registry did not reply, and `unknown` that there is nothing of this name. -/
inductive Answer where
  | ok
  | flag (b : Bool)
  | number (n : Nat)
  | text (s : String)
  | task (name : String)
  | peer (info : Identity)
  | listed (p : Option Listed)
  | list (ps : List Listed)
  | events (es : List Watched)
  | pipe (received flushed shutdowns : Nat) (released : Bool)
  | offered (b : Bool)
  | failed (e : RequestError)
  | unknown (name : String)

/-- A step's answer, and what changed since the step before: the tasks that
have ended, the bytes that pipes have received, the pipes that were shut down
or let go, the samples that were published and the lines of the log. -/
structure Report where
  answer : Answer
  ended : List (String × TaskValue)
  received : List (String × Bytes)
  shut : List String
  released : List String
  samples : List Sample
  log : List String

end LineRelay.Session
