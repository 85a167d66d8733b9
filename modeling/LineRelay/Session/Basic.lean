/-
# The state of a session and its steps

The names of a session stand for keys of the relay.  The tester holds
the peers it has made until it drops them, as everyone in the relay holds
those it works with; a pipe is let go when neither does.
-/
import LineRelay.Session.Step

namespace LineRelay

/-- A relay and a tester, who knows pipes, tasks and watchers by name and
each watcher by how many events it has seen.  `room` events are kept for a
watcher; `refused` are the pipes that no server took, and `owned` the peers
that the tester holds. -/
structure Session where
  world : World
  room : Nat := 256
  pipes : List (String × PeerKey) := []
  refused : List (String × Transport) := []
  owned : List PeerKey := []
  tasks : List (String × TaskKey) := []
  watchers : List (String × Nat) := []
  server : Option TaskKey := none

namespace Session

/-- A list of named things with a name given to another thing. -/
def put {α : Type} (name : String) (a : α) (named : List (String × α)) : List (String × α) :=
  named.filter (·.1 ≠ name) ++ [(name, a)]

def start (setup : Setup) : Session :=
  match setup with
  | .serving room => { world := {}, room }
  | .deaf => { world := { registry := { service := .deaf } } }
  | .stopped => { world := { registry := { service := .stopped } } }

def settle (s : Session) : Session := { s with world := s.world.settle }

/-- Whether the connection with a key was let go. -/
def isReleased (s : Session) (k : PeerKey) : Bool :=
  !s.owned.contains k && !s.world.isHeld k

/-- Do something with the key behind the name of a pipe. -/
def withPipe (s : Session) (name : String) (f : PeerKey → Session × Answer) : Session × Answer :=
  match s.pipes.lookup name with
  | some k => f k
  | none => (s, if (s.refused.lookup name).isSome then .ok else .unknown name)

/-- Do something with the peer behind a name. -/
def withPeer (s : Session) (name : String) (f : PeerKey → Peer → Session × Answer) :
    Session × Answer :=
  s.withPipe name fun k =>
    match s.world.peer? k with
    | some p => f k p
    | none => (s, .unknown name)

def move (s : Session) (m : Move) : Session := { s with world := s.world.move m }

def spawn (s : Session) (name : String) (t : Task) : Session × Answer :=
  ({ s.move (.spawn t) with tasks := put name s.world.tasks.length s.tasks }, .task name)

/-- Send the registry a command and wait for the reply. -/
def call (s : Session) (c : Command) : Session × Except RequestError Reply :=
  let ticket := s.world.registry.nextTicket
  let s := (s.move (.request c)).settle
  (s, (s.world.registry.answer? ticket).getD (.error .unserved))

def list (s : Session) (m : Member) : Listed :=
  ⟨m.info, (s.world.peer? m.handle).any (·.isClosed s.world.shutdown)⟩

def ofReply (s : Session) : Except RequestError Reply → Answer
  | .error e => .failed e
  | .ok (.registered new) => .flag new
  | .ok (.removed m) => .listed (m.map s.list)
  | .ok (.members ms) => .list (ms.map s.list)
  | .ok (.count n) => .number n
  | .ok (.present b) => .flag b

/-- Register peers over pipes without names, and count those that are new. -/
def registerMany (s : Session) (id : Nat) (count : Nat) : Nat → Session × Answer
  | 0 => (s, .number count)
  | n + 1 =>
      let info : Identity := ⟨⟨id.toUInt64⟩, ⟨s!"sink-{id}"⟩, s.world.now⟩
      let k := s.world.connections.length
      let peer : Peer := { info, outlet := { transport := {} }, underShutdown := false }
      let (s, reply) := (s.move (.connect ⟨peer, .silent⟩)).call (.register ⟨info, k⟩)
      match reply with
      | .error e => (s, .failed e)
      | .ok (.registered true) => registerMany s (id + 1) (count + 1) n
      | .ok _ => registerMany s (id + 1) count n

/-- Put an event among the removals for one reason that stand first, in
the order of their ids. -/
def insertWatched (w : Watched) : List Watched → List Watched
  | [] => [w]
  | v :: vs =>
      match w, v with
      | .event (.removed p r), .event (.removed q r') =>
          if r = r' && q.id.raw < p.id.raw then v :: insertWatched w vs else w :: v :: vs
      | _, _ => w :: v :: vs

/-- The events with each run of removals for one reason in the order of
the ids: in which order they came about is nobody's business. -/
def tidy (ws : List Watched) : List Watched := ws.foldr insertWatched []

def arrive (s : Session) (a : Arrival) : Option Session :=
  match s.server with
  | some k => if s.world.hasEnded k then none else some (s.move (.arrive k a)).settle
  | none => none

/-- One step, before everyone goes on. -/
def act (s : Session) : Step → Session × Answer
  | .peer name info underShutdown transport =>
      let k := s.world.connections.length
      let info := { info with connectedAt := s.world.now }
      let peer : Peer := { info, outlet := { transport }, underShutdown }
      ({ s.move (.connect ⟨peer, .silent⟩) with
        pipes := put name k s.pipes
        owned := s.owned ++ [k] }, .peer info)
  | .send peer wire task => s.withPeer peer fun k _ => s.spawn task (.send k (.fresh wire))
  | .close peer =>
      s.withPeer peer fun k _ =>
        ({ s with world := (s.world.closePeer k).1 }, .flag (s.world.closePeer k).2)
  | .isClosed peer => s.withPeer peer fun _ p => (s, .flag (p.isClosed s.world.shutdown))
  | .awaitClose peer task => s.withPeer peer fun k _ => s.spawn task (.awaitClose k false)
  | .inspect peer => s.withPeer peer fun _ p => (s, .text (p.inspect s.world.shutdown))
  | .same a b =>
      s.withPeer a fun _ p => s.withPeer b fun _ q => (s, .flag (p.info.id = q.info.id))
  | .fire peer => s.withPipe peer fun k => (s.move (.fire k), .ok)
  | .drop peer => s.withPipe peer fun k => ({ s with owned := s.owned.filter (· ≠ k) }, .ok)
  | .wake pipe => s.withPipe pipe fun k => (s.move (.wake k), .ok)
  | .pipe pipe =>
      match s.refused.lookup pipe with
      | some t => (s, .pipe t.received.length t.flushed t.shutdowns true)
      | none =>
          s.withPeer pipe fun k p =>
            let t := p.outlet.transport
            (s, .pipe t.received.length t.flushed t.shutdowns (s.isReleased k))
  | .supply pipe d => s.withPipe pipe fun k => (s.move (.supply k d), .ok)
  | .register peer =>
      s.withPeer peer fun k p =>
        let (s, reply) := s.call (.register ⟨p.info, k⟩)
        (s, s.ofReply reply)
  | .registerMany first last => s.registerMany first 0 (last - first)
  | .request c =>
      let (s, reply) := s.call c
      (s, s.ofReply reply)
  | .isConnected => (s, .flag s.world.registry.isConnected)
  | .stopRegistry => (s.move .stopRegistry, .ok)
  | .subscribe name =>
      ({ s with watchers := put name s.world.registry.events.length s.watchers }, .ok)
  | .events name =>
      match s.watchers.lookup name with
      | none => (s, .unknown name)
      | some seen =>
          ({ s with watchers := put name s.world.registry.events.length s.watchers },
            .events (tidy (s.world.registry.watch s.room seen)))
  | .broadcast sender line task => s.spawn task (.broadcast (.begin 0 sender line))
  | .monitor interval task => s.spawn task (.monitor (s.world.newMonitor interval))
  | .worker peer limit task =>
      s.withPeer peer fun k p => s.spawn task (.worker (World.newWorker k p limit))
  | .server listen maxLine interval task =>
      let (s', answer) := s.spawn task (.server { listen, maxLine, interval })
      ({ s' with server := some s.world.tasks.length }, answer)
  | .connect name addr transport =>
      let k := s.world.connections.length
      match s.arrive (.connection addr transport .silent) with
      | some s => ({ s with pipes := put name k s.pipes }, .offered true)
      | none => ({ s with refused := put name transport s.refused }, .offered false)
  | .acceptFailure f =>
      match s.arrive (.failure f) with
      | some s => (s, .offered true)
      | none => (s, .offered false)
  | .advance ms => ({ s with world := s.world.advance ms }, .ok)
  | .shutdown => (s.move .shutdown, .ok)

/-! ## What changed -/

def sorted (ss : List String) : List String := ss.mergeSort fun a b => !decide (b < a)

def isRemoval : Note → Bool
  | .removed .. => true
  | _ => false

/-- The value that stands for a count nobody can foretell. -/
def untold (v : String × String) : String × String :=
  if v.1 = "online" then (v.1, "*") else v

/-- The lines that notes have in the log, in no order of time.  Where
more than one peer was removed, how many were left at each is not told. -/
def logOf (notes : List Note) : List String :=
  let many := 1 < notes.countP isRemoval
  sorted <| notes.filterMap fun n =>
    n.entry?.map fun e =>
      if many && isRemoval n then { e with values := e.values.map untold }.text else e.text

def transport (s : Session) (k : PeerKey) : Transport :=
  ((s.world.peer? k).map (·.outlet.transport)).getD {}

/-- The report of a step that led from one session to another. -/
def report (before after : Session) (answer : Answer) : Report where
  answer := answer
  ended := after.tasks.filterMap fun (name, t) =>
    if before.world.hasEnded t then none
    else (after.world.tasks[t]?.bind Task.value?).map fun v => (name, v)
  received := after.pipes.filterMap fun (name, k) =>
    let new := (after.transport k).received.drop (before.transport k).received.length
    if new.isEmpty then none else some (name, new)
  shut := sorted <| after.pipes.filterMap fun (name, k) =>
    if (before.transport k).shutdowns < (after.transport k).shutdowns then some name else none
  released := sorted <|
    (after.pipes.filterMap fun (name, k) =>
      let wasReleased := k < before.world.connections.length && before.isReleased k
      if !wasReleased && after.isReleased k then some name else none)
    ++ (after.refused.drop before.refused.length).map (·.1)
  samples := after.world.samples.drop before.world.samples.length
  log := logOf (after.world.journal.drop before.world.journal.length)

/-- One step: it is done, and everyone goes on until all wait. -/
def step (s : Session) (st : Step) : Session × Report :=
  let (after, answer) := s.act st
  let after := after.settle
  (after, report s after answer)

/-- The reports of a list of steps. -/
def steps (s : Session) : List Step → List Report
  | [] => []
  | st :: sts =>
      let (s, r) := s.step st
      r :: steps s sts

end Session

end LineRelay
