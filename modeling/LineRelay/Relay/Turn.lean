/-
# Turns

A task that has been waiting and can go on takes a turn.  A turn ends
where the task may be interrupted: where it waits, and also between two
steps that do not hang together.  Two things do hang together and are
one turn: a write that fails in a broadcast and the closing of the peer
it failed for.  The task does not wait in between, so where tasks take
over from each other only at the points where they wait, nobody writes to
that peer before it is closed.  Where tasks run on several threads, a
sender in the queue may; that is not among the runs here.

`none` stands for a task that has nothing to do until something else
happens.
-/
import LineRelay.Relay.World

namespace LineRelay.World

/-! ## Calls -/

/-- One turn of a call: it enters the queue, or its reply is there. -/
def callTurn (w : World) : Call → Option (World × (Call ⊕ Except RequestError Reply))
  | .entering c =>
      if w.registry.admits then
        let (registry, ticket) := w.registry.request c
        some ({ w with registry }, .inl (.waiting ticket))
      else none
  | .waiting t => (w.registry.answer? t).map fun answer => (w, .inr answer)

/-! ## Broadcasts -/

def nextTarget (w : World) (me : TaskKey) (b : Broadcast) : List PeerKey → World × Broadcast
  | [] => (w.note (.delivered me b.serial b.sender b.attempts), { b with stage := .finished })
  | peer :: rest => (w, { b with stage := .sending peer (.fresh b.line.toWire) rest })

def targetsOf : Reply → List PeerKey
  | .members ms => ms.map (·.handle)
  | _ => []

/-- What a broadcast does when a send is over: it counts the send, and a
peer that could not be written to is closed on the spot. -/
def afterSend (w : World) (me : TaskKey) (b : Broadcast) (k : PeerKey) (p : Peer)
    (rest : List PeerKey) : SendOutcome → World × Broadcast
  | .failed f =>
      let w := w.note (.sendFailed k p.info f)
      let (w, closedIt) := w.closePeer k
      (w, { b with
        attempts := b.attempts ++ [⟨k, .failed f, closedIt⟩]
        stage := .pruning k (.entering (.unregister p.info.id .writeFailed)) rest })
  | outcome =>
      w.nextTarget me { b with attempts := b.attempts ++ [⟨k, outcome, false⟩] } rest

def broadcastTurn (w : World) (me : TaskKey) (b : Broadcast) : Option (World × Broadcast) :=
  match b.stage with
  | .asking call =>
      (w.callTurn call).map fun
        | (w, .inl call) => (w, { b with stage := .asking call })
        | (w, .inr (.error e)) => (w.note (.skipped b.sender e)).nextTarget me b []
        | (w, .inr (.ok reply)) =>
            let targets := targetsOf reply
            (w.note (.fanout me b.serial b.sender b.line targets)).nextTarget me
              { b with targets } targets
  | .sending k state rest =>
      match w.peer? k with
      | none => some (w.nextTarget me b rest)
      | some p =>
          (p.sendTurn me w.shutdown state).map fun
            | (p, .ended outcome) => (w.setPeer k p).afterSend me b k p rest outcome
            | (p, state) => (w.setPeer k p, { b with stage := .sending k state rest })
  | .pruning k call rest =>
      (w.callTurn call).map fun
        | (w, .inl call) => (w, { b with stage := .pruning k call rest })
        | (w, .inr _) => w.nextTarget me b rest
  | .finished => none

/-! ## Workers -/

def leave (w : World) (wk : Worker) (p : Peer) (reason : Reason) : World × Worker :=
  (w.note (.disconnected p.info reason),
    { wk with stage := .leaving reason (.entering (.unregister p.info.id reason)) })

/-- What a worker does with the answer of its reader. -/
def afterRead (w : World) (wk : Worker) (p : Peer) : ReadResult → World × Worker
  | .line l =>
      (w.note (.received wk.peer p.info wk.linesRead l),
        { wk with
          linesRead := wk.linesRead + 1
          stage := .relaying (.begin wk.linesRead p.info.id l) })
  | .ended => w.leave wk p .disconnected
  | .failed e =>
      (if e.isEnd then w else w.note (.readFailed p.info e)).leave wk p .disconnected
  | .notReady => (w, wk)

/-- Whether a reader has nothing to look at. -/
def isIdle (r : Framer) (i : Inlet) : Bool := r.unread.isEmpty && i.items.isEmpty && !i.ends

/-- A worker at its read point looks at the shutdown first, then at the
close signal of its peer, and only then reads. -/
def readTurn (w : World) (wk : Worker) (c : Connection) : Option (World × Worker) :=
  if w.shutdown then some (w.leave wk c.peer .shutdown)
  else if c.peer.signalled w.shutdown then some (w.leave wk c.peer .writeFailed)
  else if isIdle wk.reader c.inlet then none
  else
    let (result, reader, inlet) := wk.reader.next c.inlet
    some ((w.setInlet wk.peer inlet).afterRead { wk with reader } c.peer result)

def workerTurn (w : World) (me : TaskKey) (wk : Worker) : Option (World × Worker) :=
  match w.connections[wk.peer]? with
  | none => none
  | some c =>
      match wk.stage with
      | .registering call =>
          (w.callTurn call).map fun
            | (w, .inl call) => (w, { wk with stage := .registering call })
            | (w, .inr (.ok _)) => (w.note (.connected c.peer.info), { wk with stage := .reading })
            | (w, .inr (.error e)) =>
                (((w.note (.dropped c.peer.info e)).closePeer wk.peer).1,
                  { wk with stage := .finished .shutdown })
      | .reading => w.readTurn wk c
      | .relaying b =>
          (w.broadcastTurn me b).map fun (w, b) =>
            (w, { wk with stage := if b.isOver then .reading else .relaying b })
      | .leaving reason call =>
          (w.callTurn call).map fun
            | (w, .inl call) => (w, { wk with stage := .leaving reason call })
            | (w, .inr _) => ((w.closePeer wk.peer).1, { wk with stage := .finished reason })
      | .finished _ => none

/-! ## Monitors -/

def countOf : Reply → Nat
  | .count n => n
  | _ => 0

/-- One turn of a monitor.  It looks at the shutdown before it looks at
the clock. -/
def monitorTurn (w : World) (m : Monitor) : Option (World × Monitor) :=
  match m.stage with
  | .sleeping due =>
      if w.shutdown then some (w, { m with stage := .finished })
      else if due ≤ w.now then some (w, { m with stage := .sampling (.entering .size) })
      else none
  | .sampling call =>
      (w.callTurn call).map fun
        | (w, .inl call) => (w, { m with stage := .sampling call })
        | (w, .inr (.ok reply)) =>
            let w := w.note (.online (countOf reply))
            ({ w with samples := w.samples ++ [⟨w.now, countOf reply⟩] },
              { m with stage := .sleeping (w.now + m.interval) })
        | (w, .inr (.error e)) => (w.note (.monitorStopped e), { m with stage := .finished })
  | .finished => none

/-! ## Servers -/

def newPeer (w : World) (id : UInt64) (addr : AddressLabel) (transport : Transport) : Peer where
  info := ⟨⟨id⟩, addr, w.now⟩
  outlet := { transport }

def newWorker (k : PeerKey) (p : Peer) (limit : Option UInt64) : Worker where
  peer := k
  reader := ⟨limit, [], []⟩
  linesRead := 0
  stage := .registering (.entering (.register ⟨p.info, k⟩))

def newMonitor (w : World) (interval : Nat) : Monitor := ⟨interval, .sleeping (w.now + interval)⟩

/-- Take what the listener has ready.  A failure to accept changes
nothing but the journal. -/
def accept (w : World) (s : Server) : Arrival → World × Server
  | .failure f => (w.note (.acceptFailed f), s)
  | .connection addr transport inlet =>
      let p := w.newPeer s.nextId addr transport
      let wk := newWorker w.connections.length p s.maxLine
      ((w.connect ⟨p, inlet⟩).spawn (.worker wk),
        { s with nextId := s.nextId + 1 })

def hasEnded (w : World) (t : TaskKey) : Bool := w.tasks[t]?.any Task.isOver

/-- One turn of a server.  It looks at the shutdown before it looks at
its listener. -/
def serverTurn (w : World) (s : Server) : Option (World × Server) :=
  match s.stage with
  | .starting =>
      some ((w.spawn (.monitor (w.newMonitor s.interval))).note (.accepting s.listen),
        { s with stage := .accepting w.tasks.length })
  | .accepting monitor =>
      if w.shutdown then some (w.note .shutdownRequested, { s with stage := .joining monitor })
      else
        match s.arrivals with
        | [] => none
        | a :: arrivals => some (w.accept { s with arrivals } a)
  | .joining monitor =>
      if w.hasEnded monitor then
        some (w.note .stopped, { s with stage := .finished, arrivals := [] })
      else none
  | .finished => none

/-! ## Tasks -/

def sendTaskTurn (w : World) (me : TaskKey) (k : PeerKey) (state : SendState) :
    Option (World × SendState) :=
  (w.peer? k).bind fun p =>
    (p.sendTurn me w.shutdown state).map fun (p, state) => (w.setPeer k p, state)

/-- One turn of the task `me`: the world, and where the task stands then. -/
def taskTurn (w : World) (me : TaskKey) : Task → Option (World × Task)
  | .send k state => (w.sendTaskTurn me k state).map fun (w, state) => (w, .send k state)
  | .awaitClose k finished =>
      if !finished && (w.peer? k).any (·.signalled w.shutdown) then some (w, .awaitClose k true)
      else none
  | .broadcast b => (w.broadcastTurn me b).map fun (w, b) => (w, .broadcast b)
  | .worker wk => (w.workerTurn me wk).map fun (w, wk) => (w, .worker wk)
  | .monitor m => (w.monitorTurn m).map fun (w, m) => (w, .monitor m)
  | .server s => (w.serverTurn s).map fun (w, s) => (w, .server s)

def turn (w : World) (me : TaskKey) : Option World :=
  w.tasks[me]?.bind fun task => (w.taskTurn me task).map fun (w, task) => w.setTask me task

/-- One turn of the registry: it serves the command at the front of its
queue. -/
def serve (w : World) (rank : PeerId → Nat) : Option World :=
  (w.registry.serve rank).map fun
    | (registry, some (.removed peer reason)) =>
        { w with registry }.note (.removed peer reason registry.membership.size)
    | (registry, _) => { w with registry }

end LineRelay.World
