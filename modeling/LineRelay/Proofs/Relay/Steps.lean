/-
# What one turn of a task does

A turn of a broadcast, a worker, a monitor or a server is one of a short
list of steps.  Each step says where the task stood, what had to be the
case, the world after it and where the task stands then; nothing else is
known of a turn from here on.

| `BroadcastStep` | from | to |
| :-- | :-- | :-- |
| `asks`, `learns`, `skips` | asking | asking, then the first target, or over |
| `sends` | sending | sending |
| `settles`, `misses` | sending | the next target |
| `fails` | sending | pruning |
| `prunes`, `pruned` | pruning | pruning, then the next target |
-/
import LineRelay.Proofs.Peer.Sending
import LineRelay.Relay.Run

namespace LineRelay

namespace World

/-- The world with more notes written down. -/
def noted (w : World) (ns : List Note) : World := { w with journal := w.journal ++ ns }

/-- The world after a command has entered the queue. -/
def asked (w : World) (c : Command) : World := { w with registry := (w.registry.request c).1 }

theorem note_eq (w : World) (n : Note) : w.note n = w.noted [n] := rfl

theorem noted_noted (w : World) (ns ns' : List Note) :
    (w.noted ns).noted ns' = w.noted (ns ++ ns') := by
  simp [noted]

end World

namespace Broadcast

/-- Where a broadcast stands that has `rest` before it. -/
def onward (b : Broadcast) : List PeerKey → Broadcast
  | [] => { b with stage := .finished }
  | k :: rest => { b with stage := .sending k (.fresh b.line.toWire) rest }

/-- What is written down when a broadcast of the task `me` that has `rest`
before it goes on. -/
def closing (b : Broadcast) (me : TaskKey) : List PeerKey → List Note
  | [] => [.delivered me b.serial b.sender b.attempts]
  | _ :: _ => []

/-- The broadcast with one more attempt. -/
def attempted (b : Broadcast) (a : Attempt) : Broadcast := { b with attempts := b.attempts ++ [a] }

end Broadcast

theorem World.nextTarget_eq (w : World) (me : TaskKey) (b : Broadcast) (rest : List PeerKey) :
    w.nextTarget me b rest = (w.noted (b.closing me rest), b.onward rest) := by
  cases rest with
  | nil => rfl
  | cons k rest => simp [World.nextTarget, Broadcast.closing, Broadcast.onward, World.noted]

/-! ## Broadcasts -/

/-- One step of a broadcast of the task `me`. -/
inductive BroadcastStep (w : World) (me : TaskKey) (b : Broadcast) : World → Broadcast → Prop
  | asks {c : Command} : b.stage = .asking (.entering c) → w.registry.admits = true →
      BroadcastStep w me b (w.asked c)
        { b with stage := .asking (.waiting w.registry.nextTicket) }
  | skips {tk : Ticket} {e : RequestError} : b.stage = .asking (.waiting tk) →
      w.registry.answer? tk = some (.error e) →
      BroadcastStep w me b (w.noted (.skipped b.sender e :: b.closing me []))
        { b with stage := .finished }
  | learns {tk : Ticket} {reply : Reply} : b.stage = .asking (.waiting tk) →
      w.registry.answer? tk = some (.ok reply) →
      BroadcastStep w me b
        (w.noted (.fanout me b.serial b.sender b.line (World.targetsOf reply)
          :: Broadcast.closing { b with targets := World.targetsOf reply } me
              (World.targetsOf reply)))
        (Broadcast.onward { b with targets := World.targetsOf reply } (World.targetsOf reply))
  | misses {k : PeerKey} {state : SendState} {rest : List PeerKey} :
      b.stage = .sending k state rest → w.peer? k = none →
      BroadcastStep w me b (w.noted (b.closing me rest)) (b.onward rest)
  | sends {k : PeerKey} {state state' : SendState} {rest : List PeerKey} {p q : Peer} :
      b.stage = .sending k state rest → w.peer? k = some p →
      p.SendStep me w.shutdown state q state' → (∀ outcome, state' ≠ .ended outcome) →
      BroadcastStep w me b (w.setPeer k q) { b with stage := .sending k state' rest }
  | settles {k : PeerKey} {state : SendState} {rest : List PeerKey} {p q : Peer}
      {outcome : SendOutcome} :
      b.stage = .sending k state rest → w.peer? k = some p →
      p.SendStep me w.shutdown state q (.ended outcome) → (∀ f, outcome ≠ .failed f) →
      BroadcastStep w me b
        ((w.setPeer k q).noted ((b.attempted ⟨k, outcome, false⟩).closing me rest))
        ((b.attempted ⟨k, outcome, false⟩).onward rest)
  | fails {k : PeerKey} {state : SendState} {rest : List PeerKey} {p q : Peer} {f : Failure}
      {closedIt : Bool} :
      b.stage = .sending k state rest → w.peer? k = some p →
      p.SendStep me w.shutdown state q (.ended (.failed f)) →
      BroadcastStep w me b (((w.setPeer k q).noted [.sendFailed k q.info f]).closePeer k).1
        { b.attempted ⟨k, .failed f, closedIt⟩ with
          stage := .pruning k (.entering (.unregister q.info.id .writeFailed)) rest }
  | prunes {k : PeerKey} {c : Command} {rest : List PeerKey} :
      b.stage = .pruning k (.entering c) rest → w.registry.admits = true →
      BroadcastStep w me b (w.asked c)
        { b with stage := .pruning k (.waiting w.registry.nextTicket) rest }
  | pruned {k : PeerKey} {tk : Ticket} {rest : List PeerKey}
      {answer : Except RequestError Reply} :
      b.stage = .pruning k (.waiting tk) rest → w.registry.answer? tk = some answer →
      BroadcastStep w me b (w.noted (b.closing me rest)) (b.onward rest)

/-- A call enters the queue, or its reply is there. -/
theorem World.callTurn_cases {w w' : World} {call : Call}
    {answer : Call ⊕ Except RequestError Reply} (h : w.callTurn call = some (w', answer)) :
    (∃ c, call = .entering c ∧ w.registry.admits = true ∧ w' = w.asked c
        ∧ answer = .inl (.waiting w.registry.nextTicket))
    ∨ ∃ tk reply, call = .waiting tk ∧ w.registry.answer? tk = some reply ∧ w' = w
        ∧ answer = .inr reply := by
  cases call with
  | entering c =>
      simp only [World.callTurn] at h
      split_ifs at h with hadmits
      cases h
      exact .inl ⟨c, rfl, hadmits, rfl, rfl⟩
  | waiting tk =>
      simp only [World.callTurn, Option.map_eq_some_iff] at h
      obtain ⟨reply, hreply, h⟩ := h
      cases h
      exact .inr ⟨tk, reply, rfl, hreply, rfl, rfl⟩

theorem broadcastStep_of_broadcastTurn {w w' : World} {me : TaskKey} {b b' : Broadcast}
    (h : w.broadcastTurn me b = some (w', b')) : BroadcastStep w me b w' b' := by
  unfold World.broadcastTurn at h
  cases hstage : b.stage with
  | asking call =>
      simp only [hstage, Option.map_eq_some_iff] at h
      obtain ⟨⟨w₁, answer⟩, hcall, h⟩ := h
      rcases World.callTurn_cases hcall with
        ⟨c, rfl, hadmits, rfl, rfl⟩ | ⟨tk, reply, rfl, hreply, rfl, rfl⟩
      · cases h
        exact .asks hstage hadmits
      · cases reply with
        | error e =>
            simp only [World.nextTarget_eq, World.note_eq, World.noted_noted] at h
            cases h
            exact .skips hstage hreply
        | ok reply =>
            simp only [World.nextTarget_eq, World.note_eq, World.noted_noted] at h
            cases h
            exact .learns hstage hreply
  | sending k state rest =>
      cases hpeer : w.peer? k with
      | none =>
          simp only [hstage, hpeer, World.nextTarget_eq, Option.some.injEq] at h
          cases h
          exact .misses hstage hpeer
      | some p =>
          simp only [hstage, hpeer, Option.map_eq_some_iff] at h
          obtain ⟨⟨q, state'⟩, hturn, h⟩ := h
          have hstep := Peer.sendStep_of_sendTurn hturn
          match state' with
          | .fresh wire =>
              cases h
              exact .sends hstage hpeer hstep fun _ => SendState.noConfusion
          | .queued wire =>
              cases h
              exact .sends hstage hpeer hstep fun _ => SendState.noConfusion
          | .writing stage =>
              cases h
              exact .sends hstage hpeer hstep fun _ => SendState.noConfusion
          | .ended (.failed f) =>
              cases h
              exact .fails hstage hpeer hstep
          | .ended .sent =>
              simp only [World.afterSend, World.nextTarget_eq] at h
              cases h
              exact .settles hstage hpeer hstep fun _ => SendOutcome.noConfusion
          | .ended .closed =>
              simp only [World.afterSend, World.nextTarget_eq] at h
              cases h
              exact .settles hstage hpeer hstep fun _ => SendOutcome.noConfusion
  | pruning k call rest =>
      simp only [hstage, Option.map_eq_some_iff] at h
      obtain ⟨⟨w₁, answer⟩, hcall, h⟩ := h
      rcases World.callTurn_cases hcall with
        ⟨c, rfl, hadmits, rfl, rfl⟩ | ⟨tk, reply, rfl, hreply, rfl, rfl⟩
      · cases h
        exact .prunes hstage hadmits
      · simp only [World.nextTarget_eq] at h
        cases h
        exact .pruned hstage hreply
  | finished =>
      simp only [hstage] at h
      cases h

/-! ## Workers -/

/-- Why a worker has left its read loop, if it has. -/
def Worker.reason? (wk : Worker) : Option Reason :=
  match wk.stage with
  | .leaving reason _ | .finished reason => some reason
  | .registering _ | .reading | .relaying _ => none

/-- One step of a worker with the task key `me`, whose connection is `c`. -/
inductive WorkerStep (w : World) (me : TaskKey) (wk : Worker) (c : Connection) :
    World → Worker → Prop
  | registers {cmd : Command} : wk.stage = .registering (.entering cmd) →
      w.registry.admits = true →
      WorkerStep w me wk c (w.asked cmd)
        { wk with stage := .registering (.waiting w.registry.nextTicket) }
  | starts {tk : Ticket} {reply : Reply} : wk.stage = .registering (.waiting tk) →
      w.registry.answer? tk = some (.ok reply) →
      WorkerStep w me wk c (w.noted [.connected c.peer.info]) { wk with stage := .reading }
  | drops {tk : Ticket} {e : RequestError} : wk.stage = .registering (.waiting tk) →
      w.registry.answer? tk = some (.error e) →
      WorkerStep w me wk c ((w.noted [.dropped c.peer.info e]).closePeer wk.peer).1
        { wk with stage := .finished .shutdown }
  | quits {reason : Reason} : wk.stage = .reading →
      (w.shutdown = true ∧ reason = .shutdown
        ∨ w.shutdown = false ∧ c.peer.signalled w.shutdown = true ∧ reason = .writeFailed) →
      WorkerStep w me wk c (w.noted [.disconnected c.peer.info reason])
        { wk with stage := .leaving reason (.entering (.unregister c.peer.info.id reason)) }
  | reads {reader : Framer} {inlet : Inlet} {l : Line} : wk.stage = .reading →
      w.shutdown = false → c.peer.signalled w.shutdown = false →
      wk.reader.next c.inlet = (.line l, reader, inlet) →
      WorkerStep w me wk c
        ((w.setInlet wk.peer inlet).noted [.received wk.peer c.peer.info wk.linesRead l])
        { wk with
          reader
          linesRead := wk.linesRead + 1
          stage := .relaying (.begin wk.linesRead c.peer.info.id l) }
  | stops {reader : Framer} {inlet : Inlet} {result : ReadResult} {ns : List Note} :
      wk.stage = .reading → w.shutdown = false → c.peer.signalled w.shutdown = false →
      wk.reader.next c.inlet = (result, reader, inlet) →
      (result = .ended ∧ ns = []
        ∨ ∃ e, result = .failed e ∧ ns = if e.isEnd then [] else [.readFailed c.peer.info e]) →
      WorkerStep w me wk c
        ((w.setInlet wk.peer inlet).noted (ns ++ [.disconnected c.peer.info .disconnected]))
        { wk with
          reader
          stage := .leaving .disconnected
            (.entering (.unregister c.peer.info.id .disconnected)) }
  | pauses {reader : Framer} {inlet : Inlet} : wk.stage = .reading →
      w.shutdown = false → c.peer.signalled w.shutdown = false →
      wk.reader.next c.inlet = (.notReady, reader, inlet) →
      WorkerStep w me wk c (w.setInlet wk.peer inlet) { wk with reader }
  | relays {b b' : Broadcast} {w' : World} : wk.stage = .relaying b →
      BroadcastStep w me b w' b' →
      WorkerStep w me wk c w' { wk with stage := if b'.isOver then .reading else .relaying b' }
  | unregisters {reason : Reason} {cmd : Command} : wk.stage = .leaving reason (.entering cmd) →
      w.registry.admits = true →
      WorkerStep w me wk c (w.asked cmd)
        { wk with stage := .leaving reason (.waiting w.registry.nextTicket) }
  | leaves {reason : Reason} {tk : Ticket} {answer : Except RequestError Reply} :
      wk.stage = .leaving reason (.waiting tk) → w.registry.answer? tk = some answer →
      WorkerStep w me wk c (w.closePeer wk.peer).1 { wk with stage := .finished reason }

/-- A worker that looks for something to read takes one of these steps. -/
theorem workerStep_of_readTurn {w w' : World} {me : TaskKey} {wk wk' : Worker} {c : Connection}
    (hstage : wk.stage = .reading) (h : w.readTurn wk c = some (w', wk')) :
    WorkerStep w me wk c w' wk' := by
  unfold World.readTurn at h
  split_ifs at h with hshutdown hsignalled hidle
  · cases h
    exact .quits hstage (.inl ⟨hshutdown, rfl⟩)
  · cases h
    exact .quits hstage (.inr ⟨Bool.eq_false_iff.2 hshutdown, hsignalled, rfl⟩)
  · have hopen := Bool.eq_false_iff.2 hshutdown
    have hquiet := Bool.eq_false_iff.2 hsignalled
    rcases hnext : wk.reader.next c.inlet with ⟨result, reader, inlet⟩
    simp only [hnext] at h
    match result with
    | .line l =>
        cases h
        exact .reads hstage hopen hquiet hnext
    | .ended =>
        cases h
        exact .stops hstage hopen hquiet hnext (.inl ⟨rfl, rfl⟩)
    | .failed e =>
        have hnotes : (if e.isEnd then w.setInlet wk.peer inlet
              else (w.setInlet wk.peer inlet).noted [.readFailed c.peer.info e])
            = (w.setInlet wk.peer inlet).noted
                (if e.isEnd then [] else [.readFailed c.peer.info e]) := by
          split_ifs
          · simp [World.noted]
          · rfl
        simp only [World.afterRead, World.leave, World.note_eq] at h
        rw [hnotes, World.noted_noted] at h
        cases h
        exact .stops hstage hopen hquiet hnext (.inr ⟨e, rfl, rfl⟩)
    | .notReady =>
        cases h
        exact .pauses hstage hopen hquiet hnext

theorem workerStep_of_workerTurn {w w' : World} {me : TaskKey} {wk wk' : Worker}
    (h : w.workerTurn me wk = some (w', wk')) :
    ∃ c, w.connections[wk.peer]? = some c ∧ WorkerStep w me wk c w' wk' := by
  unfold World.workerTurn at h
  cases hc : w.connections[wk.peer]? with
  | none => simp [hc] at h
  | some c =>
      refine ⟨c, rfl, ?_⟩
      cases hstage : wk.stage with
      | registering call =>
          simp only [hc, hstage, Option.map_eq_some_iff] at h
          obtain ⟨⟨w₁, answer⟩, hcall, h⟩ := h
          rcases World.callTurn_cases hcall with
            ⟨cmd, rfl, hadmits, rfl, rfl⟩ | ⟨tk, reply, rfl, hreply, rfl, rfl⟩
          · cases h
            exact .registers hstage hadmits
          · cases reply with
            | error e =>
                cases h
                exact .drops hstage hreply
            | ok reply =>
                cases h
                exact .starts hstage hreply
      | reading =>
          simp only [hc, hstage] at h
          exact workerStep_of_readTurn hstage h
      | relaying b =>
          simp only [hc, hstage, Option.map_eq_some_iff] at h
          obtain ⟨⟨w₁, b'⟩, hturn, h⟩ := h
          cases h
          exact .relays hstage (broadcastStep_of_broadcastTurn hturn)
      | leaving reason call =>
          simp only [hc, hstage, Option.map_eq_some_iff] at h
          obtain ⟨⟨w₁, answer⟩, hcall, h⟩ := h
          rcases World.callTurn_cases hcall with
            ⟨cmd, rfl, hadmits, rfl, rfl⟩ | ⟨tk, reply, rfl, hreply, rfl, rfl⟩
          · cases h
            exact .unregisters hstage hadmits
          · cases h
            exact .leaves hstage hreply
      | finished reason => simp [hc, hstage] at h

/-! ## Monitors -/

/-- One step of a monitor. -/
inductive MonitorStep (w : World) (m : Monitor) : World → Monitor → Prop
  | stops {due : Nat} : m.stage = .sleeping due → w.shutdown = true →
      MonitorStep w m w { m with stage := .finished }
  | wakes {due : Nat} : m.stage = .sleeping due → w.shutdown = false → due ≤ w.now →
      MonitorStep w m w { m with stage := .sampling (.entering .size) }
  | asks {cmd : Command} : m.stage = .sampling (.entering cmd) → w.registry.admits = true →
      MonitorStep w m (w.asked cmd)
        { m with stage := .sampling (.waiting w.registry.nextTicket) }
  | samples {tk : Ticket} {reply : Reply} : m.stage = .sampling (.waiting tk) →
      w.registry.answer? tk = some (.ok reply) →
      MonitorStep w m
        ({ w with samples := w.samples ++ [(⟨w.now, World.countOf reply⟩ : Sample)] }.noted
          [.online (World.countOf reply)])
        { m with stage := .sleeping (w.now + m.interval) }
  | ends {tk : Ticket} {e : RequestError} : m.stage = .sampling (.waiting tk) →
      w.registry.answer? tk = some (.error e) →
      MonitorStep w m (w.noted [.monitorStopped e]) { m with stage := .finished }

theorem monitorStep_of_monitorTurn {w w' : World} {m m' : Monitor}
    (h : w.monitorTurn m = some (w', m')) : MonitorStep w m w' m' := by
  unfold World.monitorTurn at h
  cases hstage : m.stage with
  | sleeping due =>
      simp only [hstage] at h
      split_ifs at h with hshutdown hdue
      · cases h
        exact .stops hstage hshutdown
      · cases h
        exact .wakes hstage (Bool.eq_false_iff.2 hshutdown) hdue
  | sampling call =>
      simp only [hstage, Option.map_eq_some_iff] at h
      obtain ⟨⟨w₁, answer⟩, hcall, h⟩ := h
      rcases World.callTurn_cases hcall with
        ⟨cmd, rfl, hadmits, rfl, rfl⟩ | ⟨tk, reply, rfl, hreply, rfl, rfl⟩
      · cases h
        exact .asks hstage hadmits
      · cases reply with
        | error e =>
            cases h
            exact .ends hstage hreply
        | ok reply =>
            cases h
            exact .samples hstage hreply
  | finished => simp [hstage] at h

/-! ## Servers -/

/-- One step of a server. -/
inductive ServerStep (w : World) (s : Server) : World → Server → Prop
  | starts : s.stage = .starting →
      ServerStep w s ((w.spawn (.monitor (w.newMonitor s.interval))).noted [.accepting s.listen])
        { s with stage := .accepting w.tasks.length }
  | ends {monitor : TaskKey} : s.stage = .accepting monitor → w.shutdown = true →
      ServerStep w s (w.noted [.shutdownRequested]) { s with stage := .joining monitor }
  | misses {monitor : TaskKey} {f : Failure} {arrivals : List Arrival} :
      s.stage = .accepting monitor → w.shutdown = false → s.arrivals = .failure f :: arrivals →
      ServerStep w s (w.noted [.acceptFailed f]) { s with arrivals, stage := .accepting monitor }
  | accepts {monitor : TaskKey} {addr : AddressLabel} {transport : Transport} {inlet : Inlet}
      {arrivals : List Arrival} :
      s.stage = .accepting monitor → w.shutdown = false →
      s.arrivals = .connection addr transport inlet :: arrivals →
      ServerStep w s
        ((w.connect ⟨w.newPeer s.nextId addr transport, inlet⟩).spawn
          (.worker (World.newWorker w.connections.length (w.newPeer s.nextId addr transport)
            s.maxLine)))
        { s with arrivals, stage := .accepting monitor, nextId := s.nextId + 1 }
  | joins {monitor : TaskKey} : s.stage = .joining monitor → w.hasEnded monitor = true →
      ServerStep w s (w.noted [.stopped]) { s with stage := .finished, arrivals := [] }

theorem serverStep_of_serverTurn {w w' : World} {s s' : Server}
    (h : w.serverTurn s = some (w', s')) : ServerStep w s w' s' := by
  unfold World.serverTurn at h
  cases hstage : s.stage with
  | starting =>
      simp only [hstage] at h
      cases h
      exact .starts hstage
  | accepting monitor =>
      simp only [hstage] at h
      split_ifs at h with hshutdown
      · cases h
        exact .ends hstage hshutdown
      · have hopen := Bool.eq_false_iff.2 hshutdown
        match harrivals : s.arrivals with
        | [] => simp [harrivals] at h
        | .failure f :: arrivals =>
            simp only [harrivals] at h
            cases h
            exact .misses hstage hopen harrivals
        | .connection addr transport inlet :: arrivals =>
            simp only [harrivals] at h
            cases h
            exact .accepts hstage hopen harrivals
  | joining monitor =>
      simp only [hstage] at h
      split_ifs at h with hended
      cases h
      exact .joins hstage hended
  | finished => simp [hstage] at h

/-! ## Tasks -/

/-- One step of the task `me`. -/
inductive TaskStep (w : World) (me : TaskKey) : Task → World → Task → Prop
  | send {k : PeerKey} {state state' : SendState} {p q : Peer} : w.peer? k = some p →
      p.SendStep me w.shutdown state q state' →
      TaskStep w me (.send k state) (w.setPeer k q) (.send k state')
  | awaited {k : PeerKey} {p : Peer} : w.peer? k = some p → p.signalled w.shutdown = true →
      TaskStep w me (.awaitClose k false) w (.awaitClose k true)
  | broadcast {b b' : Broadcast} {w' : World} : BroadcastStep w me b w' b' →
      TaskStep w me (.broadcast b) w' (.broadcast b')
  | worker {wk wk' : Worker} {c : Connection} {w' : World} :
      w.connections[wk.peer]? = some c → WorkerStep w me wk c w' wk' →
      TaskStep w me (.worker wk) w' (.worker wk')
  | monitor {m m' : Monitor} {w' : World} : MonitorStep w m w' m' →
      TaskStep w me (.monitor m) w' (.monitor m')
  | server {s s' : Server} {w' : World} : ServerStep w s w' s' →
      TaskStep w me (.server s) w' (.server s')

theorem taskStep_of_taskTurn {w w' : World} {me : TaskKey} {task task' : Task}
    (h : w.taskTurn me task = some (w', task')) : TaskStep w me task w' task' := by
  cases task with
  | send k state =>
      simp only [World.taskTurn, World.sendTaskTurn, Option.map_eq_some_iff,
        Option.bind_eq_some_iff] at h
      obtain ⟨⟨w₁, state'⟩, ⟨p, hpeer, ⟨q, state''⟩, hturn, hq⟩, h⟩ := h
      cases hq
      cases h
      exact .send hpeer (Peer.sendStep_of_sendTurn hturn)
  | awaitClose k finished =>
      simp only [World.taskTurn] at h
      split_ifs at h with hready
      cases h
      simp only [Bool.and_eq_true, Bool.not_eq_true', Option.any_eq_true] at hready
      obtain ⟨rfl, p, hpeer, hsignalled⟩ := hready
      exact .awaited hpeer hsignalled
  | broadcast b =>
      simp only [World.taskTurn, Option.map_eq_some_iff] at h
      obtain ⟨⟨w₁, b'⟩, hturn, h⟩ := h
      cases h
      exact .broadcast (broadcastStep_of_broadcastTurn hturn)
  | worker wk =>
      simp only [World.taskTurn, Option.map_eq_some_iff] at h
      obtain ⟨⟨w₁, wk'⟩, hturn, h⟩ := h
      cases h
      obtain ⟨c, hc, hstep⟩ := workerStep_of_workerTurn hturn
      exact .worker hc hstep
  | monitor m =>
      simp only [World.taskTurn, Option.map_eq_some_iff] at h
      obtain ⟨⟨w₁, m'⟩, hturn, h⟩ := h
      cases h
      exact .monitor (monitorStep_of_monitorTurn hturn)
  | server s =>
      simp only [World.taskTurn, Option.map_eq_some_iff] at h
      obtain ⟨⟨w₁, s'⟩, hturn, h⟩ := h
      cases h
      exact .server (serverStep_of_serverTurn hturn)

/-- A turn of a task is a step of it, after which the task stands elsewhere. -/
theorem taskStep_of_turn {w w' : World} {me : TaskKey} (h : w.turn me = some w') :
    ∃ task w₁ task', w.tasks[me]? = some task ∧ TaskStep w me task w₁ task'
      ∧ w' = w₁.setTask me task' := by
  simp only [World.turn, Option.bind_eq_some_iff, Option.map_eq_some_iff] at h
  obtain ⟨task, htask, ⟨w₁, task'⟩, hturn, rfl⟩ := h
  exact ⟨task, w₁, task', htask, taskStep_of_taskTurn hturn, rfl⟩

/-! ## The broadcast of a task -/

/-- The broadcast that a task is making. -/
def Task.broadcast? : Task → Option Broadcast
  | .broadcast b => some b
  | .worker wk =>
      match wk.stage with
      | .relaying b => some b
      | _ => none
  | _ => none

/-- The broadcast that the task with a key is making. -/
def World.broadcast? (w : World) (t : TaskKey) : Option Broadcast :=
  w.tasks[t]?.bind Task.broadcast?

/-- Who makes a broadcast is a broadcast, or a worker that relays a line. -/
theorem World.broadcast?_eq_some {w : World} {t : TaskKey} {b : Broadcast} :
    w.broadcast? t = some b ↔ w.tasks[t]? = some (.broadcast b)
      ∨ ∃ wk, w.tasks[t]? = some (.worker wk) ∧ wk.stage = .relaying b := by
  unfold World.broadcast?
  cases w.tasks[t]? with
  | none => simp
  | some task =>
      match task with
      | .worker wk => cases hstage : wk.stage <;> simp [Task.broadcast?, hstage]
      | .broadcast _ | .send _ _ | .awaitClose _ _ | .monitor _ | .server _ =>
          simp [Task.broadcast?]

/-- A task goes on with its broadcast, or it makes none and perhaps begins
one. -/
theorem TaskStep.relaying {w w' : World} {me : TaskKey} {task task' : Task}
    (h : TaskStep w me task w' task') :
    (task.broadcast? = none
        ∧ ∀ b, task'.broadcast? = some b → b = .begin b.serial b.sender b.line)
    ∨ ∃ b b', task.broadcast? = some b ∧ BroadcastStep w me b w' b'
        ∧ (task'.broadcast? = some b' ∨ b'.isOver = true ∧ task'.broadcast? = none) := by
  cases h with
  | send _ _ | awaited _ _ | monitor _ | server _ => exact .inl ⟨rfl, fun _ h => by cases h⟩
  | broadcast hstep => exact .inr ⟨_, _, rfl, hstep, .inl rfl⟩
  | worker _ hstep =>
      cases hstep with
      | relays hstage hstep =>
          rename_i wk c hc b b'
          refine .inr ⟨b, b', by simp [Task.broadcast?, hstage], hstep, ?_⟩
          cases hover : b'.isOver with
          | true => exact .inr ⟨rfl, by simp [Task.broadcast?]⟩
          | false => exact .inl (by simp [Task.broadcast?])
      | reads hstage _ _ _ =>
          refine .inl ⟨by simp [Task.broadcast?, hstage], ?_⟩
          intro b hb
          cases hb
          rfl
      | registers hstage _ | starts hstage _ | drops hstage _ | quits hstage _
      | stops hstage _ _ _ _ | pauses hstage _ _ _ | unregisters hstage _ | leaves hstage _ =>
          exact .inl ⟨by simp [Task.broadcast?, hstage], fun b hb => by
            simp [Task.broadcast?, hstage] at hb⟩

end LineRelay
