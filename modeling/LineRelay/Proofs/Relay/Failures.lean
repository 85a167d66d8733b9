/-
# A world without failures to accept

What a listener has ready is a connection or a failure.  Of a world without
its failures (`World.quell`) nothing is missing but these, and the notes that
say that they happened.  In such a world everyone does what they do in the
other one, as nobody but the server looks at a failure, and the server does
nothing but write it down.
-/
import LineRelay.Proofs.Relay.Drain

namespace LineRelay

/-! ## A world without failures to accept -/

/-- Whether an arrival is a failure to accept. -/
def Arrival.isFailure : Arrival → Bool
  | .failure _ => true
  | .connection .. => false

/-- Whether a note is that of a failure to accept. -/
def Note.isFailure : Note → Bool
  | .acceptFailed _ => true
  | _ => false

/-- The task, if its listener has no failures. -/
def Task.quell : Task → Task
  | .server s => .server { s with arrivals := s.arrivals.filter (!·.isFailure) }
  | task => task

namespace World

variable {w w' : World} {m : Move} {t : TaskKey} {k : PeerKey}

/-- The world without the failures that its listeners have ready and those
that are written down. -/
def quell (w : World) : World :=
  { w with
    tasks := w.tasks.map Task.quell
    journal := w.journal.filter (!·.isFailure) }

-- Proved by `(rfl)`, so that `simp` rewrites conditions with their instances.

@[simp] theorem registry_quell (w : World) : w.quell.registry = w.registry := (rfl)

@[simp] theorem shutdown_quell (w : World) : w.quell.shutdown = w.shutdown := (rfl)

@[simp] theorem now_quell (w : World) : w.quell.now = w.now := (rfl)

@[simp] theorem connections_quell (w : World) : w.quell.connections = w.connections := (rfl)

@[simp] theorem peer?_quell (w : World) (k : PeerKey) : w.quell.peer? k = w.peer? k := (rfl)

theorem quell_note (w : World) {n : Note} (h : n.isFailure = false) :
    (w.note n).quell = w.quell.note n := by
  simp [quell, note, h]

theorem quell_setPeer (w : World) (k : PeerKey) (p : Peer) :
    (w.setPeer k p).quell = w.quell.setPeer k p := rfl

theorem quell_closePeer (w : World) (k : PeerKey) :
    w.quell.closePeer k = ((w.closePeer k).1.quell, (w.closePeer k).2) := by
  rw [closePeer, closePeer, peer?_quell]
  cases w.peer? k with
  | none => rfl
  | some p => rfl

theorem quell_setTask (w : World) (t : TaskKey) (task : Task) :
    (w.setTask t task).quell = w.quell.setTask t task.quell := by
  simp [quell, setTask, List.map_set]

theorem quell_spawn (w : World) (task : Task) :
    (w.spawn task).quell = w.quell.spawn task.quell := by
  simp [quell, spawn]

theorem tasks_quell (w : World) (t : TaskKey) : w.quell.tasks[t]? = w.tasks[t]?.map Task.quell := by
  simp [quell]

theorem length_tasks_quell (w : World) : w.quell.tasks.length = w.tasks.length := by
  simp [quell]

/-! ### Turns -/

/-- What a turn comes to in a world without failures. -/
def quelled {α : Type} (x : World × α) : World × α := (x.1.quell, x.2)

theorem callTurn_quell (w : World) (call : Call) :
    w.quell.callTurn call = (w.callTurn call).map quelled := by
  cases call with
  | entering c =>
      simp only [callTurn, registry_quell]
      cases w.registry.admits with
      | true => rfl
      | false => rfl
  | waiting tk =>
      simp only [callTurn, registry_quell]
      cases w.registry.answer? tk with
      | none => rfl
      | some answer => rfl

theorem nextTarget_quell (w : World) (me : TaskKey) (b : Broadcast) (rest : List PeerKey) :
    w.quell.nextTarget me b rest = quelled (w.nextTarget me b rest) := by
  cases rest with
  | nil =>
      rw [nextTarget, nextTarget, quelled, quell_note w rfl]
  | cons k rest => rfl

theorem afterSend_quell (w : World) (me : TaskKey) (b : Broadcast) (k : PeerKey) (p : Peer)
    (rest : List PeerKey) (outcome : SendOutcome) :
    w.quell.afterSend me b k p rest outcome = quelled (w.afterSend me b k p rest outcome) := by
  cases outcome with
  | sent | closed => exact nextTarget_quell w me _ rest
  | failed f =>
      have hclose := quell_closePeer (w.note (.sendFailed k p.info f)) k
      rw [quell_note w rfl] at hclose
      simp only [afterSend, hclose, quelled]

theorem broadcastTurn_quell (w : World) (me : TaskKey) (b : Broadcast) :
    w.quell.broadcastTurn me b = (w.broadcastTurn me b).map quelled := by
  rw [broadcastTurn, broadcastTurn]
  cases b.stage with
  | asking call =>
      simp only [callTurn_quell]
      cases w.callTurn call with
      | none => rfl
      | some x =>
          obtain ⟨w', call | e | reply⟩ := x
          · rfl
          · simp only [Option.map_some, quelled]
            rw [← quell_note w' rfl, nextTarget_quell]
            rfl
          · simp only [Option.map_some, quelled]
            rw [← quell_note w' rfl, nextTarget_quell]
            rfl
  | sending k state rest =>
      simp only [peer?_quell, shutdown_quell]
      cases w.peer? k with
      | none => simp only [nextTarget_quell, Option.map_some]
      | some p =>
          simp only
          cases p.sendTurn me w.shutdown state with
          | none => rfl
          | some x =>
              obtain ⟨q, state'⟩ := x
              cases state' with
              | ended outcome =>
                  simp only [Option.map_some]
                  rw [← quell_setPeer, afterSend_quell]
              | fresh _ | queued _ | writing _ => rfl
  | pruning k call rest =>
      simp only [callTurn_quell]
      cases w.callTurn call with
      | none => rfl
      | some x =>
          obtain ⟨w', call | answer⟩ := x
          · rfl
          · simp only [Option.map_some, quelled, nextTarget_quell]
  | finished => rfl

theorem leave_quell (w : World) (wk : Worker) (p : Peer) (reason : Reason) :
    w.quell.leave wk p reason = quelled (w.leave wk p reason) := by
  rw [leave, leave, quelled, quell_note w rfl]

theorem afterRead_quell (w : World) (wk : Worker) (p : Peer) (result : ReadResult) :
    w.quell.afterRead wk p result = quelled (w.afterRead wk p result) := by
  cases result with
  | line l => rw [afterRead, afterRead, quelled, quell_note w rfl]
  | ended => exact leave_quell w wk p .disconnected
  | failed e =>
      simp only [afterRead]
      split_ifs
      · exact leave_quell w wk p .disconnected
      · rw [← quell_note w rfl, leave_quell]
  | notReady => rfl

theorem readTurn_quell (w : World) (wk : Worker) (c : Connection) :
    w.quell.readTurn wk c = (w.readTurn wk c).map quelled := by
  have hinlet : ∀ i, w.quell.setInlet wk.peer i = (w.setInlet wk.peer i).quell := fun _ => rfl
  simp only [readTurn, shutdown_quell, hinlet, leave_quell, afterRead_quell]
  split_ifs
  · rfl
  · rfl
  · rfl
  · rfl

theorem workerTurn_quell (w : World) (me : TaskKey) (wk : Worker) :
    w.quell.workerTurn me wk = (w.workerTurn me wk).map quelled := by
  simp only [workerTurn, connections_quell]
  cases w.connections[wk.peer]? with
  | none => rfl
  | some c =>
      simp only
      cases wk.stage with
      | registering call =>
          simp only [callTurn_quell]
          cases w.callTurn call with
          | none => rfl
          | some x =>
              obtain ⟨w', call | e | reply⟩ := x
              · rfl
              · simp only [Option.map_some, quelled]
                rw [← quell_note w' rfl, quell_closePeer]
              · simp only [Option.map_some, quelled]
                rw [← quell_note w' rfl]
      | reading => exact readTurn_quell w wk c
      | relaying b =>
          simp only [broadcastTurn_quell]
          cases w.broadcastTurn me b with
          | none => rfl
          | some x => rfl
      | leaving reason call =>
          simp only [callTurn_quell]
          cases w.callTurn call with
          | none => rfl
          | some x =>
              obtain ⟨w', call | answer⟩ := x
              · rfl
              · simp only [Option.map_some, quelled, quell_closePeer]
      | finished _ => rfl

theorem monitorTurn_quell (w : World) (mon : Monitor) :
    w.quell.monitorTurn mon = (w.monitorTurn mon).map quelled := by
  simp only [monitorTurn, shutdown_quell, now_quell]
  cases mon.stage with
  | sleeping due =>
      simp only
      split_ifs
      · rfl
      · rfl
      · rfl
  | sampling call =>
      simp only [callTurn_quell]
      cases w.callTurn call with
      | none => rfl
      | some x =>
          obtain ⟨w', call | e | reply⟩ := x
          · rfl
          · simp only [Option.map_some, quelled]
            rw [← quell_note w' rfl]
          · simp only [Option.map_some, quelled]
            rw [← quell_note w' rfl]
            rfl
  | finished => rfl

/-! ### Moves -/

/-- Whether a move is about a failure to accept: a listener has one ready, or
a server takes one. -/
def fails (w : World) : Move → Bool
  | .arrive _ a => a.isFailure
  | .turn t =>
      match w.tasks[t]? with
      | some (.server s) =>
          match s.stage, s.arrivals with
          | .accepting _, a :: _ => !w.shutdown && a.isFailure
          | _, _ => false
      | _ => false
  | _ => false

/-- A server that has no failure before it does what it would do without any. -/
theorem serverTurn_quell {s : Server} (ht : w.tasks[t]? = some (.server s))
    (h : w.fails (.turn t) = false) :
    w.quell.serverTurn { s with arrivals := s.arrivals.filter (!·.isFailure) }
      = (w.serverTurn s).map fun (w', s') =>
          (w'.quell, { s' with arrivals := s'.arrivals.filter (!·.isFailure) }) := by
  simp only [fails, ht] at h
  cases hstage : s.stage with
  | starting =>
      simp only [serverTurn, hstage, Option.map_some]
      rw [quell_note _ rfl, quell_spawn, length_tasks_quell]
      rfl
  | accepting monitor =>
      simp only [serverTurn, hstage, shutdown_quell]
      cases hdown : w.shutdown with
      | true =>
          simp only [if_true, Option.map_some]
          rw [quell_note _ rfl]
      | false =>
          simp only [hstage, hdown] at h ⊢
          cases harrivals : s.arrivals with
          | nil => rfl
          | cons a arrivals =>
              cases a with
              | failure f =>
                  rw [harrivals] at h
                  cases h
              | connection addr transport inlet =>
                  have hkept : (Arrival.connection addr transport inlet :: arrivals).filter
                      (!·.isFailure) = .connection addr transport inlet
                        :: arrivals.filter (!·.isFailure) := rfl
                  rw [if_neg Bool.false_ne_true, if_neg Bool.false_ne_true, hkept]
                  simp only [accept, Option.map_some, quell_spawn]
                  rfl
  | joining monitor =>
      have hended : w.quell.hasEnded monitor = w.hasEnded monitor := by
        rw [hasEnded, hasEnded, tasks_quell]
        cases w.tasks[monitor]? with
        | none => rfl
        | some task => cases task <;> rfl
      simp only [serverTurn, hstage, hended]
      split_ifs
      · simp only [Option.map_some]
        rw [quell_note _ rfl]
        rfl
      · rfl
  | finished => simp [serverTurn, hstage]

theorem taskTurn_quell {task : Task} (ht : w.tasks[t]? = some task)
    (h : w.fails (.turn t) = false) :
    w.quell.taskTurn t task.quell
      = (w.taskTurn t task).map fun (w', task') => (w'.quell, task'.quell) := by
  cases task with
  | send k state =>
      simp only [Task.quell, taskTurn, sendTaskTurn]
      show Option.map _ ((w.peer? k).bind _) = _
      cases w.peer? k with
      | none => rfl
      | some p =>
          simp only [Option.bind_some]
          show Option.map _ (Option.map _ (p.sendTurn t w.shutdown state)) = _
          cases p.sendTurn t w.shutdown state with
          | none => rfl
          | some x => rfl
  | awaitClose k finished =>
      simp only [Task.quell, taskTurn]
      show (if !finished && (w.peer? k).any (·.signalled w.shutdown) then _ else _) = _
      split_ifs
      · rfl
      · rfl
  | broadcast b =>
      simp only [Task.quell, taskTurn, broadcastTurn_quell]
      cases w.broadcastTurn t b with
      | none => rfl
      | some x => rfl
  | worker wk =>
      simp only [Task.quell, taskTurn, workerTurn_quell]
      cases w.workerTurn t wk with
      | none => rfl
      | some x => rfl
  | monitor mon =>
      simp only [Task.quell, taskTurn, monitorTurn_quell]
      cases w.monitorTurn mon with
      | none => rfl
      | some x => rfl
  | server s =>
      simp only [Task.quell, taskTurn, serverTurn_quell ht h]
      cases w.serverTurn s with
      | none => rfl
      | some x => rfl

theorem turn_quell (h : w.fails (.turn t) = false) :
    w.quell.turn t = (w.turn t).map quell := by
  rw [turn, turn, tasks_quell]
  cases ht : w.tasks[t]? with
  | none => rfl
  | some task =>
      simp only [Option.map_some, Option.bind_some, taskTurn_quell ht h]
      cases w.taskTurn t task with
      | none => rfl
      | some x => simp only [Option.map_some, quell_setTask]

theorem serve_quell (w : World) (rank : PeerId → Nat) :
    w.quell.serve rank = (w.serve rank).map quell := by
  show (w.registry.serve rank).map _ = _
  rw [serve]
  cases w.registry.serve rank with
  | none => rfl
  | some x =>
      obtain ⟨r, event⟩ := x
      cases event with
      | none => rfl
      | some e =>
          cases e with
          | registered _ => rfl
          | removed peer reason =>
              simp only [Option.map_some]
              rw [quell_note _ rfl]
              rfl

/-- A move that is about no failure does what it would do without any. -/
theorem move_quell (h : w.fails m = false) (hspawn : ∀ s, m ≠ .spawn (.server s)) :
    (w.move m).quell = w.quell.move m := by
  have hpeer : ∀ k f, (w.onPeer k f).quell = w.quell.onPeer k f := by
    intro k f
    rw [onPeer, onPeer, peer?_quell]
    cases w.peer? k with
    | none => rfl
    | some p => rfl
  cases m with
  | serve rank =>
      show ((w.serve rank).getD w).quell = (w.quell.serve rank).getD w.quell
      rw [serve_quell]
      cases w.serve rank with
      | none => rfl
      | some w' => rfl
  | turn t =>
      show ((w.turn t).getD w).quell = (w.quell.turn t).getD w.quell
      rw [turn_quell h]
      cases w.turn t with
      | none => rfl
      | some w' => rfl
  | supply k d =>
      show (w.supply k d).quell = w.quell.supply k d
      rw [supply, supply, connections_quell]
      cases w.connections[k]? with
      | none => rfl
      | some c => rfl
  | wake k | answer k a | fire k => exact hpeer k _
  | close k => rw [move, move, quell_closePeer]
  | arrive server a =>
      show (w.arrive server a).quell = w.quell.arrive server a
      rw [arrive, arrive, tasks_quell]
      cases w.tasks[server]? with
      | none => rfl
      | some task =>
          cases task with
          | server s =>
              have hkept : (s.arrivals ++ [a]).filter (!·.isFailure)
                  = s.arrivals.filter (!·.isFailure) ++ [a] := by
                rw [List.filter_append, List.filter_singleton, show a.isFailure = false from h]
                rfl
              simp only [quell_setTask, Task.quell, Option.map_some, hkept]
          | send _ _ | awaitClose _ _ | broadcast _ | worker _ | monitor _ => rfl
  | spawn task =>
      rw [move, move, quell_spawn]
      cases task with
      | server s => exact absurd rfl (hspawn s)
      | send _ _ | awaitClose _ _ | broadcast _ | worker _ | monitor _ => rfl
  | request c =>
      show (w.request c).quell = w.quell.request c
      show _ = if w.registry.admits then _ else _
      rw [request]
      split_ifs
      · rfl
      · rfl
  | shutdown | elapse _ | stopRegistry | connect _ => rfl

end World

end LineRelay
