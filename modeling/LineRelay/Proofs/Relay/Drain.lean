/-
# What a shutdown leaves

From the moment at which a relay is told to shut down, nobody writes and
no connection is taken in (`Fenced`).  Every task that takes a turn then
does so on its way out: a worker gives up the outlet it has or wants,
comes to its read point and leaves; a monitor that sleeps stops; the
server stops accepting and waits for its monitor.  So when nobody can go
on, the server, its monitor and all workers have ended, the registry is
empty, and nobody holds a peer (`Drained`).

## What this is not

It is not said that such a world is reached: a run may stop before, and a
registry that is not served keeps those who ask it waiting.  And it is
said of a server that has its peers to itself; one who closes a peer from
outside, or registers it, is not there.
-/
import LineRelay.Proofs.Relay.Quiet
import LineRelay.Proofs.Relay.Release

namespace LineRelay

/-! ## The server and its monitor -/

/-- A monitor goes on being one. -/
theorem MoveStep.monitor_stays {w w' : World} {m : Move} (h : MoveStep w m w') {t : TaskKey}
    {mon : Monitor} (ht : w.tasks[t]? = some (.monitor mon)) :
    ∃ mon', w'.tasks[t]? = some (.monitor mon') := by
  cases h.becomes ht with
  | stays _ ht' => exact ⟨mon, ht'⟩
  | turns _ hstep _ ht' =>
      cases hstep with
      | monitor _ => exact ⟨_, ht'⟩

/-- The server is there, and it has its monitor once it has begun. -/
def World.ServerHasMonitor (w : World) : Prop :=
  ∃ s, w.tasks[0]? = some (.server s)
    ∧ (s.stage = .starting ∨ ∃ (t : TaskKey) (mon : Monitor), w.tasks[t]? = some (.monitor mon)
        ∧ (s.stage = .accepting t ∨ s.stage = .joining t ∨ s.stage = .finished))

theorem World.ServerHasMonitor.step {w w' : World} {m : Move} (h : w.ServerHasMonitor)
    (hstep : MoveStep w m w') :
    w'.ServerHasMonitor := by
  obtain ⟨s, hs, hmonitored⟩ := h
  -- the monitor stays, and the server stands by it
  have hkeep : ∀ {s' : Server}, w'.tasks[0]? = some (.server s') →
      (∀ t, s.stage = .accepting t → s'.stage = .accepting t ∨ s'.stage = .joining t) →
      (∀ t, s.stage = .joining t → s'.stage = .joining t ∨ s'.stage = .finished) →
      (s.stage = .finished → s'.stage = .finished) → s.stage ≠ .starting → w'.ServerHasMonitor := by
    intro s' hs' haccepting hjoining hfinished hbegun
    rcases hmonitored with hstarting | ⟨t, mon, ht, hstage⟩
    · exact absurd hstarting hbegun
    · obtain ⟨mon', ht'⟩ := hstep.monitor_stays ht
      refine ⟨s', hs', .inr ⟨t, mon', ht', ?_⟩⟩
      rcases hstage with hstage | hstage | hstage
      · exact (haccepting t hstage).imp_right .inl
      · exact .inr (hjoining t hstage)
      · exact .inr (.inr (hfinished hstage))
  have hsame : ∀ {s' : Server}, w'.tasks[0]? = some (.server s') → s'.stage = s.stage →
      w'.ServerHasMonitor := by
    intro s' hs' hstage
    by_cases hstarting : s.stage = .starting
    · exact ⟨s', hs', .inl (hstage.trans hstarting)⟩
    · refine hkeep hs' ?_ ?_ ?_ hstarting
      · exact fun t h => .inl (hstage.trans h)
      · exact fun t h => .inl (hstage.trans h)
      · exact fun h => hstage.trans h
  cases hstep.becomes hs with
  | stays _ hs' => exact hsame hs' rfl
  | arrives _ hs' => exact hsame hs' rfl
  | turns _ hturn hw' htask' =>
      cases hturn with
      | server hserver =>
          cases hserver with
          | starts hstage =>
              obtain ⟨hlt, -⟩ := List.getElem?_eq_some_iff.1 hs
              refine ⟨_, htask', .inr ⟨w.tasks.length, w.newMonitor s.interval, ?_, .inl rfl⟩⟩
              rw [hw', World.tasks_setTask, if_neg hlt.ne']
              exact List.getElem?_concat_length
          | ends hstage _ | misses hstage _ _ | accepts hstage _ _ | joins hstage _ =>
              refine hkeep htask' ?_ ?_ ?_ ?_ <;> simp [hstage]

/-- In every world of a run of one server, the server is there. -/
theorem World.serverHasMonitor_run {listen : String} {maxLine : Option UInt64} {interval : Nat}
    {moves : List Move} (hmoves : ∀ m ∈ moves, m.Hosted) :
    ((hosting listen maxLine interval).run moves).ServerHasMonitor :=
  run_induction (P := fun moves => ((hosting listen maxLine interval).run moves).ServerHasMonitor)
    ⟨_, rfl, .inl rfl⟩ (fun _ h hstep => h.step hstep) (permitted_of_hosted hmoves _)

/-! ## The fence -/

/-- The transports have the bytes they had, and no connection has come. -/
structure World.Fenced (w₀ w : World) : Prop where
  received : ∀ {k : PeerKey} {p : Peer}, w₀.peer? k = some p →
    ∃ q, w.peer? k = some q ∧ q.received = p.received
  connections : w.connections.length = w₀.connections.length

/-- What has come of the world `w₀` since the relay was told to shut down. -/
structure World.Draining (w₀ w : World) : Prop extends w₀.Fenced w where
  shutdown : w.shutdown = true
  workers : ∀ {t : TaskKey} {wk : Worker}, w₀.tasks[t]? = some (.worker wk) →
    (∀ reason ∈ wk.reason?, reason = .shutdown) →
    ∃ wk', w.tasks[t]? = some (.worker wk') ∧ ∀ reason ∈ wk'.reason?, reason = .shutdown

/-- After a shutdown, a worker that stops reading does so for that reason. -/
theorem WorkerStep.reason? {w w' : World} {me : TaskKey} {wk wk' : Worker} {c : Connection}
    (h : WorkerStep w me wk c w' wk') (hshutdown : w.shutdown = true)
    (hbefore : ∀ reason ∈ wk.reason?, reason = .shutdown) :
    ∀ reason ∈ wk'.reason?, reason = .shutdown := by
  intro reason hreason
  cases h with
  | registers _ _ | starts _ _ => cases hreason
  | drops _ _ =>
      cases hreason
      rfl
  | quits _ hwhy =>
      cases hreason
      rcases hwhy with ⟨-, hreason⟩ | ⟨hopen, -⟩
      · exact hreason
      · cases hshutdown.symm.trans hopen
  | reads _ hopen _ _ | stops _ hopen _ _ _ | pauses _ hopen _ _ =>
      cases hshutdown.symm.trans hopen
  | relays _ _ =>
      simp only [Worker.reason?] at hreason
      split_ifs at hreason <;> cases hreason
  | unregisters hstage _ | leaves hstage _ =>
      cases hreason
      exact hbefore _ (by simp [Worker.reason?, hstage])

namespace World

variable {w₀ w w' : World} {m : Move}

theorem Draining.received_step (h : w₀.Draining w) (hstaff : w.Staffed) (hstep : MoveStep w m w')
    {k : PeerKey} {p : Peer} (hp : w₀.peer? k = some p) :
    ∃ q, w'.peer? k = some q ∧ q.received = p.received := by
  obtain ⟨q, hq, hreceived⟩ := h.received hp
  obtain ⟨r, hr, -⟩ := hstep.lasts hq
  refine ⟨r, hr, Eq.trans ?_ hreceived⟩
  cases hstep.outlet hq hr with
  | drifts hdrift _ => exact hdrift.received
  | acts _ _ hsend hdrift _ _ _ =>
      -- whoever takes a turn there finds the close signal fired
      have hsignalled : q.signalled w.shutdown = true := by
        simp [Peer.signalled, (hstaff.peers hq).2.1, h.shutdown]
      have houtlet := hsend.outlet_of_signalled hsignalled
      rw [hdrift.received, Peer.received, houtlet, Peer.received]

theorem Draining.step (h : w₀.Draining w) (hstaff : w.Staffed) (hm : m.Hosted)
    (hstep : MoveStep w m w') : w₀.Draining w' where
  received := h.received_step hstaff hstep
  connections := by
    rcases hstep.accepts hm.orderly with hsame | ⟨t, -, haccepts⟩
    · exact hsame.trans h.connections
    · cases haccepts with
      | intro hopen _ _ _ => cases h.shutdown.symm.trans hopen
  shutdown := hstep.shutdown h.shutdown
  workers := by
    intro t wk₀ ht₀ hbefore
    obtain ⟨wk, ht, hleaves⟩ := h.workers ht₀ hbefore
    exact hstep.worker_keeps ht hleaves fun hworker => hworker.reason? h.shutdown hleaves

/-- From the shutdown on, a run of one server drains. -/
theorem draining_run {listen : String} {maxLine : Option UInt64} {interval : Nat}
    {pre post : List Move} (hmoves : ∀ m ∈ pre ++ .shutdown :: post, m.Hosted) :
    ((hosting listen maxLine interval).run pre).Draining
      ((hosting listen maxLine interval).run (pre ++ .shutdown :: post)) := by
  induction post using List.reverseRecOn with
  | nil =>
      rw [run_concat]
      exact ⟨⟨fun hp => ⟨_, hp, rfl⟩, rfl⟩, rfl, fun ht hbefore => ⟨_, ht, hbefore⟩⟩
  | append_singleton post m ih =>
      have hsplit : pre ++ .shutdown :: (post ++ [m]) = (pre ++ .shutdown :: post) ++ [m] := by
        simp
      rw [hsplit] at hmoves ⊢
      have hbefore : ∀ m ∈ pre ++ .shutdown :: post, m.Hosted := fun m hm =>
        hmoves m (List.mem_append_left _ hm)
      have hm : m.Hosted := hmoves m (by simp)
      rw [run_concat]
      exact (ih hbefore).step (staffed_run hbefore) hm (moveStep_move (hm.permits _))

end World

/-! ## When nobody can go on -/

namespace World

variable {w : World}

/-- A monitor stops at a shutdown. -/
theorem Quiet.monitor_finished (h : w.Quiet) (hw : w.Requests) (hshutdown : w.shutdown = true)
    {t : TaskKey} {mon : Monitor} (ht : w.tasks[t]? = some (.monitor mon)) :
    mon.stage = .finished := by
  cases hstage : mon.stage with
  | finished => rfl
  | sleeping due =>
      have hidle := h.idle ht
      simp [taskTurn, monitorTurn, hstage, hshutdown] at hidle
  | sampling call =>
      have hcall := h.call? hw t
      simp [World.call?, ht, Task.call?, hstage] at hcall

/-- So does a server, once its monitor has. -/
theorem Quiet.server_finished (h : w.Quiet) (hw : w.Requests) (hmonitored : w.ServerHasMonitor)
    (hshutdown : w.shutdown = true) : (∃ s, w.tasks[0]? = some (.server s) ∧ s.stage = .finished)
      ∧ ∃ (t : TaskKey) (mon : Monitor), w.tasks[t]? = some (.monitor mon)
        ∧ mon.stage = .finished := by
  obtain ⟨s, hs, hstage⟩ := hmonitored
  have hidle := h.idle hs
  rcases hstage with hstage | ⟨t, mon, ht, hstage⟩
  · simp [taskTurn, serverTurn, hstage] at hidle
  · have hmon := h.monitor_finished hw hshutdown ht
    rcases hstage with hstage | hstage | hstage
    · simp [taskTurn, serverTurn, hstage, hshutdown] at hidle
    · have hended : w.hasEnded t = true := by simp [hasEnded, ht, Task.isOver, Task.value?, hmon]
      simp [taskTurn, serverTurn, hstage, hended] at hidle
    · exact ⟨⟨s, hs, hstage⟩, t, mon, ht, hmon⟩

/-- What is known of a quiet world of a run of one server, after a shutdown
and while the registry serves. -/
structure QuietAfterShutdown (w : World) : Prop extends Quiet w where
  requests : w.Requests
  locks : w.Locks
  stagesOpen : w.StagesOpen
  staff : w.Staffed
  serverHasMonitor : w.ServerHasMonitor
  enlists : w.Enlists fun _ => False
  serving : w.registry.service = .serving
  shutdown : w.shutdown = true

namespace QuietAfterShutdown

theorem worker (h : w.QuietAfterShutdown) {t : TaskKey} {wk : Worker}
    (ht : w.tasks[t]? = some (.worker wk)) :
    ∃ reason, wk.stage = .finished reason :=
  h.finished h.requests h.locks h.stagesOpen h.staff h.shutdown ht

/-- Every task has ended. -/
theorem isOver (h : w.QuietAfterShutdown) {t : TaskKey} {task : Task}
    (ht : w.tasks[t]? = some task) :
    task.isOver = true := by
  have hemployed := h.staff.employed ht
  match task with
  | .worker wk =>
      obtain ⟨reason, hstage⟩ := h.worker ht
      simp [Task.isOver, Task.value?, hstage]
  | .monitor mon =>
      have hstage := h.monitor_finished h.requests h.shutdown ht
      simp [Task.isOver, Task.value?, hstage]
  | .server s =>
      obtain ⟨⟨s', hs', hstage⟩, -⟩ := h.server_finished h.requests h.serverHasMonitor h.shutdown
      obtain rfl := (h.staff.server ht).1
      cases ht.symm.trans hs'
      simp [Task.isOver, Task.value?, hstage]
  | .send _ _ | .awaitClose _ _ | .broadcast _ => cases hemployed

/-- Nobody is registered. -/
theorem members (h : w.QuietAfterShutdown) : w.registry.membership.members = [] := by
  refine List.eq_nil_iff_forall_not_mem.2 ?_
  intro a ha
  rcases h.enlists a ha with houtside | ⟨t, wk, ht, -, hstays⟩
  · exact houtside
  · obtain ⟨reason, hstage⟩ := h.worker ht
    exact hstays.here reason hstage

/-- Everyone was removed as often as registered. -/
theorem departures (h : w.QuietAfterShutdown) (id : PeerId) :
    w.registry.departures id = w.registry.arrivals id := by
  have hbalance := h.requests.balanced h.serving id
  simpa [Membership.contains, Membership.find?, h.members] using hbalance.symm

/-- A task that has ended holds no peer. -/
theorem heldByTask (h : w.QuietAfterShutdown) {t : TaskKey} {task : Task}
    (ht : w.tasks[t]? = some task) :
    w.heldByTask task = [] := by
  have hemployed := h.staff.employed ht
  match task with
  | .monitor _ | .server _ => rfl
  | .worker wk =>
      obtain ⟨reason, hstage⟩ := h.worker ht
      simp [World.heldByTask, hstage]
  | .send _ _ | .awaitClose _ _ | .broadcast _ => cases hemployed

/-- Nobody holds a peer. -/
theorem isHeld (h : w.QuietAfterShutdown) (k : PeerKey) : w.isHeld k = false := by
  rw [World.isHeld, Bool.or_eq_false_iff, List.any_eq_false]
  constructor
  · simp [heldByRegistry, h.members, h.queue]
  · intro task htask
    obtain ⟨t, ht⟩ := List.mem_iff_getElem?.1 htask
    rw [h.heldByTask ht]
    exact Bool.false_ne_true

end QuietAfterShutdown

/-- What is left of a relay that was told to shut down in the world `w₀`. -/
structure Drained (w₀ w : World) : Prop where
  ended : ∀ task ∈ w.tasks, task.isOver = true
  server : ∃ s, w.tasks[0]? = some (.server s) ∧ s.stage = .finished
  monitor : ∃ (t : TaskKey) (mon : Monitor), w.tasks[t]? = some (.monitor mon)
    ∧ mon.stage = .finished
  workers : ∀ {t : TaskKey} {wk : Worker}, w₀.tasks[t]? = some (.worker wk) → wk.reason? = none →
    ∃ wk', w.tasks[t]? = some (.worker wk') ∧ wk'.stage = .finished .shutdown
  members : w.registry.membership.members = []
  removed : ∀ id, w.registry.departures id = w.registry.arrivals id
  once : w.connections.length ≤ UInt64.size → ∀ k p, w.peer? k = some p →
    w.registry.arrivals p.info.id = 1 ∧ w.registry.departures p.info.id = 1
  released : ∀ k, w.isHeld k = false

end World

/-- In every run of one server, from the shutdown on no transport is given
another byte and no connection is taken in; and in every world after it in
which nobody can go on while the registry serves, the server and its monitor
have ended, as have all workers, and for the shutdown those who were in their
read loop when it came; the registry is empty, everyone who was registered
has been removed as often, and every transport is let go. -/
theorem shutdown_drains {listen : String} {maxLine : Option UInt64} {interval : Nat}
    {pre post : List Move} (hmoves : ∀ m ∈ pre ++ .shutdown :: post, m.Hosted) {w₀ w : World}
    (hpre : (World.hosting listen maxLine interval).run pre = w₀)
    (hw : (World.hosting listen maxLine interval).run (pre ++ .shutdown :: post) = w) :
    w₀.Fenced w
    ∧ (w.registry.service = .serving → w.isQuiet = true → w₀.Drained w) := by
  have hdraining : w₀.Draining w := by
    subst hpre hw
    exact World.draining_run hmoves
  refine ⟨hdraining.toFenced, ?_⟩
  intro hserving hquiet
  have h₀ := World.isNew_hosting listen maxLine interval
  have hpermitted := permitted_of_hosted hmoves (World.hosting listen maxLine interval)
  have hend : w.QuietAfterShutdown := by
    subst hw
    refine ⟨World.quiet_of_isQuiet hquiet, World.requests_run h₀.requests hpermitted,
      World.locks_run h₀.locks hpermitted, World.stagesOpen_run h₀.stagesOpen hpermitted,
      World.staffed_run hmoves, World.serverHasMonitor_run hmoves, ?_, hserving, hdraining.shutdown⟩
    exact (World.enlists_run h₀ hpermitted hserving).mono fun a ha => hmoves _ ha
  obtain ⟨hserver, hmonitor⟩ :=
    hend.server_finished hend.requests hend.serverHasMonitor hend.shutdown
  refine ⟨?_, hserver, hmonitor, ?_, hend.members, hend.departures, ?_, hend.isHeld⟩
  · intro task htask
    obtain ⟨t, ht⟩ := List.mem_iff_getElem?.1 htask
    exact hend.isOver ht
  · intro t wk₀ ht₀ hup
    obtain ⟨wk, ht, hreason⟩ := hdraining.workers ht₀ (by simp [hup])
    obtain ⟨reason, hstage⟩ := hend.worker ht
    obtain rfl := hreason reason (by simp [Worker.reason?, hstage])
    exact ⟨wk, ht, hstage⟩
  · intro hsize k p hp
    have hrests : w.QuietHosted := by
      subst hw
      exact ⟨hend.toQuiet, hend.requests, hend.locks, hend.staff,
        World.roster_run hmoves hserving hsize, hend.stagesOpen⟩
    have hone := hrests.arrivals hp
    rw [← (hend.staff.peers hp).1] at hone
    exact ⟨hone, (hend.departures _).trans hone⟩

/-- Two connections: the worker of the first stands with a line at the second,
whose transport stalls. -/
def stalling : List Move :=
  let joins (transport : Transport) : Move := .arrive 0 (.connection ⟨"peer"⟩ transport .silent)
  let asks (t : TaskKey) : List Move := [.turn t, .serve World.byId, .turn t]
  [.turn 0, joins {}, joins { writesAfter := .stalls }, .turn 0, .turn 0] ++ asks 2 ++ asks 3
    ++ [.supply 0 (.data [104, 105, 10]), .turn 2] ++ asks 2 ++ [.turn 2]

/-- What then happens on a shutdown. -/
def leaving : List Move :=
  let asks (t : TaskKey) : List Move := [.turn t, .serve World.byId, .turn t]
  [.turn 2, .turn 2] ++ asks 2 ++ [.turn 3] ++ asks 3 ++ [.turn 1, .turn 0, .turn 0]

set_option maxRecDepth 4000 in
/-- A shutdown drains `stalling`: both workers end for it, and both peers are
removed. -/
theorem shutdown_drains_stalling : (∀ m ∈ stalling ++ .shutdown :: leaving, m.Hosted)
    ∧ ∃ w₀ w, (World.hosting "relay" none 1000).run stalling = w₀
      ∧ (World.hosting "relay" none 1000).run (stalling ++ .shutdown :: leaving) = w
      ∧ w₀.at? 2 = some (1, .writing .emptying) ∧ w.registry.service = .serving
      ∧ w.isQuiet = true ∧ w₀.Fenced w ∧ w₀.Drained w := by
  have hmoves : ∀ m ∈ stalling ++ .shutdown :: leaving, m.Hosted := by decide
  have hat : ((World.hosting "relay" none 1000).run stalling).at? 2
      = some (1, .writing .emptying) := by decide +kernel
  have hserving : ((World.hosting "relay" none 1000).run
      (stalling ++ .shutdown :: leaving)).registry.service = .serving := by decide +kernel
  have hquiet : ((World.hosting "relay" none 1000).run
      (stalling ++ .shutdown :: leaving)).isQuiet = true := by decide +kernel
  obtain ⟨hfenced, hdrained⟩ := shutdown_drains hmoves rfl rfl
  exact ⟨hmoves, _, _, rfl, rfl, hat, hserving, hquiet, hfenced, hdrained hserving hquiet⟩

end LineRelay
