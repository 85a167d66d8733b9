/-
# Failures to accept

What a server's listener has ready is a connection or a failure, in any order
(`World.offers`).  Leave out of a run the moves that are about failures, those
in which one becomes ready and those in which the server takes one
(`World.spared`), and a run of the server without failures is left:

| | with the failures | without |
| :-- | :-- | :-- |
| the registry, the peers, the samples | the same | the same |
| the tasks | the same, with failures ready | the same |
| the journal | the same, with the failures noted | the same |

at each moment (`World.quell`).  The connection in the place `k` of those that
were ready becomes the peer with the number `k + 1`, and one worker has it
(`World.Seated`); there is one monitor.  The other way round, a run without
failures is what a run with any failures, wherever they come, leaves
(`World.exists_run_of_spared`).

## What this is not

How long the server takes over a failure is not looked at: to take one is a
turn like others.
-/
import LineRelay.Proofs.Relay.Failures
import LineRelay.Proofs.Relay.Inputs
import LineRelay.Proofs.Relay.Sampling

namespace LineRelay

/-- Whether a move is neither a turn of the server nor something that a
listener has ready. -/
def Move.isElsewhere : Move → Bool
  | .arrive _ _ | .turn 0 => false
  | _ => true

/-- Whether in a move a listener has a failure ready. -/
def Move.isFailure : Move → Bool
  | .arrive _ a => a.isFailure
  | _ => false

namespace World

variable {w w' w₀ : World} {m : Move} {t : TaskKey} {k : PeerKey} {moves : List Move}

/-! ## A run without its failures -/

/-- Writing down the task that is there changes nothing. -/
theorem setTask_self {task : Task} (h : w.tasks[t]? = some task) : w.setTask t task = w := by
  obtain ⟨hlt, rfl⟩ := List.getElem?_eq_some_iff.1 h
  rw [setTask, List.set_getElem_self]

/-- The server that takes a failure, and what it goes on with. -/
theorem of_fails_turn (h : w.fails (.turn t) = true) :
    ∃ s f arrivals, w.tasks[t]? = some (.server s) ∧ s.arrivals = .failure f :: arrivals
      ∧ w.turn t = some ((w.note (.acceptFailed f)).setTask t (.server { s with arrivals })) := by
  rw [fails] at h
  split at h
  · rename_i s ht
    split at h
    · rename_i monitor a arrivals hstage harrivals
      rw [Bool.and_eq_true, Bool.not_eq_true'] at h
      cases a with
      | connection _ _ _ => cases h.2
      | failure f =>
          refine ⟨s, f, arrivals, ht, harrivals, ?_⟩
          simp [turn, ht, taskTurn, serverTurn, hstage, h.1, harrivals, accept]
    · cases h
  · cases h

/-- In a world without failures, a move that is about one is no move. -/
theorem quell_move_of_fails (h : w.fails m = true) : (w.move m).quell = w.quell := by
  cases m with
  | arrive t a =>
      show (w.arrive t a).quell = w.quell
      have ha : a.isFailure = true := h
      rw [arrive]
      cases ht : w.tasks[t]? with
      | none => rfl
      | some task =>
          cases task with
          | server s =>
              have hkept : (s.arrivals ++ [a]).filter (!·.isFailure)
                  = s.arrivals.filter (!·.isFailure) := by
                rw [List.filter_append, List.filter_singleton, ha]
                exact List.append_nil _
              have htask : w.quell.tasks[t]? = some (Task.server s).quell := by
                rw [tasks_quell, ht]
                rfl
              show (w.setTask t _).quell = _
              rw [quell_setTask, Task.quell, hkept]
              exact setTask_self htask
          | send _ _ | awaitClose _ _ | broadcast _ | worker _ | monitor _ => rfl
  | turn t =>
      obtain ⟨s, f, arrivals, ht, harrivals, hturn⟩ := of_fails_turn h
      have hkept : s.arrivals.filter (!·.isFailure) = arrivals.filter (!·.isFailure) := by
        rw [harrivals]
        rfl
      have htask : w.quell.tasks[t]? = some (Task.server { s with arrivals }).quell := by
        rw [tasks_quell, ht, Option.map_some, Task.quell, hkept]
        rfl
      have hnote : (w.note (.acceptFailed f)).quell = w.quell := by
        simp [quell, note, Note.isFailure]
      rw [move_turn_of_some hturn, quell_setTask, hnote]
      exact setTask_self htask
  | serve _ | supply _ _ | wake _ | answer _ _ | shutdown | elapse _ | stopRegistry | connect _
  | spawn _ | close _ | fire _ | request _ => cases h

/-- The move, unless it is about a failure. -/
def sparing (w : World) (m : Move) : List Move := if w.fails m then [] else [m]

/-- The moves of a run without those that are about failures. -/
def spared (w : World) (moves : List Move) : List Move := record sparing w moves

theorem spared_concat (w : World) (moves : List Move) (m : Move) :
    w.spared (moves ++ [m]) = w.spared moves ++ (w.run moves).sparing m :=
  record_concat _ w moves m

theorem spared_append (w : World) (moves moves' : List Move) :
    w.spared (moves ++ moves') = w.spared moves ++ (w.run moves).spared moves' := by
  induction moves' using List.reverseRecOn with
  | nil => simp [spared, record]
  | append_singleton moves' m ih =>
      rw [← List.append_assoc, spared_concat, spared_concat, ih, run_append, List.append_assoc]

theorem spared_sublist (w : World) (moves : List Move) : (w.spared moves).Sublist moves := by
  induction moves using List.reverseRecOn with
  | nil => exact List.Sublist.refl _
  | append_singleton moves m ih =>
      rw [spared_concat, sparing]
      split_ifs
      · rw [List.append_nil]
        exact ih.trans (List.sublist_append_left _ _)
      · exact ih.append_right _

/-- A run comes to the same without its failures. -/
theorem run_quell (hmoves : ∀ m ∈ moves, m.Hosted) :
    (w.run moves).quell = w.quell.run (w.spared moves) := by
  induction moves using List.reverseRecOn with
  | nil => rfl
  | append_singleton moves m ih =>
      have ih := ih fun m' hm' => hmoves m' (List.mem_append_left _ hm')
      have hspawn : ∀ s, m ≠ .spawn (.server s) := by
        rintro s rfl
        exact hmoves (.spawn (.server s)) (by simp)
      rw [run_concat, spared_concat, sparing, run_append, ← ih]
      cases h : (w.run moves).fails m with
      | true =>
          rw [if_pos rfl, quell_move_of_fails h]
          rfl
      | false =>
          rw [if_neg Bool.false_ne_true, move_quell h hspawn]
          rfl

/-! ### What is left out -/

/-- What the listener of the task `t` has ready in a run, in order. -/
def offers (t : TaskKey) (moves : List Move) : List Arrival :=
  moves.filterMap fun
    | .arrive t' a => if t = t' then some a else none
    | _ => none

theorem offers_append (t : TaskKey) (moves moves' : List Move) :
    offers t (moves ++ moves') = offers t moves ++ offers t moves' := List.filterMap_append

theorem offers_of_ne_arrive {t : TaskKey} (h : ∀ a, m ≠ .arrive t a) : offers t [m] = [] := by
  cases m with
  | arrive t' a =>
      have ht : ¬ t = t' := fun e => h a (by rw [e])
      simp [offers, ht]
  | turn _ | serve _ | supply _ _ | wake _ | answer _ _ | shutdown | elapse _ | stopRegistry
  | connect _ | spawn _ | close _ | fire _ | request _ => rfl

/-- What is offered in a run without its failures. -/
theorem offers_spared (w : World) (t : TaskKey) (moves : List Move) :
    offers t (w.spared moves) = (offers t moves).filter (!·.isFailure) := by
  induction moves using List.reverseRecOn with
  | nil => rfl
  | append_singleton moves m ih =>
      rw [spared_concat, offers_append, offers_append, List.filter_append, ih, sparing]
      refine congrArg _ ?_
      cases m with
      | arrive t' a =>
          show offers t (if a.isFailure then [] else [.arrive t' a]) = _
          by_cases ht : t = t'
          · cases ha : a.isFailure <;> simp [offers, ht, ha]
          · cases a.isFailure <;> simp [offers, ht]
      | turn t' => split_ifs <;> rfl
      | serve _ | supply _ _ | wake _ | answer _ _ | shutdown | elapse _ | stopRegistry
      | connect _ | spawn _ | close _ | fire _ | request _ => rfl

/-- What is left out of a run are arrivals, and turns of the server. -/
theorem filter_isElsewhere_spared {listen : String} {maxLine : Option UInt64} {interval : Nat}
    (hmoves : ∀ m ∈ moves, m.Hosted) :
    ((hosting listen maxLine interval).spared moves).filter (·.isElsewhere)
      = moves.filter (·.isElsewhere) := by
  induction moves using List.reverseRecOn with
  | nil => rfl
  | append_singleton moves m ih =>
      have hbefore : ∀ m ∈ moves, m.Hosted := fun m hm => hmoves m (List.mem_append_left _ hm)
      rw [spared_concat, List.filter_append, List.filter_append, ih hbefore, sparing]
      split_ifs with h
      · have helsewhere : m.isElsewhere = false := by
          cases m with
          | arrive _ _ => rfl
          | turn t =>
              obtain ⟨s, -, -, ht, -⟩ := of_fails_turn h
              obtain rfl := ((staffed_run hbefore).server ht).1
              rfl
          | serve _ | supply _ _ | wake _ | answer _ _ | shutdown | elapse _ | stopRegistry
          | connect _ | spawn _ | close _ | fire _ | request _ => cases h
        rw [List.filter_singleton, helsewhere]
        rfl
      · rfl

end World

/-! ## Who is there -/

/-- The part that a task has in a relay: a server, which may have begun, a
monitor, the worker of a connection, or none. -/
inductive Seat where
  | server (begun : Bool)
  | monitor
  | worker (peer : PeerKey)
  | other
deriving DecidableEq

/-- The part of a task. -/
def Task.seat : Task → Seat
  | .server s => .server (s.stage ≠ .starting)
  | .monitor _ => .monitor
  | .worker wk => .worker wk.peer
  | .send _ _ | .awaitClose _ _ | .broadcast _ => .other

/-- The parts of the tasks, by their keys. -/
def World.seats (w : World) : List Seat := w.tasks.map Task.seat

/-- A server that has not begun is alone; one that has begun has one monitor,
and a worker for each connection. -/
inductive World.Seated (w : World) : Prop
  | idle : w.seats = [.server false] → w.connections = [] → w.Seated
  | busy : w.seats = .server true :: .monitor :: (List.range w.connections.length).map .worker →
      w.Seated

namespace World

variable {w w' w₀ : World} {m : Move} {t : TaskKey} {k : PeerKey} {moves : List Move}

theorem seats_of_tasks (h : w'.tasks = w.tasks) : w'.seats = w.seats :=
  congrArg (List.map Task.seat) h

theorem seat_of_task {task : Task} (h : w.tasks[t]? = some task) :
    w.seats[t]? = some task.seat := by
  rw [seats, List.getElem?_map, h]
  rfl

/-- A task that keeps its part keeps its seat. -/
theorem seats_setTask {task : Task} (h : w.seats[t]? = some task.seat) :
    (w.setTask t task).seats = w.seats := by
  obtain ⟨hlt, hseat⟩ := List.getElem?_eq_some_iff.1 h
  rw [seats, setTask, List.map_set, ← hseat]
  exact List.set_getElem_self hlt

theorem Seated.of_same (h : w.Seated) (hseats : w'.seats = w.seats)
    (hlength : w'.connections.length = w.connections.length) : w'.Seated := by
  cases h with
  | idle hidle hnone =>
      rw [hnone] at hlength
      exact .idle (hseats.trans hidle) (List.eq_nil_of_length_eq_zero hlength)
  | busy hbusy => exact .busy (by rw [hseats, hbusy, hlength])

/-- A server that begins is alone. -/
theorem Seated.idle_of_starting (h : w.Seated) {s : Server} (ht : w.tasks[t]? = some (.server s))
    (hstage : s.stage = .starting) :
    t = 0 ∧ w.seats = [.server false] ∧ w.connections = [] := by
  have hseat : w.seats[t]? = some (.server false) := by
    rw [seat_of_task ht]
    simp [Task.seat, hstage]
  cases h with
  | idle hseats hnone =>
      obtain ⟨hlt, -⟩ := List.getElem?_eq_some_iff.1 hseat
      rw [hseats] at hlt
      exact ⟨Nat.lt_one_iff.1 hlt, hseats, hnone⟩
  | busy hseats =>
      have hmem := List.mem_of_getElem? hseat
      rw [hseats] at hmem
      simp at hmem

/-- A server that has begun has its monitor and its workers. -/
theorem Seated.busy_of_begun (h : w.Seated) {s : Server} (ht : w.tasks[t]? = some (.server s))
    (hstage : s.stage ≠ .starting) :
    w.seats = .server true :: .monitor :: (List.range w.connections.length).map .worker := by
  have hseat : w.seats[t]? = some (.server true) := by
    rw [seat_of_task ht]
    simp [Task.seat, hstage]
  cases h with
  | idle hseats _ =>
      have hmem := List.mem_of_getElem? hseat
      rw [hseats] at hmem
      simp at hmem
  | busy hseats => exact hseats

/-- A task that starts takes the last seat. -/
theorem seats_spawn (w : World) (task : Task) : (w.spawn task).seats = w.seats ++ [task.seat] :=
  List.map_append

/-- What a step of a server makes of the seats. -/
theorem Seated.server_step (h : w.Seated) {s s' : Server} {w₁ : World}
    (ht : w.tasks[t]? = some (.server s)) (hstep : ServerStep w s w₁ s') :
    (w₁.setTask t (.server s')).Seated := by
  have hseat := seat_of_task ht
  -- a server that has begun stays where it is
  have hstays : w₁.tasks = w.tasks → w₁.connections = w.connections → s.stage ≠ .starting →
      s'.stage ≠ .starting → (w₁.setTask t (.server s')).Seated := by
    intro htasks hconnections hs hs'
    refine h.of_same ((seats_setTask ?_).trans (seats_of_tasks htasks)) ?_
    · rw [seats_of_tasks htasks, hseat]
      simp [Task.seat, hs, hs']
    · exact congrArg List.length hconnections
  cases hstep with
  | starts hstage =>
      obtain ⟨rfl, hseats, hnone⟩ := h.idle_of_starting ht hstage
      refine .busy ?_
      have hspawn := seats_spawn w (.monitor (w.newMonitor s.interval))
      rw [hseats] at hspawn
      have hlength : w.connections.length = 0 := by rw [hnone]; rfl
      show ((w.spawn (.monitor (w.newMonitor s.interval))).tasks.set 0 _).map Task.seat
        = _ :: _ :: (List.range w.connections.length).map _
      rw [List.map_set, hlength]
      show (w.spawn (.monitor (w.newMonitor s.interval))).seats.set 0 _ = _
      rw [hspawn]
      rfl
  | ends hstage _ => exact hstays rfl rfl (by simp [hstage]) ServerStage.noConfusion
  | misses hstage _ _ => exact hstays rfl rfl (by simp [hstage]) ServerStage.noConfusion
  | joins hstage _ => exact hstays rfl rfl (by simp [hstage]) ServerStage.noConfusion
  | @accepts monitor addr transport inlet arrivals hstage _ _ =>
      have hbegun : s.stage ≠ .starting := by simp [hstage]
      have hseats := h.busy_of_begun ht hbegun
      have hspawn := seats_spawn (w.connect ⟨w.newPeer s.nextId addr transport, inlet⟩)
        (.worker (newWorker w.connections.length (w.newPeer s.nextId addr transport) s.maxLine))
      have hconnect : (w.connect ⟨w.newPeer s.nextId addr transport, inlet⟩).seats = w.seats := rfl
      refine .busy ((seats_setTask ?_).trans ?_)
      · obtain ⟨hlt, -⟩ := List.getElem?_eq_some_iff.1 hseat
        rw [hspawn, hconnect, List.getElem?_append_left hlt, hseat]
        simp [Task.seat, hbegun]
      · rw [hspawn, hconnect, hseats]
        show _ = Seat.server true :: .monitor :: (List.range (w.connections ++ [_]).length).map _
        rw [List.length_append, List.length_singleton, List.range_succ, List.map_append]
        rfl

theorem Seated.step (h : w.Seated) (hstep : MoveStep w m w') (hm : m.Hosted) : w'.Seated := by
  cases hstep with
  | idles | serves _ _ | requests _ _ | stops => exact h.of_same rfl rfl
  | closes | fires | connects _ | spawns _ => cases hm
  | outside _ houtside =>
      exact h.of_same (seats_of_tasks houtside.tasks) houtside.length_connections
  | arrives ht =>
      refine h.of_same (seats_setTask ?_) rfl
      rw [seat_of_task ht]
      rfl
  | @turns me task task' w₁ ht hstep =>
      have hseat := seat_of_task ht
      have hstays : w₁.tasks = w.tasks → w₁.connections.length = w.connections.length →
          task'.seat = task.seat → (w₁.setTask me task').Seated := by
        intro htasks hlength hsame
        refine h.of_same ((seats_setTask ?_).trans (seats_of_tasks htasks)) hlength
        rw [seats_of_tasks htasks, hseat, hsame]
      cases hstep with
      | send _ _ => exact hstays rfl (length_connections_setPeer _ _ _) rfl
      | awaited _ _ => exact hstays rfl rfl rfl
      | broadcast hstep => exact hstays hstep.abides.tasks hstep.length_connections rfl
      | worker _ hstep =>
          exact hstays hstep.abides.tasks hstep.length_connections (congrArg Seat.worker hstep.peer)
      | monitor hstep => cases hstep <;> exact hstays rfl rfl rfl
      | server hstep => exact h.server_step ht hstep

/-- In every world of a run of one server, each connection has its worker, and
there is one monitor. -/
theorem seated_run {listen : String} {maxLine : Option UInt64} {interval : Nat}
    (hmoves : ∀ m ∈ moves, m.Hosted) : ((hosting listen maxLine interval).run moves).Seated :=
  hosted_induction (P := fun moves => ((hosting listen maxLine interval).run moves).Seated)
    (.idle rfl rfl) (fun _ hm h hstep => h.step hstep hm) hmoves

end World

/-! ## Which connections are taken in -/

/-- Whether a server still takes in connections, or will. -/
def Server.isOpen (s : Server) : Bool :=
  match s.stage with
  | .starting | .accepting _ => true
  | .joining _ | .finished => false

namespace World

variable {w w' w₀ : World} {m : Move} {t : TaskKey} {k : PeerKey} {moves : List Move}
variable {script : List Arrival}

/-- In the move `m`, the connection `k` is made of what the listener has
ready. -/
def TakesIn (k : PeerKey) (a : Arrival) (w : World) (m : Move) : Prop :=
  ∃ addr transport inlet, a = .connection addr transport inlet ∧ w.connections.length = k
    ∧ (w.move m).connections
      = w.connections ++ [⟨w.newPeer (PeerId.ofKey k).raw addr transport, inlet⟩]

/-- The connections that the listener of the server has ready in a run, in
order. -/
def successes (moves : List Move) : List Arrival := (offers 0 moves).filter (!·.isFailure)

/-- The server does not stop before the shutdown, and comes to the rest of the
connections. -/
structure AcceptsRest (w : World) (script : List Arrival) (s : Server) : Prop where
  task : w.tasks[0]? = some (.server s)
  isOpen : w.shutdown = false → s.isOpen = true
  rest : s.isOpen = true →
    script.drop w.connections.length = s.arrivals.filter (!·.isFailure)

/-- The connections of a run, and those that the server has not come to. -/
structure Intake (w₀ : World) (moves : List Move) : Prop where
  taken : ∀ {k}, k < (w₀.run moves).connections.length → ∃ a, (successes moves)[k]? = some a
    ∧ ∃ n m, moves[n]? = some m ∧ TakesIn k a (w₀.after moves n) m
  server : ∃ s, (w₀.run moves).AcceptsRest (successes moves) s

theorem Intake.length_le (h : Intake w₀ moves) :
    (w₀.run moves).connections.length ≤ (successes moves).length := by
  cases hlength : (w₀.run moves).connections.length with
  | zero => exact Nat.zero_le _
  | succ k =>
      obtain ⟨a, ha, -⟩ := h.taken (by rw [hlength]; exact Nat.lt_succ_self k)
      exact (List.getElem?_eq_some_iff.1 ha).1

theorem successes_concat (moves : List Move) (m : Move) :
    successes (moves ++ [m]) = successes moves ++ successes [m] := by
  rw [successes, offers_append, List.filter_append]
  rfl

/-- The server is given nothing but what its listener has ready. -/
theorem successes_of_ne_arrive (h : ∀ a, m ≠ .arrive 0 a) :
    successes (moves ++ [m]) = successes moves := by
  rw [successes_concat, successes, successes, offers_of_ne_arrive h]
  exact List.append_nil _

/-- What was taken in stays so. -/
theorem Intake.taken_stays (h : Intake w₀ moves) (m : Move)
    (hk : k < (w₀.run moves).connections.length) :
    ∃ a, (successes (moves ++ [m]))[k]? = some a
      ∧ ∃ n m', (moves ++ [m])[n]? = some m' ∧ TakesIn k a (w₀.after (moves ++ [m]) n) m' := by
  obtain ⟨a, ha, hbefore⟩ := h.taken hk
  refine ⟨a, ?_, exists_move_concat.2 (.inl hbefore)⟩
  rw [successes_concat, List.getElem?_append_left (List.getElem?_eq_some_iff.1 ha).1, ha]

/-- The listener of the server has something ready. -/
theorem AcceptsRest.arrive {s : Server} (h : w.AcceptsRest script s)
    (hlength : w.connections.length ≤ script.length) (a : Arrival) :
    (w.move (.arrive 0 a)).AcceptsRest (script ++ successes [.arrive 0 a])
      { s with arrivals := s.arrivals ++ [a] } := by
  obtain ⟨hlt, -⟩ := List.getElem?_eq_some_iff.1 h.task
  have hmove : w.move (.arrive 0 a)
      = w.setTask 0 (.server { s with arrivals := s.arrivals ++ [a] }) := by
    show w.arrive 0 a = _
    rw [World.arrive, h.task]
  rw [hmove]
  refine ⟨tasks_setTask_self h.task _, h.isOpen, fun hopen => ?_⟩
  · show (script ++ _).drop w.connections.length = (s.arrivals ++ [a]).filter _
    rw [List.drop_append_of_le_length hlength, h.rest hopen, List.filter_append]
    rfl

/-- The server takes a turn. -/
theorem AcceptsRest.turn {s s' : Server} {w₁ : World} (h : w.AcceptsRest script s)
    (hid : PeerId.ofKey w.connections.length = ⟨s.nextId⟩) (hstep : ServerStep w s w₁ s') :
    (w₁.setTask 0 (.server s')).AcceptsRest script s'
      ∧ (w₁.connections = w.connections ∨ ∃ addr transport inlet,
        script[w.connections.length]? = some (.connection addr transport inlet)
          ∧ w₁.connections = w.connections
            ++ [⟨w.newPeer (PeerId.ofKey w.connections.length).raw addr transport, inlet⟩]) := by
  have htask : ∀ {w₁ : World} {s' : Server}, w₁.tasks[0]? = some (.server s) →
      (w₁.setTask 0 (.server s')).tasks[0]? = some (.server s') :=
    fun ht => tasks_setTask_self ht _
  have hspawn : ∀ new, (w.spawn new).tasks[0]? = some (.server s) := by
    intro new
    obtain ⟨hlt, -⟩ := List.getElem?_eq_some_iff.1 h.task
    exact (List.getElem?_append_left hlt).trans h.task
  cases hstep with
  | starts hstage =>
      refine ⟨⟨htask (hspawn _), fun _ => rfl, fun _ => h.rest ?_⟩, .inl rfl⟩
      rw [Server.isOpen, hstage]
  | ends _ hdown =>
      refine ⟨⟨htask h.task, fun hup => ?_, fun hopen => absurd hopen Bool.false_ne_true⟩, .inl rfl⟩
      cases hdown.symm.trans hup
  | misses hstage _ harrivals =>
      have hopen : s.isOpen = true := by rw [Server.isOpen, hstage]
      refine ⟨⟨htask h.task, fun _ => rfl, fun _ => (h.rest hopen).trans ?_⟩, .inl rfl⟩
      rw [harrivals]
      rfl
  | joins hstage _ =>
      refine ⟨⟨htask h.task, fun hup => ?_, fun hopen => absurd hopen Bool.false_ne_true⟩, .inl rfl⟩
      have hopen := h.isOpen hup
      rw [Server.isOpen, hstage] at hopen
      cases hopen
  | @accepts monitor addr transport inlet arrivals hstage _ harrivals =>
      have hopen : s.isOpen = true := by rw [Server.isOpen, hstage]
      have hrest : script.drop w.connections.length
          = .connection addr transport inlet :: arrivals.filter (!·.isFailure) := by
        rw [h.rest hopen, harrivals]
        rfl
      refine ⟨⟨htask (hspawn _), fun _ => rfl, fun _ => ?_⟩, .inr ⟨addr, transport, inlet, ?_, ?_⟩⟩
      · show script.drop (w.connections ++ [_]).length = _
        rw [List.length_append, List.length_singleton, ← List.drop_drop, hrest]
        rfl
      · rw [← List.head?_drop, hrest]
        rfl
      · rw [hid]
        rfl

/-- What a move other than a turn of the server, or something that its listener
has ready, leaves alone. -/
theorem AcceptsRest.elsewhere {s : Server} (h : w.AcceptsRest script s) (hstaff : w.Staffed)
    (hstep : MoveStep w m (w.move m)) (hm : m.Hosted) (harrive : ∀ a, m ≠ .arrive 0 a)
    (hturn : m ≠ .turn 0) :
    (w.move m).AcceptsRest script s ∧ (w.move m).connections.length = w.connections.length := by
  have hlength : (w.move m).connections.length = w.connections.length := by
    rcases hstep.accepts hm.orderly with hlength | ⟨t, rfl, haccepts⟩
    · exact hlength
    · obtain ⟨s', -, -, hs', -⟩ := haccepts.spec
      exact absurd (by rw [(hstaff.server hs').1]) hturn
  refine ⟨⟨?_, fun hup => h.isOpen ?_, fun hopen => by rw [hlength]; exact h.rest hopen⟩, hlength⟩
  · cases hstep.becomes h.task with
    | stays _ hs => exact hs
    | turns hm' => exact absurd hm' hturn
    | arrives hm' => exact absurd hm' (harrive _)
  · cases hdown : w.shutdown with
    | false => rfl
    | true => cases ((earlier_move w m).shutdown hdown).symm.trans hup

theorem Intake.step (h : Intake w₀ moves) (hstaff : (w₀.run moves).Staffed)
    (hstep : MoveStep (w₀.run moves) m (w₀.run (moves ++ [m]))) (hm : m.Hosted) :
    Intake w₀ (moves ++ [m]) := by
  obtain ⟨s, hs⟩ := h.server
  rw [run_concat] at hstep
  -- no connection has come
  have hsame : ((w₀.run moves).move m).connections.length = (w₀.run moves).connections.length →
      (∃ s, ((w₀.run moves).move m).AcceptsRest (successes (moves ++ [m])) s) →
      Intake w₀ (moves ++ [m]) := by
    intro hlength hserver
    rw [← run_concat] at hlength hserver
    exact ⟨fun hk => h.taken_stays m (hlength ▸ hk), hserver⟩
  by_cases harrive : ∃ a, m = .arrive 0 a
  · obtain ⟨a, rfl⟩ := harrive
    refine hsame ?_ ⟨_, successes_concat moves _ ▸ hs.arrive h.length_le a⟩
    rcases hstep.accepts hm.orderly with hlength | ⟨_, hturn, -⟩
    · exact hlength
    · cases hturn
  · have hscript : successes (moves ++ [m]) = successes moves :=
      successes_of_ne_arrive fun a e => harrive ⟨a, e⟩
    by_cases hturn : m = .turn 0
    · subst hturn
      cases hmove : (w₀.run moves).turn 0 with
      | none =>
          have hidle := move_turn_of_none hmove
          exact hsame (by rw [hidle]) ⟨s, by rw [hidle, hscript]; exact hs⟩
      | some w' =>
          obtain ⟨task, w₁, task', htask, hturn, rfl⟩ := taskStep_of_turn hmove
          have hmoved := move_turn_of_some hmove
          cases htask.symm.trans hs.task
          cases hturn with
          | @server _ s' _ hserver =>
              obtain ⟨hmore, hconnections⟩ := hs.turn (hstaff.server hs.task).2.1 hserver
              have hserver' : ∃ s, ((w₀.run moves).move (.turn 0)).AcceptsRest
                  (successes (moves ++ [.turn 0])) s := ⟨s', by rw [hmoved, hscript]; exact hmore⟩
              rcases hconnections with hconnections | ⟨addr, transport, inlet, hget, hconnections⟩
              · exact hsame (by rw [hmoved]; exact congrArg List.length hconnections) hserver'
              · refine ⟨fun {k} hk => ?_, by rwa [run_concat]⟩
                rw [run_concat, hmoved] at hk
                replace hk : k < w₁.connections.length := hk
                rw [hconnections, List.length_append, List.length_singleton] at hk
                rcases Nat.lt_succ_iff_lt_or_eq.1 hk with hk | rfl
                · exact h.taken_stays _ hk
                · refine ⟨_, hscript ▸ hget, exists_move_concat.2 (.inr ?_)⟩
                  exact ⟨addr, transport, inlet, rfl, rfl, by rw [hmoved]; exact hconnections⟩
    · obtain ⟨hmore, hlength⟩ :=
        hs.elsewhere hstaff hstep hm (fun a e => harrive ⟨a, e⟩) hturn
      exact hsame hlength ⟨s, by rw [hscript]; exact hmore⟩

theorem intake_run {listen : String} {maxLine : Option UInt64} {interval : Nat}
    (hmoves : ∀ m ∈ moves, m.Hosted) : Intake (hosting listen maxLine interval) moves := by
  refine hosted_induction (w := hosting listen maxLine interval)
    (P := fun moves => Intake (hosting listen maxLine interval) moves)
    ⟨fun hk => absurd hk (Nat.not_lt_zero _), ⟨_, rfl, fun _ => rfl, fun _ => rfl⟩⟩ ?_ hmoves
  intro moves m hmoves hm h hstep
  exact h.step (staffed_run hmoves) hstep hm

/-- Where nobody can go on, the server has come to all connections, unless it
is to shut down. -/
theorem AcceptsRest.length_eq {s : Server} (h : w.AcceptsRest script s) (hquiet : w.Quiet)
    (hup : w.shutdown = false) (hlength : w.connections.length ≤ script.length) :
    w.connections.length = script.length := by
  have hidle := hquiet.idle h.task
  have hopen := h.isOpen hup
  have hrest := h.rest hopen
  refine Nat.le_antisymm hlength (List.drop_eq_nil_iff.1 ?_)
  rw [hrest]
  cases hstage : s.stage with
  | starting => simp [taskTurn, serverTurn, hstage] at hidle
  | joining _ | finished => simp [Server.isOpen, hstage] at hopen
  | accepting monitor =>
      cases harrivals : s.arrivals with
      | nil => rfl
      | cons a arrivals =>
          cases a <;> simp [taskTurn, serverTurn, hstage, hup, harrivals] at hidle

/-! ## Runs with any failures -/

/-- What the listener of the task `t` has ready, if it is a server. -/
def ready (w : World) (t : TaskKey) : List Arrival :=
  match w.tasks[t]? with
  | some (.server s) => s.arrivals
  | _ => []

/-- A server takes the failures that it has before it, one after the other. -/
theorem exists_clear (w : World) (t : TaskKey) : ∃ n,
    w.spared (List.replicate n (.turn t)) = []
      ∧ (w.run (List.replicate n (.turn t))).fails (.turn t) = false := by
  induction hready : w.ready t generalizing w with
  | nil =>
      refine ⟨0, rfl, ?_⟩
      cases h : w.fails (.turn t) with
      | false => exact h
      | true =>
          obtain ⟨s, f, arrivals, ht, harrivals, -⟩ := of_fails_turn h
          simp [ready, ht, harrivals] at hready
  | cons a rest ih =>
      cases h : w.fails (.turn t) with
      | false => exact ⟨0, rfl, h⟩
      | true =>
          obtain ⟨s, f, arrivals, ht, harrivals, hturn⟩ := of_fails_turn h
          have hrest : (w.move (.turn t)).ready t = rest := by
            have hnext : (w.move (.turn t)).tasks[t]? = some (.server { s with arrivals }) := by
              rw [move_turn_of_some hturn]
              exact tasks_setTask_self (w := w.note (.acceptFailed f)) ht _
            simp only [ready, ht, harrivals] at hready
            simpa [ready, hnext] using (List.cons.inj hready).2
          obtain ⟨n, hspared, hclear⟩ := ih _ hrest
          refine ⟨n + 1, ?_, hclear⟩
          show w.sparing (.turn t) ++ (w.move (.turn t)).spared (List.replicate n (.turn t)) = []
          rw [hspared, sparing, h]
          rfl

/-- What the listener of the server has ready, with nothing else. -/
theorem offers_arrivals (as : List Arrival) : offers 0 (as.map (.arrive 0)) = as := by
  induction as with
  | nil => rfl
  | cons a as ih => exact congrArg (a :: ·) ih

theorem spared_failures (w : World) {as : List Arrival} (h : as.filter (!·.isFailure) = []) :
    w.spared (as.map (.arrive 0)) = [] := by
  induction as generalizing w with
  | nil => rfl
  | cons a as ih =>
      cases ha : a.isFailure with
      | false => simp [ha] at h
      | true =>
          have hrest : as.filter (!·.isFailure) = [] := by simpa [ha] using h
          show w.sparing (.arrive 0 a) ++ spared _ _ = []
          rw [ih _ hrest, sparing, show w.fails (.arrive 0 a) = true from ha]
          rfl

theorem hosted_failures {as : List Arrival} (h : as.filter (!·.isFailure) = []) :
    ∀ m ∈ as.map (Move.arrive 0), m.Hosted := by
  intro m hm
  obtain ⟨a, ha, rfl⟩ := List.mem_map.1 hm
  cases a with
  | failure f => trivial
  | connection addr transport inlet =>
      exact absurd rfl (List.filter_eq_nil_iff.1 h _ ha)

/-- A script whose last connection is `a` goes on with failures alone. -/
theorem exists_of_filter_concat {as bs : List Arrival} {a : Arrival}
    (h : as.filter (!·.isFailure) = bs ++ [a]) :
    ∃ before failures, as = before ++ a :: failures ∧ before.filter (!·.isFailure) = bs
      ∧ failures.filter (!·.isFailure) = [] := by
  obtain ⟨before, rest, rfl, hbefore, hrest⟩ := List.filter_eq_append_iff.1 h
  obtain ⟨skipped, failures, rfl, hskipped, -, hfailures⟩ := List.filter_eq_cons_iff.1 hrest
  refine ⟨before ++ skipped, failures, by rw [List.append_assoc], ?_, hfailures⟩
  rw [List.filter_append, hbefore, List.filter_eq_nil_iff.2 hskipped, List.append_nil]

/-- A move that is no failure can be made of a server that is not about to be
given one: if it is a turn of one, it first takes the failures before it. -/
theorem exists_before (w : World) {m : Move} (hkept : m.isFailure = false) :
    ∃ pre, (∀ m ∈ pre, m.Hosted) ∧ w.spared pre = [] ∧ (w.run pre).fails m = false
      ∧ offers 0 pre = [] := by
  cases m with
  | turn t =>
      obtain ⟨n, hnothing, hclear⟩ := exists_clear w t
      refine ⟨List.replicate n (.turn t), ?_, hnothing, hclear, ?_⟩
      · intro m' hm'
        rw [(List.mem_replicate.1 hm').2]
        trivial
      · refine List.filterMap_eq_nil_iff.2 fun m' hm' => ?_
        rw [(List.mem_replicate.1 hm').2]
  | arrive _ a => exact ⟨[], fun _ h => absurd h List.not_mem_nil, rfl, hkept, rfl⟩
  | serve _ | supply _ _ | wake _ | answer _ _ | shutdown | elapse _
  | stopRegistry | connect _ | spawn _ | close _ | fire _ | request _ =>
      exact ⟨[], fun _ h => absurd h List.not_mem_nil, rfl, rfl, rfl⟩

/-- A run without failures is one of a server that has any failures between
its connections. -/
theorem exists_run_of_spared {w₀ : World} {ms : List Move} (hms : ∀ m ∈ ms, m.Hosted)
    (hnone : ∀ m ∈ ms, m.isFailure = false) {as : List Arrival}
    (has : as.filter (!·.isFailure) = offers 0 ms) :
    ∃ moves, (∀ m ∈ moves, m.Hosted) ∧ offers 0 moves = as ∧ w₀.spared moves = ms := by
  induction ms using List.reverseRecOn generalizing as with
  | nil =>
      exact ⟨as.map (.arrive 0), hosted_failures has, offers_arrivals as, spared_failures _ has⟩
  | append_singleton ms m ih =>
      have ih := fun {as} => @ih (fun m' hm' => hms m' (List.mem_append_left _ hm'))
        (fun m' hm' => hnone m' (List.mem_append_left _ hm')) as
      have hm := hms m (by simp)
      have hkept := hnone m (by simp)
      rw [offers_append] at has
      by_cases harrive : ∃ a, m = .arrive 0 a
      · obtain ⟨a, rfl⟩ := harrive
        obtain ⟨before, failures, rfl, hbefore, hfailures⟩ := exists_of_filter_concat has
        obtain ⟨moves, hmoves, hoffers, hspared⟩ := ih hbefore
        refine ⟨moves ++ .arrive 0 a :: failures.map (.arrive 0), ?_, ?_, ?_⟩
        · intro m' hm'
          rcases List.mem_append.1 hm' with hm' | hm'
          · exact hmoves m' hm'
          · rcases List.mem_cons.1 hm' with rfl | hm'
            · exact hm
            · exact hosted_failures hfailures m' hm'
        · rw [offers_append, hoffers]
          exact congrArg (before ++ a :: ·) (offers_arrivals failures)
        · rw [spared_append, hspared]
          refine congrArg (ms ++ ·) ?_
          show sparing _ (.arrive 0 a) ++ spared _ (failures.map (.arrive 0)) = _
          rw [spared_failures _ hfailures, sparing, if_neg]
          · rfl
          · exact fun h => Bool.false_ne_true (hkept.symm.trans h)
      · have hoffer := offers_of_ne_arrive fun a e => harrive ⟨a, e⟩
        rw [hoffer, List.append_nil] at has
        obtain ⟨moves, hmoves, hoffers, hspared⟩ := ih has
        obtain ⟨pre, hpre, hnothing, hclear, hoffers'⟩ := exists_before (w₀.run moves) hkept
        refine ⟨moves ++ pre ++ [m], ?_, ?_, ?_⟩
        · refine hosted_concat (fun m' hm' => ?_) hm
          exact (List.mem_append.1 hm').elim (hmoves m') (hpre m')
        · rw [offers_append, offers_append, hoffer, hoffers', hoffers, List.append_nil,
            List.append_nil]
        · rw [spared_concat, spared_append, hspared, hnothing, run_append, sparing, hclear,
            List.append_nil]
          rfl

end World

/-! ## Failures to accept are not seen -/

/-- What a run of one server comes to without its failures.

* `sublist`: nothing is left out but failures that are ready and turns of the
  server;
* `same`: each moment of the run is one of the run without failures, but for
  the failures that are ready or written down;
* `taken`: the connection `k` is the one with this place among those that
  were ready, and has the number that goes with it;
* `isOpen`: the server goes on before the shutdown, up to the last connection.
-/
structure World.Undisturbed (w₀ : World) (moves : List Move) : Prop where
  sublist : (w₀.spared moves).Sublist moves
  elsewhere : (w₀.spared moves).filter (·.isElsewhere) = moves.filter (·.isElsewhere)
  offers : World.offers 0 (w₀.spared moves) = World.successes moves
  same : ∀ n, (w₀.after moves n).quell
    = w₀.after (w₀.spared moves) (w₀.spared (moves.take n)).length
  registry : (w₀.run moves).registry = (w₀.run (w₀.spared moves)).registry
  connections : (w₀.run moves).connections = (w₀.run (w₀.spared moves)).connections
  samples : (w₀.run moves).samples = (w₀.run (w₀.spared moves)).samples
  taken : ∀ {k}, k < (w₀.run moves).connections.length →
    ∃ a, (World.successes moves)[k]? = some a
      ∧ ∃ n m, moves[n]? = some m ∧ World.TakesIn k a (w₀.after moves n) m
  numbered : ∀ {k p}, (w₀.run moves).peer? k = some p → p.info.id = .ofKey k
  seated : (w₀.run moves).Seated
  isOpen : (w₀.run moves).shutdown = false →
    ∃ s, (w₀.run moves).tasks[0]? = some (.server s) ∧ s.isOpen = true
  all : (w₀.run moves).isQuiet = true → (w₀.run moves).shutdown = false →
    (w₀.run moves).connections.length = (World.successes moves).length

/-- A server does with failures what it does without them, and every run
without failures is what some run with any failures comes to. -/
theorem failures_invisible {listen : String} {maxLine : Option UInt64} {interval : Nat} :
    (∀ {moves}, (∀ m ∈ moves, m.Hosted) →
      (World.hosting listen maxLine interval).Undisturbed moves)
    ∧ ∀ {ms as}, (∀ m ∈ ms, m.Hosted) → (∀ m ∈ ms, m.isFailure = false) →
      as.filter (!·.isFailure) = World.offers 0 ms →
      ∃ moves, (∀ m ∈ moves, m.Hosted) ∧ World.offers 0 moves = as
        ∧ (World.hosting listen maxLine interval).spared moves = ms := by
  refine ⟨fun {moves} hmoves => ?_, fun hms hnone has => World.exists_run_of_spared hms hnone has⟩
  have hintake : World.Intake (World.hosting listen maxLine interval) moves :=
    World.intake_run hmoves
  have hsame : ((World.hosting listen maxLine interval).run moves).quell
      = (World.hosting listen maxLine interval).run
        ((World.hosting listen maxLine interval).spared moves) := World.run_quell hmoves
  obtain ⟨s, hs⟩ := hintake.server
  exact
    { sublist := World.spared_sublist _ moves
      elsewhere := World.filter_isElsewhere_spared hmoves
      offers := World.offers_spared _ 0 moves
      same := by
        intro n
        have hfirst : ∀ m ∈ moves.take n, m.Hosted := fun m hm => hmoves m (List.mem_of_mem_take hm)
        have hsplit := World.spared_append (World.hosting listen maxLine interval) (moves.take n)
          (moves.drop n)
        rw [List.take_append_drop] at hsplit
        rw [World.after, World.run_quell hfirst, World.after, hsplit, List.take_left]
        rfl
      registry := by rw [← hsame]; rfl
      connections := by rw [← hsame]; rfl
      samples := by rw [← hsame]; rfl
      taken := hintake.taken
      numbered := fun hp => ((World.staffed_run hmoves).peers hp).1
      seated := World.seated_run hmoves
      isOpen := fun hup => ⟨s, hs.task, hs.isOpen hup⟩
      all := fun hquiet hup =>
        hs.length_eq (World.quiet_of_isQuiet hquiet) hup hintake.length_le }

/-- Two connections among four failures; the first sends a line to the second,
and a sample is taken. -/
def stumbling : List Move :=
  let joins : Move := .arrive 0 (.connection ⟨"peer"⟩ {} .silent)
  let fails (kind : FailureKind) : Move := .arrive 0 (.failure ⟨kind, none⟩)
  let asks (t : TaskKey) : List Move := [.turn t, .serve World.byId, .turn t]
  [fails .outOfMemory, .turn 0, .turn 0, joins, fails .connectionAborted, .turn 0] ++ asks 2
    ++ [.turn 0, fails .other, joins, .turn 0, .turn 0] ++ asks 3
    ++ [.supply 0 (.data [104, 105, 10]), .turn 2] ++ asks 2 ++ [fails .interrupted]
    ++ [.turn 2, .turn 0, .turn 2, .turn 2, .elapse 1000, .turn 1] ++ asks 1

set_option maxRecDepth 4000 in
/-- In `stumbling` both connections are taken in and registered, the line is
received, and the sample is of two peers.  A run of one connection is that of a
server with failures before and after it. -/
theorem failures_invisible_stumbling : (∀ m ∈ stumbling, m.Hosted)
    ∧ ∃ w, (World.hosting "relay" none 1000).run stumbling = w ∧ w.isQuiet = true
      ∧ w.shutdown = false ∧ w.registry.membership.members.map (·.handle) = [0, 1]
      ∧ w.connections.map (·.peer.outlet.transport.received) = [[], [104, 105, 10]]
      ∧ w.samples = [⟨1000, 2⟩]
      ∧ stumbling.length = 32 ∧ ((World.hosting "relay" none 1000).spared stumbling).length = 24
      ∧ (World.hosting "relay" none 1000).Undisturbed stumbling
      ∧ ∃ moves, (∀ m ∈ moves, m.Hosted)
        ∧ World.offers 0 moves = [.failure ⟨.outOfMemory, none⟩,
            .connection ⟨"peer"⟩ {} .silent, .failure ⟨.other, none⟩]
        ∧ (World.hosting "relay" none 1000).spared moves
          = [.turn 0, .arrive 0 (.connection ⟨"peer"⟩ {} .silent), .turn 0] := by
  have hmoves : ∀ m ∈ stumbling, m.Hosted := by decide
  have hone : ∀ m ∈ [Move.turn 0, .arrive 0 (.connection ⟨"peer"⟩ {} .silent), .turn 0],
      m.Hosted ∧ m.isFailure = false := by decide
  exact ⟨hmoves, _, rfl, by decide +kernel, by decide +kernel, by decide +kernel, by decide +kernel,
    by decide +kernel, rfl, by decide +kernel, failures_invisible.1 hmoves,
    failures_invisible.2 (fun m hm => (hone m hm).1) (fun m hm => (hone m hm).2) rfl⟩

end LineRelay
