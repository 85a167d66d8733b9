/-
# One server and the workers it starts

The runs of one server: what arrives at its listener, what the far ends of
its connections do, the shutdown, and those who look at its registry.
`Move.Hosted` says which moves these are.  Nobody else has a hand in them,
so in such a run

| | |
| :-- | :-- |
| `employed` | a task is a worker, a monitor, or the one server |
| `hired`, `sole` | every connection has a worker, and only one |
| `relaying` | a worker that relays a line relays the last one it read |
| `peers` | a peer has the number of its connection, and fires when it closes |

which `Staffed` puts together.
-/
import LineRelay.Proofs.Relay.Surveys

namespace LineRelay

/-! ## Runs of one server -/

/-- A server that has not begun, and nothing else. -/
def World.hosting (listen : String) (maxLine : Option UInt64) (interval : Nat) : World :=
  { tasks := [.server { listen, maxLine, interval }] }

/-- Whether what arrives has been given no byte yet. -/
def Arrival.IsFresh : Arrival → Prop
  | .connection _ transport _ => transport.received = []
  | .failure _ => True

/-- Whether a command only looks at the membership. -/
def Command.Looks : Command → Prop
  | .snapshot _ | .size | .contains _ => True
  | .register _ | .unregister _ _ => False

/-- Whether a move is one that happens around a server that has its peers
to itself. -/
def Move.Hosted : Move → Prop
  | .arrive _ a => a.IsFresh
  | .request c => c.Looks
  | .connect _ | .spawn _ | .close _ | .fire _ => False
  | .serve _ | .turn _ | .supply _ _ | .wake _ | .answer _ _ | .shutdown | .elapse _
  | .stopRegistry => True

/-- Whether a move leaves it to servers to take in connections and to start
their workers. -/
def Move.Orderly : Move → Prop
  | .connect _ | .spawn (.worker _) => False
  | _ => True

instance decIsFresh : ∀ a : Arrival, Decidable a.IsFresh
  | .connection _ transport _ => inferInstanceAs (Decidable (transport.received = []))
  | .failure _ => inferInstanceAs (Decidable True)

instance decLooks : ∀ c : Command, Decidable c.Looks
  | .snapshot _ | .size | .contains _ => inferInstanceAs (Decidable True)
  | .register _ | .unregister _ _ => inferInstanceAs (Decidable False)

instance decHosted : ∀ m : Move, Decidable m.Hosted
  | .arrive _ a => inferInstanceAs (Decidable a.IsFresh)
  | .request c => inferInstanceAs (Decidable c.Looks)
  | .connect _ | .spawn _ | .close _ | .fire _ => inferInstanceAs (Decidable False)
  | .serve _ | .turn _ | .supply _ _ | .wake _ | .answer _ _ | .shutdown | .elapse _
  | .stopRegistry => inferInstanceAs (Decidable True)

theorem World.isNew_hosting (listen : String) (maxLine : Option UInt64) (interval : Nat) :
    (World.hosting listen maxLine interval).IsNew where
  connections := rfl
  registry := rfl
  tasks := by
    intro t task ht
    have hmem : task ∈ [Task.server { listen, maxLine, interval }] := List.mem_of_getElem? ht
    exact ⟨_, List.mem_singleton.1 hmem⟩

theorem Move.Hosted.permits {m : Move} (h : m.Hosted) (w : World) : w.Permits m := by
  cases m with
  | connect _ | spawn _ => cases h
  | request c =>
      cases c with
      | register _ => cases h
      | unregister _ _ | snapshot _ | size | contains _ => trivial
  | serve _ | turn _ | supply _ _ | wake _ | answer _ _ | arrive _ _ | shutdown | elapse _
  | stopRegistry | close _ | fire _ => trivial

theorem Move.Hosted.orderly {m : Move} (h : m.Hosted) : m.Orderly := by
  cases m with
  | connect _ | spawn _ => cases h
  | serve _ | turn _ | supply _ _ | wake _ | answer _ _ | arrive _ _ | shutdown | elapse _
  | stopRegistry | close _ | fire _ | request _ => trivial

theorem permitted_of_hosted {moves : List Move} (h : ∀ m ∈ moves, m.Hosted) (w : World) :
    w.Permitted moves := World.permitted_of_forall Move.Hosted.permits h w

theorem hosted_concat {moves : List Move} {m : Move} (h : ∀ m ∈ moves, m.Hosted) (hm : m.Hosted) :
    ∀ m' ∈ moves ++ [m], m'.Hosted := by
  intro m' hm'
  rcases List.mem_append.1 hm' with hm' | hm'
  · exact h m' hm'
  · exact List.mem_singleton.1 hm' ▸ hm

/-- What holds at first and is kept by every move around a server holds
after every run of such moves. -/
theorem World.hosted_induction {w : World} {P : List Move → Prop} (nil : P [])
    (step : ∀ {moves m}, (∀ m ∈ moves, m.Hosted) → m.Hosted → P moves →
      MoveStep (w.run moves) m (w.run (moves ++ [m])) → P (moves ++ [m]))
    {moves : List Move} (h : ∀ m ∈ moves, m.Hosted) : P moves :=
  World.forall_induction Move.Hosted.permits nil step h

/-! ## Workers -/

/-- What a move does to the worker with the key `t`, seen from after it. -/
inductive WorkerChange (w : World) (m : Move) (w' : World) (t : TaskKey) (wk' : Worker) : Prop
  | stays : (m = .turn t → w' = w) → w.tasks[t]? = some (.worker wk') → WorkerChange w m w' t wk'
  | steps {wk : Worker} {c : Connection} {w₁ : World} : m = .turn t →
      w.tasks[t]? = some (.worker wk) → w.connections[wk.peer]? = some c →
      WorkerStep w t wk c w₁ wk' → w' = w₁.setTask t (.worker wk') → WorkerChange w m w' t wk'
  | comes {p : Peer} {limit : Option UInt64} : w.tasks[t]? = none → w.peer? wk'.peer = none →
      w'.peer? wk'.peer = some p → World.newWorker wk'.peer p limit = wk' →
      WorkerChange w m w' t wk'

theorem MoveStep.worker {w w' : World} {m : Move} (h : MoveStep w m w') (hm : m.Orderly)
    {t : TaskKey} {wk' : Worker} (ht : w'.tasks[t]? = some (.worker wk')) :
    WorkerChange w m w' t wk' := by
  cases h.was ht with
  | stays hidle ht₀ => exact .stays hidle ht₀
  | turns hm ht₀ hstep hw' =>
      cases hstep with
      | worker hc hstep => exact .steps hm ht₀ hc hstep hw'
  | begins hnone hbegins hby =>
      rcases hby with rfl | hhires
      · cases hm
      · obtain ⟨p, hp, hwk⟩ := Option.map_eq_some_iff.1 hbegins
        exact .comes hnone hhires hp hwk

/-! ## Connections -/

namespace World

variable (w : World)

@[simp] theorem length_connections_setPeer (k : PeerKey) (p : Peer) :
    (w.setPeer k p).connections.length = w.connections.length := List.length_modify _ _ _

@[simp] theorem length_connections_setInlet (k : PeerKey) (i : Inlet) :
    (w.setInlet k i).connections.length = w.connections.length := List.length_modify _ _ _

@[simp] theorem length_connections_closePeer (k : PeerKey) :
    (w.closePeer k).1.connections.length = w.connections.length := by
  rw [closePeer_eq]
  exact (onPeer_frame w k _).2.2.2.2

/-- The server with the key `t` takes a connection in. -/
inductive Accepts (t : TaskKey) : World → Prop
  | intro {s : Server} {monitor : TaskKey} {addr : AddressLabel} {transport : Transport}
      {inlet : Inlet} {arrivals : List Arrival} : w.shutdown = false →
      w.tasks[t]? = some (.server s) → s.stage = .accepting monitor →
      s.arrivals = .connection addr transport inlet :: arrivals →
      Accepts t
        (((w.connect ⟨w.newPeer s.nextId addr transport, inlet⟩).spawn
            (.worker (newWorker w.connections.length (w.newPeer s.nextId addr transport)
              s.maxLine))).setTask t
          (.server { s with arrivals, stage := .accepting monitor, nextId := s.nextId + 1 }))

theorem Accepts.length_connections {w w' : World} {t : TaskKey} (h : w.Accepts t w') :
    w'.connections.length = w.connections.length + 1 := by
  cases h with
  | intro _ _ _ _ => exact List.length_append

/-- The connection gets the number that the server has next, and the other
servers stay as they are. -/
theorem Accepts.spec {w w' : World} {t : TaskKey} (h : w.Accepts t w') :
    ∃ s s' p, w.tasks[t]? = some (.server s) ∧ w'.tasks[t]? = some (.server s')
      ∧ s'.nextId = s.nextId + 1 ∧ w'.peer? w.connections.length = some p
      ∧ p.info.id = ⟨s.nextId⟩
      ∧ ∀ t' ≠ t, ∀ sv, w'.tasks[t']? = some (.server sv) ↔ w.tasks[t']? = some (.server sv) := by
  cases h with
  | @intro s monitor addr transport inlet arrivals _ hs _ _ =>
      refine ⟨s, { s with arrivals, stage := .accepting monitor, nextId := s.nextId + 1 },
        w.newPeer s.nextId addr transport, hs, ?_, rfl, ?_, rfl, ?_⟩
      · obtain ⟨hlt, -⟩ := List.getElem?_eq_some_iff.1 hs
        rw [tasks_setTask, if_pos rfl]
        show ((w.tasks ++ [_])[t]?).map _ = _
        rw [List.getElem?_append_left hlt, hs]
        rfl
      · rw [peer?_setTask, peer?_spawn, peer?_connect, if_pos rfl]
      · intro t' hne sv
        rw [tasks_setTask, if_neg hne]
        show (w.tasks ++ [_])[t']? = _ ↔ _
        rcases Nat.lt_trichotomy t' w.tasks.length with hlt | rfl | hgt
        · rw [List.getElem?_append_left hlt]
        · rw [List.getElem?_concat_length, List.getElem?_eq_none (Nat.le_refl _)]
          simp
        · rw [List.getElem?_eq_none (by simpa using hgt), List.getElem?_eq_none hgt.le]

end World

theorem BroadcastStep.length_connections {w w' : World} {me : TaskKey} {b b' : Broadcast}
    (h : BroadcastStep w me b w' b') : w'.connections.length = w.connections.length := by
  cases h with
  | asks _ _ | skips _ _ | learns _ _ | misses _ _ | prunes _ _ | pruned _ _ => rfl
  | sends _ _ _ _ | settles _ _ _ _ => exact World.length_connections_setPeer _ _ _
  | fails _ _ _ =>
      rw [World.length_connections_closePeer]
      exact World.length_connections_setPeer _ _ _

theorem WorkerStep.length_connections {w w' : World} {me : TaskKey} {wk wk' : Worker}
    {c : Connection} (h : WorkerStep w me wk c w' wk') :
    w'.connections.length = w.connections.length := by
  cases h with
  | registers _ _ | starts _ _ | quits _ _ | unregisters _ _ => rfl
  | reads _ _ _ _ | stops _ _ _ _ _ | pauses _ _ _ _ =>
      exact World.length_connections_setInlet _ _ _
  | drops _ _ | leaves _ _ => exact World.length_connections_closePeer _ _
  | relays _ hstep => exact hstep.length_connections

/-- A connection comes when someone makes a peer of it, or a server takes it
in. -/
theorem MoveStep.connections {w w' : World} {m : Move} (h : MoveStep w m w') :
    w'.connections.length = w.connections.length
    ∨ (∃ c, m = .connect c ∧ w' = w.connect c) ∨ ∃ t, m = .turn t ∧ w.Accepts t w' := by
  cases h with
  | idles | serves _ _ | requests _ _ | stops | spawns _ => exact .inl rfl
  | arrives _ => exact .inl rfl
  | outside _ h => exact .inl h.length_connections
  | closes => exact .inl (World.length_connections_closePeer w _)
  | fires => exact .inl (World.onPeer_frame w _ _).2.2.2.2
  | @connects c _ => exact .inr (.inl ⟨c, rfl, rfl⟩)
  | @turns me task task' w₁ htask hstep =>
      cases hstep with
      | send _ _ => exact .inl (World.length_connections_setPeer _ _ _)
      | awaited _ _ => exact .inl rfl
      | broadcast hstep => exact .inl hstep.length_connections
      | worker _ hstep => exact .inl hstep.length_connections
      | monitor hstep => cases hstep <;> exact .inl rfl
      | server hstep =>
          cases hstep with
          | starts _ | ends _ _ | misses _ _ _ | joins _ _ => exact .inl rfl
          | accepts hstage hopen harrivals =>
              exact .inr (.inr ⟨me, rfl, .intro hopen htask hstage harrivals⟩)

/-- If servers take in the connections, each comes from a listener. -/
theorem MoveStep.accepts {w w' : World} {m : Move} (h : MoveStep w m w') (hm : m.Orderly) :
    w'.connections.length = w.connections.length ∨ ∃ t, m = .turn t ∧ w.Accepts t w' := by
  rcases h.connections with hsame | ⟨c, rfl, -⟩ | haccepts
  · exact .inl hsame
  · cases hm
  · exact .inr haccepts

/-- A peer that comes is one that someone has made, or that a server makes. -/
theorem MoveStep.newcomer {w w' : World} {m : Move} (h : MoveStep w m w') {k : PeerKey} {q : Peer}
    (hnone : w.peer? k = none) (hq : w'.peer? k = some q) :
    (∃ c, m = .connect c ∧ c.peer = q) ∨ ∃ id addr transport, w.newPeer id addr transport = q := by
  rcases h.connections with hsame | ⟨c, rfl, rfl⟩ | ⟨t, -, haccepts⟩
  · have hlt := World.lt_length_of_peer? hq
    rw [hsame, ← Nat.not_le, ← World.peer?_eq_none_iff] at hlt
    exact absurd hnone hlt
  · rw [World.peer?_connect, hnone] at hq
    split_ifs at hq
    cases hq
    exact .inl ⟨c, rfl, rfl⟩
  · cases haccepts with
    | intro _ _ _ _ =>
        rw [World.peer?_setTask, World.peer?_spawn, World.peer?_connect, hnone] at hq
        split_ifs at hq
        cases hq
        exact .inr ⟨_, _, _, rfl⟩

/-! ## Who closes a peer -/

/-- The close signal of a peer is where it was, or it has just closed. -/
def Peer.Turns (p q : Peer) : Prop :=
  q.closed = p.closed ∧ q.fired = p.fired
    ∨ p.closed = false ∧ q.closed = true ∧ q.fired = true

theorem Peer.turns_close (p : Peer) : p.Turns p.close.1 := by
  unfold close
  split_ifs with hclosed hfree
  · exact .inl ⟨rfl, rfl⟩
  · exact .inr ⟨Bool.eq_false_iff.2 hclosed, rfl, rfl⟩
  · exact .inr ⟨Bool.eq_false_iff.2 hclosed, rfl, rfl⟩

/-- The task `t` has closed the peer `k`: it found that it could not write
to it, or it was the worker of the peer and has ended. -/
inductive World.Closes (w' : World) (t : TaskKey) (k : PeerKey) : Prop
  | prunes {b : Broadcast} {c : Command} {rest : List PeerKey} : w'.broadcast? t = some b →
      b.stage = .pruning k (.entering c) rest → w'.Closes t k
  | leaves {wk : Worker} {reason : Reason} : w'.tasks[t]? = some (.worker wk) → wk.peer = k →
      wk.stage = .finished reason → w'.Closes t k

/-- What a move does to the peer `k`, seen from after it. -/
inductive PeerChange (w : World) (m : Move) (w' : World) (k : PeerKey) (q : Peer) : Prop
  | stays {p : Peer} : w.peer? k = some p → q.closed = p.closed → q.fired = p.fired →
      PeerChange w m w' k q
  | closes {t : TaskKey} {p : Peer} : m = .turn t → w.peer? k = some p → p.closed = false →
      q.closed = true → q.fired = true → w'.Closes t k → PeerChange w m w' k q
  | comes {t : TaskKey} {s : Server} {addr : AddressLabel} {transport : Transport} {inlet : Inlet}
      {arrivals : List Arrival} : m = .turn t → w.tasks[t]? = some (.server s) →
      s.arrivals = .connection addr transport inlet :: arrivals → k = w.connections.length →
      q = w.newPeer s.nextId addr transport → PeerChange w m w' k q

/-- No peer has come, and none has closed. -/
def World.Keeps (w w' : World) : Prop :=
  ∀ {k : PeerKey} {q : Peer}, w'.peer? k = some q →
    ∃ p, w.peer? k = some p ∧ q.closed = p.closed ∧ q.fired = p.fired

theorem World.keeps_of_eq {w w' : World} (h : ∀ k, w'.peer? k = w.peer? k) : w.Keeps w' :=
  fun {k q} hq => ⟨q, h k ▸ hq, rfl, rfl⟩

theorem World.keeps_setPeer {w : World} {k : PeerKey} {p q : Peer} (hp : w.peer? k = some p)
    (hclosed : q.closed = p.closed) (hfired : q.fired = p.fired) : w.Keeps (w.setPeer k q) :=
  fun {j r} hr => by
    rw [peer?_setPeer, hp] at hr
    split_ifs at hr with hj
    · cases hr
      exact ⟨p, hj ▸ hp, hclosed, hfired⟩
    · exact ⟨r, hr, rfl, rfl⟩

theorem PeerChange.of_keeps {w w' : World} {m : Move} {k : PeerKey} {q : Peer} (h : w.Keeps w')
    (hq : w'.peer? k = some q) : PeerChange w m w' k q := by
  obtain ⟨p, hp, hclosed, hfired⟩ := h hq
  exact .stays hp hclosed hfired

/-- Closing the peer `j` is all that happens to the close signals. -/
theorem PeerChange.of_closePeer {w w₁ w' : World} {t : TaskKey} {k j : PeerKey} {q : Peer}
    (h : w.Keeps w₁) (hpeers : w'.peer? k = (w₁.closePeer j).1.peer? k) (hq : w'.peer? k = some q)
    (hcloses : w'.Closes t j) : PeerChange w (.turn t) w' k q := by
  rw [hpeers, World.peer?_closePeer] at hq
  split_ifs at hq with hk
  · subst hk
    obtain ⟨r, hr, rfl⟩ := Option.map_eq_some_iff.1 hq
    obtain ⟨p, hp, hclosed', hfired'⟩ := h hr
    rcases r.turns_close with ⟨hclosed, hfired⟩ | ⟨hopen, hclosed, hfired⟩
    · exact .stays hp (hclosed.trans hclosed') (hfired.trans hfired')
    · exact .closes rfl hp (hclosed' ▸ hopen) hclosed hfired hcloses
  · obtain ⟨p, hp, hclosed', hfired'⟩ := h hq
    exact .stays hp hclosed' hfired'

/-- A step of a broadcast closes the peer to which it has just failed. -/
theorem BroadcastStep.peer {w w₁ w' : World} {me : TaskKey} {b b' : Broadcast}
    (h : BroadcastStep w me b w₁ b') (hpeers : ∀ k, w'.peer? k = w₁.peer? k)
    (hb' : b'.isOver = false → w'.broadcast? me = some b') {k : PeerKey} {q : Peer}
    (hq : w'.peer? k = some q) : PeerChange w (.turn me) w' k q := by
  cases h with
  | asks _ _ | skips _ _ | learns _ _ | misses _ _ | prunes _ _ | pruned _ _ =>
      exact .of_keeps (World.keeps_of_eq hpeers) hq
  | sends _ hpeer hsend _ | settles _ hpeer hsend _ =>
      obtain ⟨-, -, hclosed, hfired⟩ := hsend.frame
      obtain ⟨p, hp, hsame⟩ := World.keeps_setPeer hpeer hclosed hfired (hpeers k ▸ hq)
      exact .stays hp hsame.1 hsame.2
  | @fails j state rest p r f closedIt hstage hpeer hsend =>
      obtain ⟨-, -, hclosed, hfired⟩ := hsend.frame
      have hkeeps : w.Keeps ((w.setPeer j r).noted [.sendFailed j r.info f]) :=
        World.keeps_setPeer hpeer hclosed hfired
      exact .of_closePeer hkeeps (hpeers k) hq (.prunes (hb' rfl) rfl)

theorem MoveStep.peer {w w' : World} {m : Move} (h : MoveStep w m w') (hm : m.Hosted)
    {k : PeerKey} {q : Peer} (hq : w'.peer? k = some q) : PeerChange w m w' k q := by
  cases h with
  | idles | serves _ _ | arrives _ | requests _ _ | stops =>
      exact .of_keeps (World.keeps_of_eq fun _ => rfl) hq
  | closes | fires | connects _ | spawns _ => cases hm
  | outside _ h =>
      cases hp : w.peer? k with
      | some p => exact .stays hp (h.closings hp hq).1 (h.closings hp hq).2
      | none =>
          rw [World.peer?_eq_none_iff, ← h.length_connections, ← World.peer?_eq_none_iff, hq] at hp
          cases hp
  | @turns me task task' w₁ htask hstep =>
      have htask' := hstep.setTask_self htask
      have hpeers : ∀ k, (w₁.setTask me task').peer? k = w₁.peer? k := fun _ => rfl
      cases hstep with
      | send hpeer hsend =>
          obtain ⟨-, -, hclosed, hfired⟩ := hsend.frame
          exact .of_keeps (World.keeps_setPeer hpeer hclosed hfired) hq
      | awaited _ _ => exact .of_keeps (World.keeps_of_eq fun _ => rfl) hq
      | monitor hstep => cases hstep <;> exact .of_keeps (World.keeps_of_eq fun _ => rfl) hq
      | broadcast hstep =>
          refine hstep.peer hpeers (fun _ => ?_) hq
          rw [World.broadcast?, htask']
          rfl
      | worker _ hstep =>
          cases hstep with
          | registers _ _ | starts _ _ | quits _ _ | unregisters _ _ =>
              exact .of_keeps (World.keeps_of_eq fun _ => rfl) hq
          | reads _ _ _ _ | stops _ _ _ _ _ | pauses _ _ _ _ =>
              exact .of_keeps (World.keeps_of_eq fun j => World.peer?_setInlet w _ j _) hq
          | drops _ _ | leaves _ _ =>
              refine .of_closePeer ?_ (hpeers k) hq (.leaves htask' rfl rfl)
              exact World.keeps_of_eq fun _ => rfl
          | relays _ hstep =>
              refine hstep.peer hpeers ?_ hq
              intro hopen
              rw [World.broadcast?, htask']
              simp [Task.broadcast?, hopen]
      | server hstep =>
          cases hstep with
          | starts _ | ends _ _ | misses _ _ _ | joins _ _ =>
              exact .of_keeps (World.keeps_of_eq fun _ => rfl) hq
          | accepts _ _ harrivals =>
              rw [World.peer?_setTask, World.peer?_spawn, World.peer?_connect] at hq
              split_ifs at hq with hk
              · cases hq
                exact .comes rfl htask harrivals hk rfl
              · exact .stays hq rfl rfl

/-! ## The workers of the connections -/

/-- Every connection has a worker, and only one. -/
structure World.OneWorkerEach (w : World) : Prop where
  hired : ∀ {k : PeerKey} {p : Peer}, w.peer? k = some p →
    ∃ (t : TaskKey) (wk : Worker), w.tasks[t]? = some (.worker wk) ∧ wk.peer = k
  sole : ∀ {t t' : TaskKey} {wk wk' : Worker}, w.tasks[t]? = some (.worker wk) →
    w.tasks[t']? = some (.worker wk') → wk.peer = wk'.peer → t = t'

/-- At most one task comes at a time. -/
theorem MoveStep.length_tasks {w w' : World} {m : Move} (h : MoveStep w m w') :
    w'.tasks.length ≤ w.tasks.length + 1 := by
  cases h with
  | idles | serves _ _ | connects _ | requests _ _ | stops => exact Nat.le_succ _
  | arrives _ =>
      rw [World.setTask, List.length_set]
      exact Nat.le_succ _
  | outside _ h =>
      rw [h.tasks]
      exact Nat.le_succ _
  | closes =>
      rw [World.closePeer_eq, (World.onPeer_frame w _ _).2.1]
      exact Nat.le_succ _
  | fires =>
      rw [(World.onPeer_frame w _ _).2.1]
      exact Nat.le_succ _
  | spawns _ => simp [World.spawn]
  | turns _ hstep =>
      rw [World.setTask, List.length_set]
      rcases hstep.tasks with htasks | ⟨new, htasks, -, -⟩
      · rw [htasks]
        exact Nat.le_succ _
      · simp [htasks]

/-- The task that a move brings is the last one. -/
theorem MoveStep.key_of_comes {w w' : World} {m : Move} (h : MoveStep w m w') {t : TaskKey}
    {task : Task} (hnone : w.tasks[t]? = none) (ht : w'.tasks[t]? = some task) :
    t = w.tasks.length := by
  have := List.getElem?_eq_none_iff.1 hnone
  obtain ⟨hlt, -⟩ := List.getElem?_eq_some_iff.1 ht
  have := h.length_tasks
  exact Nat.le_antisymm (by omega) (by omega)

namespace World

variable {w w' : World} {m : Move}

/-- A new connection has a new worker. -/
theorem OneWorkerEach.hired_step (h : w.OneWorkerEach) (hstep : MoveStep w m w') (hm : m.Orderly)
    {k : PeerKey} {q : Peer} (hq : w'.peer? k = some q) :
    ∃ (t : TaskKey) (wk : Worker), w'.tasks[t]? = some (.worker wk) ∧ wk.peer = k := by
  cases hp : w.peer? k with
  | some p =>
      obtain ⟨t, wk, ht, rfl⟩ := h.hired hp
      obtain ⟨wk', ht', hpeer⟩ := hstep.worker_stays ht
      exact ⟨t, wk', ht', hpeer⟩
  | none =>
      have hbefore := (peer?_eq_none_iff w).1 hp
      have hafter := lt_length_of_peer? hq
      rcases hstep.accepts hm with hlength | ⟨t, -, haccepts⟩
      · exact absurd (hlength ▸ hafter) (Nat.not_lt.2 hbefore)
      · cases haccepts with
        | @intro s monitor addr transport inlet arrivals _ hs _ _ =>
            obtain ⟨hlt, -⟩ := List.getElem?_eq_some_iff.1 hs
            refine ⟨w.tasks.length,
              newWorker w.connections.length (w.newPeer s.nextId addr transport) s.maxLine, ?_, ?_⟩
            · rw [tasks_setTask, if_neg hlt.ne']
              exact List.getElem?_concat_length
            · have hlast : k < (w.connections ++ [_]).length := hafter
              rw [List.length_append, List.length_singleton] at hlast
              exact Nat.le_antisymm hbefore (Nat.le_of_lt_succ hlast)

theorem OneWorkerEach.sole_step (h : w.OneWorkerEach) (hw : w.Requests) (hstep : MoveStep w m w')
    (hm : m.Orderly) {t t' : TaskKey} {wk wk' : Worker} (ht : w'.tasks[t]? = some (.worker wk))
    (ht' : w'.tasks[t']? = some (.worker wk')) (hpeer : wk.peer = wk'.peer) : t = t' := by
  -- a worker was there before, or it and its peer have come
  have hbefore : ∀ {t : TaskKey} {wk : Worker}, w'.tasks[t]? = some (.worker wk) →
      (∃ wk₀, w.tasks[t]? = some (.worker wk₀) ∧ wk₀.peer = wk.peer)
        ∨ w.tasks[t]? = none ∧ w.peer? wk.peer = none := by
    intro t wk ht
    cases hstep.worker hm ht with
    | stays _ ht => exact .inl ⟨wk, ht, rfl⟩
    | steps _ ht _ hworker _ => exact .inl ⟨_, ht, hworker.peer.symm⟩
    | comes hnone hpeer _ _ => exact .inr ⟨hnone, hpeer⟩
  rcases hbefore ht with ⟨wk₀, ht₀, hpeer₀⟩ | ⟨hnone, hnew⟩
  · rcases hbefore ht' with ⟨wk₀', ht₀', hpeer₀'⟩ | ⟨-, hnew'⟩
    · exact h.sole ht₀ ht₀' (hpeer₀.trans (hpeer.trans hpeer₀'.symm))
    · obtain ⟨p, hp⟩ := hw.workers ht₀
      rw [hpeer₀, hpeer, hnew'] at hp
      cases hp
  · rcases hbefore ht' with ⟨wk₀', ht₀', hpeer₀'⟩ | ⟨hnone', -⟩
    · obtain ⟨p, hp⟩ := hw.workers ht₀'
      rw [hpeer₀', ← hpeer, hnew] at hp
      cases hp
    · exact (hstep.key_of_comes hnone ht).trans (hstep.key_of_comes hnone' ht').symm

theorem OneWorkerEach.step (h : w.OneWorkerEach) (hw : w.Requests) (hstep : MoveStep w m w')
    (hm : m.Orderly) :
    w'.OneWorkerEach :=
  ⟨h.hired_step hstep hm, h.sole_step hw hstep hm⟩

end World

/-! ## The lines of a connection -/

/-- The line that a note says was read from the peer `k`. -/
def Note.lineFrom? (k : PeerKey) : Note → Option Line
  | .received key _ _ l => if key = k then some l else none
  | _ => none

/-- The lines read from the peer `k` so far, in their order. -/
def World.linesFrom (w : World) (k : PeerKey) : List Line :=
  w.journal.filterMap (Note.lineFrom? k)

@[simp] theorem World.linesFrom_noted (w : World) (ns : List Note) (k : PeerKey) :
    (w.noted ns).linesFrom k = w.linesFrom k ++ ns.filterMap (Note.lineFrom? k) :=
  List.filterMap_append

@[simp] theorem World.linesFrom_closePeer (w : World) (j k : PeerKey) :
    (w.closePeer j).1.linesFrom k = w.linesFrom k := by
  rw [World.closePeer_eq, World.linesFrom, (World.onPeer_frame w j _).2.2.1]
  rfl

@[simp] theorem Broadcast.filterMap_closing (b : Broadcast) (me : TaskKey) (rest : List PeerKey)
    (k : PeerKey) : (b.closing me rest).filterMap (Note.lineFrom? k) = [] := by
  cases rest <;> rfl

theorem BroadcastStep.linesFrom {w w' : World} {me : TaskKey} {b b' : Broadcast}
    (h : BroadcastStep w me b w' b') (k : PeerKey) : w'.linesFrom k = w.linesFrom k := by
  cases h with
  | asks _ _ | prunes _ _ | sends _ _ _ _ => rfl
  | skips _ _ | learns _ _ =>
      rw [World.linesFrom_noted, List.filterMap_cons_none rfl, Broadcast.filterMap_closing,
        List.append_nil]
  | misses _ _ | pruned _ _ =>
      rw [World.linesFrom_noted, Broadcast.filterMap_closing, List.append_nil]
  | settles _ _ _ _ =>
      rw [World.linesFrom_noted, Broadcast.filterMap_closing, List.append_nil]
      rfl
  | fails _ _ _ =>
      rw [World.linesFrom_closePeer, World.linesFrom_noted]
      exact List.append_nil _

/-- What a move means for the lines read from the peer `k`. -/
inductive LinesChange (w : World) (m : Move) (w' : World) (k : PeerKey) : Prop
  | stays : w'.linesFrom k = w.linesFrom k → LinesChange w m w' k
  | grows {t : TaskKey} {wk wk' : Worker} {sender : PeerId} {l : Line} : m = .turn t →
      w.tasks[t]? = some (.worker wk) → w'.tasks[t]? = some (.worker wk') → wk.peer = k →
      wk'.peer = k → wk'.linesRead = wk.linesRead + 1 →
      wk'.stage = .relaying (.begin wk.linesRead sender l) →
      w'.linesFrom k = w.linesFrom k ++ [l] → LinesChange w m w' k

theorem MoveStep.linesFrom {w w' : World} {m : Move} (h : MoveStep w m w') (hm : m.Hosted)
    (k : PeerKey) : LinesChange w m w' k := by
  cases h with
  | idles | arrives _ | requests _ _ | stops => exact .stays rfl
  | closes | fires | connects _ | spawns _ => cases hm
  | outside _ h => exact .stays (by rw [World.linesFrom, h.journal]; rfl)
  | serves _ hnotes =>
      refine .stays ((World.linesFrom_noted _ _ _).trans ?_)
      rw [List.filterMap_eq_nil_iff.2 fun n hn => ?_]
      · exact List.append_nil _
      · obtain ⟨peer, reason, online, rfl⟩ := hnotes n hn
        rfl
  | @turns me task task' w₁ htask hstep =>
      have htask' := hstep.setTask_self htask
      have hlines : ∀ k, (w₁.setTask me task').linesFrom k = w₁.linesFrom k := fun _ => rfl
      cases hstep with
      | send _ _ | awaited _ _ => exact .stays rfl
      | broadcast hstep => exact .stays ((hlines k).trans (hstep.linesFrom k))
      | monitor hstep =>
          refine .stays ((hlines k).trans ?_)
          cases hstep with
          | stops _ _ | wakes _ _ _ | asks _ _ => rfl
          | samples _ _ | ends _ _ => exact (World.linesFrom_noted _ _ _).trans (List.append_nil _)
      | server hstep =>
          refine .stays ((hlines k).trans ?_)
          cases hstep with
          | accepts _ _ _ => rfl
          | starts _ | ends _ _ | misses _ _ _ | joins _ _ =>
              exact (World.linesFrom_noted _ _ _).trans (List.append_nil _)
      | @worker wk wk' c _ _ hstep =>
          cases hstep with
          | relays _ hstep => exact .stays ((hlines k).trans (hstep.linesFrom k))
          | registers _ _ | unregisters _ _ | pauses _ _ _ _ => exact .stays rfl
          | starts _ _ | quits _ _ =>
              exact .stays ((World.linesFrom_noted _ _ _).trans (List.append_nil _))
          | leaves _ _ => exact .stays (World.linesFrom_closePeer _ _ _)
          | drops _ _ =>
              exact .stays ((World.linesFrom_closePeer _ _ _).trans
                ((World.linesFrom_noted _ _ _).trans (List.append_nil _)))
          | stops _ _ _ _ hresult =>
              refine .stays ((World.linesFrom_noted _ _ _).trans ?_)
              rcases hresult with ⟨-, rfl⟩ | ⟨e, -, rfl⟩
              · exact List.append_nil _
              · split_ifs <;> exact List.append_nil _
          | @reads reader inlet l _ _ _ _ =>
              rcases eq_or_ne wk.peer k with hk | hk
              · refine .grows rfl htask htask' hk hk rfl rfl ?_
                refine (World.linesFrom_noted _ _ _).trans ?_
                simp [Note.lineFrom?, hk, World.linesFrom, World.setInlet]
              · refine .stays ((World.linesFrom_noted _ _ _).trans ?_)
                simp [Note.lineFrom?, hk, World.linesFrom, World.setInlet]

/-! ## The staff -/

/-- The number of the connection `k`. -/
def PeerId.ofKey (k : PeerKey) : PeerId := ⟨UInt64.ofNat (k + 1)⟩

theorem PeerId.ofKey_succ (k : PeerKey) : PeerId.ofKey (k + 1) = ⟨(PeerId.ofKey k).raw + 1⟩ := by
  rw [ofKey, UInt64.ofNat_add (k + 1) 1]
  rfl

theorem PeerId.ofKey_inj {k j : Nat} (hk : k < UInt64.size) (hj : j < UInt64.size)
    (h : PeerId.ofKey k = PeerId.ofKey j) : k = j := by
  have hraw : (UInt64.ofNat (k + 1)).toNat = (UInt64.ofNat (j + 1)).toNat :=
    congrArg (fun id : PeerId => id.raw.toNat) h
  rw [UInt64.toNat_ofNat', UInt64.toNat_ofNat'] at hraw
  simp only [UInt64.size] at hk hj
  omega

/-- Whether a task is one that a server is or starts. -/
def Task.IsEmployed : Task → Prop
  | .worker _ | .monitor _ | .server _ => True
  | .send _ _ | .awaitClose _ _ | .broadcast _ => False

/-- What holds in every world of a run of one server. -/
structure World.Staffed (w : World) : Prop where
  employed : ∀ {t : TaskKey} {task : Task}, w.tasks[t]? = some task → task.IsEmployed
  server : ∀ {t : TaskKey} {s : Server}, w.tasks[t]? = some (.server s) →
    t = 0 ∧ PeerId.ofKey w.connections.length = ⟨s.nextId⟩ ∧ ∀ a ∈ s.arrivals, a.IsFresh
  hired : ∀ {k : PeerKey} {p : Peer}, w.peer? k = some p →
    ∃ (t : TaskKey) (wk : Worker), w.tasks[t]? = some (.worker wk) ∧ wk.peer = k
  sole : ∀ {t t' : TaskKey} {wk wk' : Worker}, w.tasks[t]? = some (.worker wk) →
    w.tasks[t']? = some (.worker wk') → wk.peer = wk'.peer → t = t'
  unread : ∀ {k : PeerKey}, w.peer? k = none → w.linesFrom k = []
  counted : ∀ {t : TaskKey} {wk : Worker}, w.tasks[t]? = some (.worker wk) →
    (w.linesFrom wk.peer).length = wk.linesRead
  relaying : ∀ {t : TaskKey} {wk : Worker} {b : Broadcast}, w.tasks[t]? = some (.worker wk) →
    wk.stage = .relaying b → b.serial + 1 = wk.linesRead
      ∧ (w.linesFrom wk.peer)[b.serial]? = some b.line
      ∧ ∃ p, w.peer? wk.peer = some p ∧ b.sender = p.info.id
  peers : ∀ {k : PeerKey} {p : Peer}, w.peer? k = some p →
    p.info.id = .ofKey k ∧ p.underShutdown = true ∧ p.fired = p.closed

theorem BroadcastStep.same {w w' : World} {me : TaskKey} {b b' : Broadcast}
    (h : BroadcastStep w me b w' b') :
    b'.serial = b.serial ∧ b'.sender = b.sender ∧ b'.line = b.line := by
  cases h with
  | asks _ _ | skips _ _ | sends _ _ _ _ | fails _ _ _ | prunes _ _ => exact ⟨rfl, rfl, rfl⟩
  | learns _ _ | misses _ _ | settles _ _ _ _ | pruned _ _ =>
      exact ⟨Broadcast.serial_onward _ _, Broadcast.sender_onward _ _, Broadcast.line_onward _ _⟩

theorem Task.IsEmployed.step {w w' : World} {me : TaskKey} {task task' : Task}
    (h : task.IsEmployed) (hstep : TaskStep w me task w' task') : task'.IsEmployed := by
  cases hstep with
  | worker _ _ | monitor _ | server _ => trivial
  | send _ _ | awaited _ _ | broadcast _ => cases h

/-- Around a server, a broadcast is made by a worker. -/
theorem World.Staffed.exists_worker {w : World} (h : w.Staffed) {t : TaskKey} {b : Broadcast}
    (hb : w.broadcast? t = some b) :
    ∃ wk, w.tasks[t]? = some (.worker wk) ∧ wk.stage = .relaying b := by
  rcases World.broadcast?_eq_some.1 hb with ht | hworker
  · cases h.employed ht
  · exact hworker

/-- Around a server, a send is part of the broadcast of a worker. -/
theorem World.Staffed.exists_broadcast {w : World} (h : w.Staffed) {t : TaskKey} {R : PeerKey}
    {state : SendState} (hsend : w.send? t = some (R, state)) :
    ∃ b rest, w.broadcast? t = some b ∧ b.stage = .sending R state rest := by
  rcases World.send?_eq_some.1 hsend with ht | hbroadcast
  · cases h.employed ht
  · exact hbroadcast

namespace World

variable {w w' : World} {m : Move}

/-- The number that the server will give next. -/
theorem Staffed.server_step (h : w.Staffed) (hstep : MoveStep w m w') (hm : m.Hosted)
    {t : TaskKey} {s' : Server} (ht : w'.tasks[t]? = some (.server s')) :
    t = 0 ∧ PeerId.ofKey w'.connections.length = ⟨s'.nextId⟩ ∧ ∀ a ∈ s'.arrivals, a.IsFresh := by
  cases hstep.was ht with
  | stays hidle ht₀ =>
      obtain ⟨rfl, hid, hfresh⟩ := h.server ht₀
      refine ⟨rfl, ?_, hfresh⟩
      rcases hstep.accepts hm.orderly with hlength | ⟨t₀, hturn, haccepts⟩
      · rw [hlength, hid]
      · -- the only server is this one, which did not take a turn
        obtain ⟨s, hs⟩ : ∃ s, w.tasks[t₀]? = some (.server s) := by
          cases haccepts with
          | intro _ hs _ _ => exact ⟨_, hs⟩
        obtain rfl := (h.server hs).1
        rw [hidle hturn, hid]
  | arrives hm' ht₀ =>
      obtain ⟨rfl, hid, hfresh⟩ := h.server ht₀
      subst hm'
      refine ⟨rfl, ?_, ?_⟩
      · rcases hstep.accepts hm.orderly with hlength | ⟨_, hturn, -⟩
        · rw [hlength, hid]
        · cases hturn
      · intro a ha
        rcases List.mem_append.1 ha with ha | ha
        · exact hfresh a ha
        · exact List.mem_singleton.1 ha ▸ hm
  | begins _ _ hby =>
      rcases hby with rfl | hhires
      · cases hm
      · cases hhires
  | turns _ ht₀ htaskStep hw' =>
      subst hw'
      cases htaskStep with
      | server hserver =>
          obtain ⟨rfl, hid, hfresh⟩ := h.server ht₀
          refine ⟨rfl, ?_⟩
          cases hserver with
          | starts _ | ends _ _ => exact ⟨hid, hfresh⟩
          | joins _ _ => exact ⟨hid, fun a ha => absurd ha List.not_mem_nil⟩
          | misses _ _ harrivals =>
              exact ⟨hid, fun a ha => hfresh a (harrivals ▸ List.mem_cons_of_mem _ ha)⟩
          | accepts _ _ harrivals =>
              refine ⟨?_, fun a ha => hfresh a (harrivals ▸ List.mem_cons_of_mem _ ha)⟩
              show PeerId.ofKey (w.connections ++ [_]).length = _
              rw [List.length_append, List.length_singleton, PeerId.ofKey_succ, hid]

theorem Staffed.oneWorkerEach (h : w.Staffed) : w.OneWorkerEach := ⟨h.hired, h.sole⟩

theorem Staffed.unread_step (h : w.Staffed) (hw : w.Requests) (hstep : MoveStep w m w')
    (hm : m.Hosted) {k : PeerKey} (hnone : w'.peer? k = none) : w'.linesFrom k = [] := by
  have hnone₀ : w.peer? k = none := by
    cases hp : w.peer? k with
    | none => rfl
    | some p =>
        obtain ⟨q, hq, -⟩ := hstep.lasts hp
        cases hq.symm.trans hnone
  cases hstep.linesFrom hm k with
  | stays hlines => rw [hlines, h.unread hnone₀]
  | grows _ ht _ hk _ _ _ _ =>
      obtain ⟨p, hp⟩ := hw.workers ht
      cases (hk ▸ hp).symm.trans hnone₀

/-- A worker counts the lines it has read, and relays the last of them. -/
theorem Staffed.counted_step (h : w.Staffed) (hw : w.Requests) (hstep : MoveStep w m w')
    (hm : m.Hosted) {t : TaskKey} {wk' : Worker} (ht : w'.tasks[t]? = some (.worker wk')) :
    (w'.linesFrom wk'.peer).length = wk'.linesRead
      ∧ ∀ {b}, wk'.stage = .relaying b → b.serial + 1 = wk'.linesRead
        ∧ (w'.linesFrom wk'.peer)[b.serial]? = some b.line := by
  -- a worker that has read no line, with nothing new from its peer
  have hsame : ∀ {wk : Worker}, w.tasks[t]? = some (.worker wk) → wk.peer = wk'.peer →
      wk.linesRead = wk'.linesRead → w'.linesFrom wk'.peer = w.linesFrom wk'.peer →
      (∀ {b'}, wk'.stage = .relaying b' → ∃ b, wk.stage = .relaying b ∧ b'.serial = b.serial
        ∧ b'.line = b.line) →
      (w'.linesFrom wk'.peer).length = wk'.linesRead
        ∧ ∀ {b}, wk'.stage = .relaying b → b.serial + 1 = wk'.linesRead
          ∧ (w'.linesFrom wk'.peer)[b.serial]? = some b.line := by
    intro wk ht hpeer hread hlines hstage
    rw [hlines, ← hpeer, ← hread]
    refine ⟨h.counted ht, ?_⟩
    intro b' hb'
    obtain ⟨b, hb, hserial, hline⟩ := hstage hb'
    obtain ⟨hlast, hget, -⟩ := h.relaying ht hb
    rw [hserial, hline]
    exact ⟨hlast, hget⟩
  cases hstep.linesFrom hm wk'.peer with
  | @grows t₀ wk wk₁ sender l hturn ht₀ ht₁ hk hk₁ hread hstage hlines =>
      obtain rfl : t = t₀ := h.oneWorkerEach.sole_step hw hstep hm.orderly ht ht₁ hk₁.symm
      cases ht.symm.trans ht₁
      have hcount := h.counted ht₀
      rw [hk] at hcount
      refine ⟨by rw [hlines, List.length_append, hcount, hread]; rfl, ?_⟩
      intro b hb
      cases hstage.symm.trans hb
      refine ⟨hread.symm, ?_⟩
      show (w'.linesFrom wk'.peer)[wk.linesRead]? = some l
      rw [hlines, ← hcount, List.getElem?_concat_length]
  | stays hlines =>
      cases hstep.worker hm.orderly ht with
      | stays _ ht => exact hsame ht rfl rfl hlines fun {b'} hb' => ⟨b', hb', rfl, rfl⟩
      | comes _ hpeer hp hwk =>
          rw [hlines, h.unread hpeer, ← hwk]
          exact ⟨rfl, WorkerStage.noConfusion⟩
      | @steps wk c w₁ _ ht₀ hc hworker hw' =>
          have hpeer := hworker.peer
          cases hworker with
          | @reads reader inlet l _ _ _ _ =>
              -- it has read a line, so there is one more
              have hgrows : w'.linesFrom wk.peer = w.linesFrom wk.peer ++ [l] := by
                rw [hw']
                refine (linesFrom_noted _ _ _).trans ?_
                simp [Note.lineFrom?, linesFrom, setInlet]
              have := congrArg List.length (hgrows.symm.trans hlines)
              simp at this
          | relays hstage hbroadcast =>
              refine hsame ht₀ rfl rfl hlines fun {b'} hb' => ⟨_, hstage, ?_⟩
              obtain ⟨hserial, -, hline⟩ := hbroadcast.same
              split_ifs at hb'
              cases hb'
              exact ⟨hserial, hline⟩
          | registers _ _ | starts _ _ | drops _ _ | quits _ _ | stops _ _ _ _ _
          | unregisters _ _ | leaves _ _ =>
              exact hsame ht₀ rfl rfl hlines fun {b'} hb' => by cases hb'
          | pauses hstage _ _ _ =>
              exact hsame ht₀ rfl rfl hlines fun {b'} hb' => by cases hstage.symm.trans hb'

/-- A worker relays as the peer that it works for. -/
theorem Staffed.sender_step (h : w.Staffed) (hstep : MoveStep w m w') (hm : m.Hosted)
    {t : TaskKey} {wk' : Worker} {b' : Broadcast} (ht : w'.tasks[t]? = some (.worker wk'))
    (hb' : wk'.stage = .relaying b') : ∃ q, w'.peer? wk'.peer = some q ∧ b'.sender = q.info.id := by
  have hold : ∀ {p : Peer}, w.peer? wk'.peer = some p → b'.sender = p.info.id →
      ∃ q, w'.peer? wk'.peer = some q ∧ b'.sender = q.info.id := by
    intro p hp hsender
    obtain ⟨q, hq, hlasts⟩ := hstep.lasts hp
    exact ⟨q, hq, by rw [hsender, hlasts.info]⟩
  cases hstep.worker hm.orderly ht with
  | stays _ ht =>
      obtain ⟨-, -, p, hp, hsender⟩ := h.relaying ht hb'
      exact hold hp hsender
  | comes _ _ _ hwk =>
      rw [← hwk] at hb'
      cases hb'
  | @steps wk c w₁ _ ht₀ hc hworker hw' =>
      cases hworker with
      | reads _ _ _ _ =>
          cases hb'
          exact hold (peer?_of_connection hc) rfl
      | relays hstage hbroadcast =>
          obtain ⟨-, -, p, hp, hsender⟩ := h.relaying ht₀ hstage
          split_ifs at hb'
          cases hb'
          exact hold hp (hbroadcast.same.2.1.trans hsender)
      | registers _ _ | starts _ _ | drops _ _ | quits _ _ | stops _ _ _ _ _
      | unregisters _ _ | leaves _ _ => cases hb'
      | pauses hstage _ _ _ => cases hstage.symm.trans hb'

theorem Staffed.peers_step (h : w.Staffed) (hstep : MoveStep w m w') (hm : m.Hosted)
    {k : PeerKey} {q : Peer} (hq : w'.peer? k = some q) :
    q.info.id = .ofKey k ∧ q.underShutdown = true ∧ q.fired = q.closed := by
  have hlasts : ∀ {p : Peer}, w.peer? k = some p →
      q.info.id = .ofKey k ∧ q.underShutdown = true ∧ p.fired = p.closed := by
    intro p hp
    obtain ⟨q', hq', hlasts⟩ := hstep.lasts hp
    cases hq'.symm.trans hq
    obtain ⟨hid, hunder, hfired⟩ := h.peers hp
    exact ⟨by rw [hlasts.info, hid], hlasts.underShutdown.trans hunder, hfired⟩
  cases hstep.peer hm hq with
  | stays hp hclosed hfired =>
      obtain ⟨hid, hunder, hsame⟩ := hlasts hp
      exact ⟨hid, hunder, by rw [hfired, hclosed, hsame]⟩
  | closes _ hp _ hclosed hfired _ =>
      obtain ⟨hid, hunder, -⟩ := hlasts hp
      exact ⟨hid, hunder, hfired.trans hclosed.symm⟩
  | comes _ hs _ hk hnew =>
      subst hnew
      refine ⟨?_, rfl, rfl⟩
      rw [hk, (h.server hs).2.1]
      rfl

theorem Staffed.step (h : w.Staffed) (hw : w.Requests) (hstep : MoveStep w m w')
    (hm : m.Hosted) : w'.Staffed where
  employed := by
    intro t task ht
    cases hstep.was ht with
    | stays _ ht₀ => exact h.employed ht₀
    | arrives _ _ => trivial
    | turns _ ht₀ htaskStep _ => exact (h.employed ht₀).step htaskStep
    | begins _ _ hby =>
        rcases hby with rfl | hhires
        · cases hm
        · match task with
          | .worker _ | .monitor _ | .server _ => trivial
          | .send _ _ | .awaitClose _ _ | .broadcast _ => cases hhires
  server := h.server_step hstep hm
  hired := h.oneWorkerEach.hired_step hstep hm.orderly
  sole := h.oneWorkerEach.sole_step hw hstep hm.orderly
  unread := h.unread_step hw hstep hm
  counted := fun ht => (h.counted_step hw hstep hm ht).1
  relaying := fun ht hb =>
    ⟨((h.counted_step hw hstep hm ht).2 hb).1, ((h.counted_step hw hstep hm ht).2 hb).2,
      h.sender_step hstep hm ht hb⟩
  peers := h.peers_step hstep hm

theorem staffed_hosting (listen : String) (maxLine : Option UInt64) (interval : Nat) :
    (hosting listen maxLine interval).Staffed := by
  have htasks : ∀ {t : TaskKey} {task : Task},
      (hosting listen maxLine interval).tasks[t]? = some task →
        t = 0 ∧ task = .server { listen, maxLine, interval } := by
    intro t task ht
    cases t with
    | zero => exact ⟨rfl, (Option.some.inj ht).symm⟩
    | succ t => cases ht
  have hnobody : ∀ {k : PeerKey} {p : Peer},
      (hosting listen maxLine interval).peer? k ≠ some p := by
    intro k p hp
    cases hp
  refine ⟨?_, ?_, fun hp => absurd hp hnobody, ?_, fun _ => rfl,
    ?_, ?_, fun hp => absurd hp hnobody⟩
  · intro t task ht
    rw [(htasks ht).2]
    trivial
  · intro t s ht
    obtain ⟨rfl, hs⟩ := htasks ht
    cases hs
    exact ⟨rfl, rfl, fun a ha => absurd ha List.not_mem_nil⟩
  · intro t t' wk wk' ht
    cases (htasks ht).2
  · intro t wk ht
    cases (htasks ht).2
  · intro t wk b ht
    cases (htasks ht).2

/-- In every world of a run of one server, the staff is as it should be. -/
theorem staffed_run {listen : String} {maxLine : Option UInt64} {interval : Nat}
    {moves : List Move} (hmoves : ∀ m ∈ moves, m.Hosted) :
    ((hosting listen maxLine interval).run moves).Staffed := by
  have h₀ := isNew_hosting listen maxLine interval
  refine hosted_induction (w := hosting listen maxLine interval)
    (P := fun moves => ((hosting listen maxLine interval).run moves).Staffed)
    (staffed_hosting _ _ _) (fun hmoves hm h hstep => ?_) hmoves
  exact h.step (requests_run h₀.requests (permitted_of_hosted hmoves _)) hstep hm

end World

end LineRelay
