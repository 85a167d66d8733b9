/-
# What one move does, and runs of moves that begin things fresh

A run starts with whatever its surroundings have connected, spawned and
asked for.  `World.Permits` says what of this makes sense: a connection
comes with nobody in its queue, a task comes at its beginning, a peer is
registered as what it is.  Everything else is up to the surroundings and
to the order in which the tasks go on.

`MoveStep` lists what a permitted move does.  A property of all runs is
then a property of the first world that every `MoveStep` preserves.
-/
import LineRelay.Proofs.Relay.Steps

namespace LineRelay

namespace World

variable {w w' w'' : World}

/-! ## Reading a world after a change -/

@[simp] theorem peer?_noted (w : World) (ns : List Note) (k : PeerKey) :
    (w.noted ns).peer? k = w.peer? k := rfl

@[simp] theorem peer?_asked (w : World) (c : Command) (k : PeerKey) :
    (w.asked c).peer? k = w.peer? k := rfl

@[simp] theorem peer?_setTask (w : World) (t : TaskKey) (task : Task) (k : PeerKey) :
    (w.setTask t task).peer? k = w.peer? k := rfl

@[simp] theorem peer?_spawn (w : World) (task : Task) (k : PeerKey) :
    (w.spawn task).peer? k = w.peer? k := rfl

theorem peer?_setPeer (w : World) (k j : PeerKey) (q : Peer) :
    (w.setPeer k q).peer? j = if j = k then (w.peer? k).map fun _ => q else w.peer? j := by
  simp only [peer?, setPeer, List.getElem?_modify]
  split_ifs with h h' h'
  · subst h
    cases w.connections[k]? <;> rfl
  · exact absurd h.symm h'
  · exact absurd h'.symm h
  · cases w.connections[j]? <;> rfl

theorem peer?_setPeer_self {k : PeerKey} {p : Peer} (hp : w.peer? k = some p) (q : Peer) :
    (w.setPeer k q).peer? k = some q := by
  rw [peer?_setPeer, if_pos rfl, hp]
  rfl

@[simp] theorem peer?_setInlet (w : World) (k j : PeerKey) (i : Inlet) :
    (w.setInlet k i).peer? j = w.peer? j := by
  simp only [peer?, setInlet, List.getElem?_modify]
  split_ifs <;> cases w.connections[j]? <;> rfl

theorem peer?_eq_none_iff (w : World) {k : PeerKey} :
    w.peer? k = none ↔ w.connections.length ≤ k := by
  rw [peer?, Option.map_eq_none_iff, List.getElem?_eq_none_iff]

theorem lt_length_of_peer? {k : PeerKey} {p : Peer} (h : w.peer? k = some p) :
    k < w.connections.length := by
  by_contra hle
  rw [(peer?_eq_none_iff w).2 (Nat.le_of_not_lt hle)] at h
  cases h

theorem peer?_connect (w : World) (c : Connection) (j : PeerKey) :
    (w.connect c).peer? j = if j = w.connections.length then some c.peer else w.peer? j := by
  rcases Nat.lt_trichotomy j w.connections.length with h | rfl | h
  · rw [if_neg h.ne]
    simp [peer?, connect, List.getElem?_append_left h]
  · simp [peer?, connect]
  · rw [if_neg h.ne']
    have hnone : (w.connections ++ [c])[j]? = none := List.getElem?_eq_none (by simpa using h)
    simp [peer?, connect, hnone, List.getElem?_eq_none h.le]

theorem closePeer_eq (w : World) (k : PeerKey) :
    (w.closePeer k).1 = w.onPeer k fun p => p.close.1 := by
  unfold closePeer onPeer
  cases w.peer? k <;> rfl

theorem peer?_closePeer (w : World) (k j : PeerKey) :
    (w.closePeer k).1.peer? j = if j = k then (w.peer? k).map (·.close.1) else w.peer? j := by
  rw [closePeer_eq, onPeer]
  cases hp : w.peer? k with
  | none =>
      split_ifs with hj
      · rw [hj, hp]
        rfl
      · rfl
  | some p => simp only [peer?_setPeer, hp, Option.map_some]

theorem peer?_closePeer_self {k : PeerKey} {p : Peer} (hp : w.peer? k = some p) :
    (w.closePeer k).1.peer? k = some p.close.1 := by
  rw [peer?_closePeer, if_pos rfl, hp]
  rfl

theorem tasks_setTask (w : World) (me t : TaskKey) (task : Task) :
    (w.setTask me task).tasks[t]?
      = if t = me then w.tasks[t]?.map fun _ => task else w.tasks[t]? := by
  rcases eq_or_ne t me with rfl | h
  · rw [if_pos rfl, setTask, List.getElem?_set_self']
    rfl
  · rw [if_neg h, setTask, List.getElem?_set_ne h.symm]

theorem tasks_setTask_self {me : TaskKey} {old : Task} (h : w.tasks[me]? = some old)
    (task : Task) : (w.setTask me task).tasks[me]? = some task := by
  rw [tasks_setTask, if_pos rfl, h, Option.map_some]

/-! ## Peers that nobody writes to -/

/-- What becomes of the peers of a world while no sender takes a turn. -/
structure PeersDrift (w w' : World) : Prop where
  keeps : ∀ {k : PeerKey} {p : Peer}, w.peer? k = some p → ∃ q, w'.peer? k = some q ∧ p.Drifts q
  comes : ∀ {k : PeerKey} {q : Peer}, w'.peer? k = some q → w.peer? k = none → q.senders = []
  shutdown : w.shutdown = true → w'.shutdown = true

@[refl] theorem PeersDrift.refl (w : World) : w.PeersDrift w :=
  ⟨fun h => ⟨_, h, .refl _⟩, fun h h' => by simp [h] at h', id⟩

theorem PeersDrift.trans (h : w.PeersDrift w') (h' : w'.PeersDrift w'') : w.PeersDrift w'' where
  keeps := by
    intro k p hp
    obtain ⟨q, hq, hdrift⟩ := h.keeps hp
    obtain ⟨r, hr, hdrift'⟩ := h'.keeps hq
    exact ⟨r, hr, hdrift.trans hdrift'⟩
  comes := by
    intro k r hr hnone
    cases hq : w'.peer? k with
    | none => exact h'.comes hr hq
    | some q =>
        obtain ⟨r', hr', hdrift⟩ := h'.keeps hq
        obtain rfl : r' = r := Option.some.inj (hr'.symm.trans hr)
        exact hdrift.senders.trans (h.comes hq hnone)
  shutdown := h'.shutdown ∘ h.shutdown

/-- A change that concerns no peer. -/
theorem peersDrift_of_eq (h : ∀ k, w'.peer? k = w.peer? k)
    (hshutdown : w.shutdown = true → w'.shutdown = true) : w.PeersDrift w' where
  keeps := fun {k p} hp => ⟨p, (h k).trans hp, .refl p⟩
  comes := fun {k q} hq hnone => by simp [← h k, hq] at hnone
  shutdown := hshutdown

theorem peersDrift_onPeer (w : World) (k : PeerKey) {f : Peer → Peer}
    (hf : ∀ p : Peer, p.Drifts (f p)) :
    w.PeersDrift (w.onPeer k f) := by
  unfold onPeer
  cases hk : w.peer? k with
  | none => exact .refl w
  | some p =>
      refine ⟨?_, ?_, id⟩
      · intro j q hq
        rw [peer?_setPeer, hk]
        split_ifs with hj
        · subst hj
          obtain rfl : q = p := Option.some.inj (hq.symm.trans hk)
          exact ⟨f q, rfl, hf q⟩
        · exact ⟨q, hq, .refl q⟩
      · intro j q hq hnone
        rw [peer?_setPeer, hk] at hq
        split_ifs at hq with hj
        · simp [hj, hk] at hnone
        · simp [hq] at hnone

theorem peersDrift_closePeer (w : World) (k : PeerKey) : w.PeersDrift (w.closePeer k).1 := by
  rw [closePeer_eq]
  exact peersDrift_onPeer w k Peer.drifts_close

theorem peersDrift_noted (w : World) (ns : List Note) : w.PeersDrift (w.noted ns) :=
  peersDrift_of_eq (fun _ => rfl) id

theorem peersDrift_asked (w : World) (c : Command) : w.PeersDrift (w.asked c) :=
  peersDrift_of_eq (fun _ => rfl) id

theorem peersDrift_setInlet (w : World) (k : PeerKey) (i : Inlet) : w.PeersDrift (w.setInlet k i) :=
  peersDrift_of_eq (fun j => peer?_setInlet w k j i) id

theorem peersDrift_connect (w : World) {c : Connection} (h : c.peer.senders = []) :
    w.PeersDrift (w.connect c) where
  keeps := by
    intro k p hp
    refine ⟨p, ?_, .refl p⟩
    have hlt : k ≠ w.connections.length := by
      rintro rfl
      simp [peer?] at hp
    rw [peer?_connect, if_neg hlt, hp]
  comes := by
    intro k q hq hnone
    rw [peer?_connect] at hq
    split_ifs at hq
    · cases hq
      exact h
    · simp [hq] at hnone
  shutdown := id

/-- What a change to a peer leaves of the rest of the world. -/
theorem onPeer_frame (w : World) (k : PeerKey) (f : Peer → Peer) :
    (w.onPeer k f).registry = w.registry ∧ (w.onPeer k f).tasks = w.tasks
      ∧ (w.onPeer k f).journal = w.journal ∧ (w.onPeer k f).shutdown = w.shutdown
      ∧ (w.onPeer k f).connections.length = w.connections.length := by
  unfold onPeer
  cases w.peer? k with
  | none => exact ⟨rfl, rfl, rfl, rfl, rfl⟩
  | some p => exact ⟨rfl, rfl, rfl, rfl, by simp [setPeer]⟩

/-! ## What the surroundings may do -/

/-- Whether a task is at its beginning. -/
def Begins (w : World) : Task → Prop
  | .send _ (.fresh _) | .awaitClose _ _ | .monitor ⟨_, .sleeping _⟩ => True
  | .send _ _ | .monitor _ => False
  | .broadcast b => b = .begin b.serial b.sender b.line
  | .worker wk => (w.peer? wk.peer).map (newWorker wk.peer · wk.reader.limit) = some wk
  | .server s => s.stage = .starting

/-- Whether a command names no peer as what it is not. -/
def Names (w : World) : Command → Prop
  | .register m => (w.peer? m.handle).map (·.info) = some m.info
  | _ => True

/-- Whether a move begins what it begins fresh. -/
def Permits (w : World) : Move → Prop
  | .connect c => c.peer.senders = []
  | .spawn t => w.Begins t
  | .request c => w.Names c
  | _ => True

/-- Whether all moves of a run do. -/
def Permitted : World → List Move → Prop
  | _, [] => True
  | w, m :: moves => w.Permits m ∧ Permitted (w.move m) moves

instance decBegins (w : World) : ∀ t : Task, Decidable (w.Begins t)
  | .send _ (.fresh _) | .awaitClose _ _ | .monitor ⟨_, .sleeping _⟩ =>
      inferInstanceAs (Decidable True)
  | .send _ (.queued _) | .send _ (.writing _) | .send _ (.ended _)
  | .monitor ⟨_, .sampling _⟩ | .monitor ⟨_, .finished⟩ => inferInstanceAs (Decidable False)
  | .broadcast b => inferInstanceAs (Decidable (b = .begin b.serial b.sender b.line))
  | .worker wk =>
      inferInstanceAs
        (Decidable ((w.peer? wk.peer).map (newWorker wk.peer · wk.reader.limit) = some wk))
  | .server s => inferInstanceAs (Decidable (s.stage = .starting))

instance decNames (w : World) : ∀ c : Command, Decidable (w.Names c)
  | .register m => inferInstanceAs (Decidable ((w.peer? m.handle).map (·.info) = some m.info))
  | .unregister _ _ | .snapshot _ | .size | .contains _ => inferInstanceAs (Decidable True)

instance decPermits (w : World) : ∀ m : Move, Decidable (w.Permits m)
  | .connect c => inferInstanceAs (Decidable (c.peer.senders = []))
  | .spawn t => inferInstanceAs (Decidable (w.Begins t))
  | .request c => inferInstanceAs (Decidable (w.Names c))
  | .serve _ | .turn _ | .supply _ _ | .wake _ | .answer _ _ | .arrive _ _ | .shutdown | .elapse _
  | .stopRegistry | .close _ | .fire _ => inferInstanceAs (Decidable True)

instance decPermitted : ∀ (w : World) (moves : List Move), Decidable (w.Permitted moves)
  | _, [] => inferInstanceAs (Decidable True)
  | w, m :: moves =>
      have := decPermitted (w.move m) moves
      inferInstanceAs (Decidable (_ ∧ _))

/-! ## Moves -/

/-- What the surroundings do when they neither begin nor close anything. -/
structure Outside (w w' : World) : Prop where
  drift : w.PeersDrift w'
  closings : ∀ {k : PeerKey} {p q : Peer}, w.peer? k = some p → w'.peer? k = some q →
    q.closed = p.closed ∧ q.fired = p.fired
  registry : w'.registry = w.registry
  tasks : w'.tasks = w.tasks
  journal : w'.journal = w.journal
  length_connections : w'.connections.length = w.connections.length

end World

/-- One permitted move. -/
inductive MoveStep (w : World) : Move → World → Prop
  | idles {m : Move} : MoveStep w m w
  | turns {me : TaskKey} {task task' : Task} {w' : World} : w.tasks[me]? = some task →
      TaskStep w me task w' task' → MoveStep w (.turn me) (w'.setTask me task')
  | serves {rank : PeerId → Nat} {r : Registry} {change : Option Change} {ns : List Note} :
      w.registry.serve rank = some (r, change) →
      (∀ n ∈ ns, ∃ peer reason online, n = .removed peer reason online) →
      MoveStep w (.serve rank) ({ w with registry := r }.noted ns)
  | outside {m : Move} {w' : World} : (∀ t, m ≠ .turn t) → w.Outside w' → MoveStep w m w'
  | arrives {t : TaskKey} {a : Arrival} {s : Server} : w.tasks[t]? = some (.server s) →
      MoveStep w (.arrive t a)
        (w.setTask t (.server { s with arrivals := s.arrivals ++ [a] }))
  | closes {k : PeerKey} : MoveStep w (.close k) (w.closePeer k).1
  | fires {k : PeerKey} : MoveStep w (.fire k) (w.onPeer k Peer.fire)
  | connects {c : Connection} : c.peer.senders = [] → MoveStep w (.connect c) (w.connect c)
  | spawns {task : Task} : w.Begins task → MoveStep w (.spawn task) (w.spawn task)
  | requests {c : Command} : w.registry.admits = true → w.Names c →
      MoveStep w (.request c) (w.asked c)
  | stops : MoveStep w .stopRegistry { w with registry := w.registry.stop }

namespace World

variable {w w' : World}

theorem outside_of_eq (hconnections : w'.connections = w.connections)
    (hshutdown : w.shutdown = true → w'.shutdown = true) (hregistry : w'.registry = w.registry)
    (htasks : w'.tasks = w.tasks) (hjournal : w'.journal = w.journal) : w.Outside w' := by
  have hpeers : ∀ k, w'.peer? k = w.peer? k := fun k => by rw [peer?, peer?, hconnections]
  refine ⟨peersDrift_of_eq hpeers hshutdown, ?_, hregistry, htasks, hjournal,
    by rw [hconnections]⟩
  intro k p q hp hq
  obtain rfl : q = p := Option.some.inj (hq.symm.trans ((hpeers k).trans hp))
  exact ⟨rfl, rfl⟩

theorem outside_onTransport (w : World) (k : PeerKey) {f : Transport → Transport}
    (hf : ∀ p : Peer,
      p.Drifts { p with outlet := { p.outlet with transport := f p.outlet.transport } }) :
    w.Outside (w.onTransport k f) := by
  obtain ⟨hregistry, htasks, hjournal, hshutdown, hlength⟩ := onPeer_frame w k fun p =>
    { p with outlet := { p.outlet with transport := f p.outlet.transport } }
  refine ⟨peersDrift_onPeer w k hf, ?_, hregistry, htasks, hjournal, hlength⟩
  intro j p q hp hq
  unfold onTransport onPeer at hq
  cases hk : w.peer? k with
  | none =>
      simp only [hk] at hq
      obtain rfl : q = p := Option.some.inj (hq.symm.trans hp)
      exact ⟨rfl, rfl⟩
  | some r =>
      simp only [hk, peer?_setPeer] at hq
      split_ifs at hq with hj
      · subst hj
        obtain rfl : r = p := Option.some.inj (hk.symm.trans hp)
        cases hq
        exact ⟨rfl, rfl⟩
      · obtain rfl : q = p := Option.some.inj (hq.symm.trans hp)
        exact ⟨rfl, rfl⟩

theorem outside_setInlet (w : World) (k : PeerKey) (i : Inlet) : w.Outside (w.setInlet k i) := by
  refine ⟨peersDrift_setInlet w k i, ?_, rfl, rfl, rfl, by simp [setInlet]⟩
  intro j p q hp hq
  rw [peer?_setInlet] at hq
  obtain rfl : q = p := Option.some.inj (hq.symm.trans hp)
  exact ⟨rfl, rfl⟩

/-- A permitted move does what is listed. -/
theorem moveStep_move {m : Move} (h : w.Permits m) : MoveStep w m (w.move m) := by
  cases m with
  | serve rank =>
      simp only [move, serve]
      cases hserve : w.registry.serve rank with
      | none => exact .idles
      | some served =>
          obtain ⟨r, change⟩ := served
          match change with
          | some (.removed peer reason) =>
              refine .serves hserve fun n hn => ⟨_, _, _, List.mem_singleton.1 hn⟩
          | some (.registered peer) =>
              have := @MoveStep.serves w rank r _ [] hserve fun _ hn => absurd hn List.not_mem_nil
              simpa [noted] using this
          | none =>
              have := @MoveStep.serves w rank r _ [] hserve fun _ hn => absurd hn List.not_mem_nil
              simpa [noted] using this
  | turn task =>
      simp only [move]
      cases hturn : w.turn task with
      | none => exact .idles
      | some w' =>
          obtain ⟨task, w₁, task', htask, hstep, rfl⟩ := taskStep_of_turn hturn
          exact .turns htask hstep
  | supply k d =>
      simp only [move, supply]
      cases w.connections[k]? with
      | none => exact .idles
      | some c => exact .outside (fun _ => Move.noConfusion) (outside_setInlet w k _)
  | wake k =>
      exact .outside (fun _ => Move.noConfusion) (outside_onTransport w k Peer.drifts_wake)
  | answer k a =>
      exact .outside (fun _ => Move.noConfusion) (outside_onTransport w k
        (f := fun t => { t with writes := t.writes ++ [a] })
        fun _ => Peer.drifts_of_outlet rfl rfl rfl rfl)
  | arrive server a =>
      simp only [move, arrive]
      split
      · next s hs => exact .arrives hs
      · exact .idles
  | shutdown =>
      exact .outside (fun _ => Move.noConfusion) (outside_of_eq rfl (fun _ => rfl) rfl rfl rfl)
  | elapse ms =>
      exact .outside (fun _ => Move.noConfusion) (outside_of_eq rfl id rfl rfl rfl)
  | stopRegistry => exact .stops
  | connect c => exact .connects h
  | spawn task => exact .spawns h
  | close k => exact .closes
  | fire k => exact .fires
  | request c =>
      simp only [move, request]
      split_ifs with hadmits
      · exact .requests hadmits h
      · exact .idles

/-- A turn that can be taken is taken. -/
theorem move_turn_of_some {t : TaskKey} (h : w.turn t = some w') : w.move (.turn t) = w' := by
  rw [move, h, Option.getD_some]

/-- One that cannot be taken changes nothing. -/
theorem move_turn_of_none {t : TaskKey} (h : w.turn t = none) : w.move (.turn t) = w := by
  rw [move, h, Option.getD_none]

end World

/-! ## What becomes of one task -/

/-- What a server starts: a monitor, or the worker of a connection that
was not there. -/
def World.Hires (w : World) : Task → Prop
  | .monitor _ => True
  | .worker wk => w.peer? wk.peer = none
  | _ => False

/-- A step of a task leaves the other tasks alone; a server may start one. -/
theorem TaskStep.tasks {w w' : World} {me : TaskKey} {task task' : Task}
    (h : TaskStep w me task w' task') :
    w'.tasks = w.tasks ∨ ∃ new, w'.tasks = w.tasks ++ [new] ∧ w'.Begins new ∧ w.Hires new := by
  have hclose : ∀ (w : World) (k : PeerKey), (w.closePeer k).1.tasks = w.tasks := by
    intro w k
    rw [World.closePeer_eq]
    exact (World.onPeer_frame w k _).2.1
  have hbroadcast : ∀ {b b' : Broadcast} {w'}, BroadcastStep w me b w' b' → w'.tasks = w.tasks := by
    intro b b' w' hstep
    cases hstep with
    | fails _ _ _ => exact hclose _ _
    | asks _ _ | skips _ _ | learns _ _ | misses _ _ | sends _ _ _ _ | settles _ _ _ _
    | prunes _ _ | pruned _ _ => rfl
  cases h with
  | send _ _ | awaited _ _ => exact .inl rfl
  | broadcast hstep => exact .inl (hbroadcast hstep)
  | worker _ hstep =>
      refine .inl ?_
      cases hstep with
      | relays _ hstep => exact hbroadcast hstep
      | drops _ _ => exact hclose _ _
      | leaves _ _ => exact hclose _ _
      | registers _ _ | starts _ _ | quits _ _ | reads _ _ _ _ | stops _ _ _ _ _ | pauses _ _ _ _
      | unregisters _ _ => rfl
  | monitor hstep => cases hstep <;> exact .inl rfl
  | server hstep =>
      cases hstep with
      | starts _ => exact .inr ⟨_, rfl, trivial, trivial⟩
      | accepts _ _ _ =>
          refine .inr ⟨_, rfl, ?_, ?_⟩
          · simp [World.Begins, World.peer?_connect, World.newWorker]
          · simp [World.Hires, World.peer?, World.newWorker]
      | ends _ _ | misses _ _ _ | joins _ _ => exact .inl rfl

/-- After its turn a task stands where its step has taken it. -/
theorem TaskStep.setTask_self {w w' : World} {me : TaskKey} {task task' : Task}
    (h : TaskStep w me task w' task') (htask : w.tasks[me]? = some task) :
    (w'.setTask me task').tasks[me]? = some task' := by
  rw [World.tasks_setTask, if_pos rfl]
  rcases h.tasks with htasks | ⟨new, htasks, -, -⟩
  · rw [htasks, htask]
    rfl
  · rw [htasks, List.getElem?_append_left (List.getElem?_eq_some_iff.1 htask).1, htask]
    rfl

/-- What a move does to the task with the key `t`. -/
inductive TaskChange (w : World) (m : Move) (w' : World) (t : TaskKey) : Prop
  | stays : (m = .turn t → w' = w) → w'.tasks[t]? = w.tasks[t]? → TaskChange w m w' t
  | turns {task task' : Task} {w₁ : World} : m = .turn t → w.tasks[t]? = some task →
      TaskStep w t task w₁ task' → w' = w₁.setTask t task' → w'.tasks[t]? = some task' →
      TaskChange w m w' t
  | arrives {s : Server} {a : Arrival} : m = .arrive t a → w.tasks[t]? = some (.server s) →
      w'.tasks[t]? = some (.server { s with arrivals := s.arrivals ++ [a] }) → TaskChange w m w' t
  | comes {task : Task} : w.tasks[t]? = none → w'.tasks[t]? = some task → w'.Begins task →
      m = .spawn task ∨ w.Hires task → TaskChange w m w' t

theorem taskChange_spawn {w w' : World} {m : Move} {new : Task} (t : TaskKey) (hm : m ≠ .turn t)
    (htasks : w'.tasks = w.tasks ++ [new]) (hnew : w'.Begins new)
    (hby : m = .spawn new ∨ w.Hires new) : TaskChange w m w' t := by
  rcases Nat.lt_trichotomy t w.tasks.length with h | rfl | h
  · exact .stays (absurd · hm) (by rw [htasks, List.getElem?_append_left h])
  · exact .comes (List.getElem?_eq_none (Nat.le_refl _)) (by simp [htasks]) hnew hby
  · refine .stays (absurd · hm) ?_
    rw [htasks, List.getElem?_eq_none h.le, List.getElem?_eq_none (by simpa using h)]

theorem MoveStep.task {w w' : World} {m : Move} (h : MoveStep w m w') (t : TaskKey) :
    TaskChange w m w' t := by
  cases h with
  | idles => exact .stays (fun _ => rfl) rfl
  | serves _ _ | connects _ | requests _ _ | stops => exact .stays Move.noConfusion rfl
  | @turns me task task' w₁ htask hstep =>
      rcases eq_or_ne t me with rfl | hne
      · exact .turns rfl htask hstep rfl (hstep.setTask_self htask)
      · have hm : Move.turn me ≠ .turn t := fun e => hne (Move.turn.inj e).symm
        have hother : (w₁.setTask me task').tasks[t]? = w₁.tasks[t]? := by
          rw [World.tasks_setTask, if_neg hne]
        rcases hstep.tasks with htasks | ⟨new, htasks, hnew, hhires⟩
        · exact .stays (absurd · hm) (by rw [hother, htasks])
        · cases taskChange_spawn t hm htasks hnew (.inr hhires) with
          | stays _ h => exact .stays (absurd · hm) (hother.trans h)
          | comes h h' hbegins hby => exact .comes h (hother.trans h') hbegins hby
          | turns h _ _ _ _ => exact absurd h hm
          | arrives h _ _ => cases h
  | outside hm h => exact .stays (absurd · (hm t)) (by rw [h.tasks])
  | @arrives server a s hs =>
      rcases eq_or_ne t server with rfl | hne
      · exact .arrives rfl hs (by rw [World.tasks_setTask, if_pos rfl, hs]; rfl)
      · exact .stays Move.noConfusion (by rw [World.tasks_setTask, if_neg hne])
  | @closes k =>
      exact .stays Move.noConfusion (by rw [World.closePeer_eq, (World.onPeer_frame w k _).2.1])
  | @fires k => exact .stays Move.noConfusion (by rw [(World.onPeer_frame w k _).2.1])
  | @spawns task hbegins =>
      refine taskChange_spawn t Move.noConfusion rfl ?_ (.inl rfl)
      match task with
      | .send _ _ | .awaitClose _ _ | .monitor ⟨_, .sleeping _⟩ | .broadcast _ | .worker _
      | .server _ => exact hbegins

/-- What a task becomes with a move. -/
inductive TaskBecomes (w : World) (m : Move) (w' : World) (t : TaskKey) : Task → Prop
  | stays {task : Task} : (m = .turn t → w' = w) → w'.tasks[t]? = some task →
      TaskBecomes w m w' t task
  | turns {task task' : Task} {w₁ : World} : m = .turn t → TaskStep w t task w₁ task' →
      w' = w₁.setTask t task' → w'.tasks[t]? = some task' → TaskBecomes w m w' t task
  | arrives {s : Server} {a : Arrival} : m = .arrive t a →
      w'.tasks[t]? = some (.server { s with arrivals := s.arrivals ++ [a] }) →
      TaskBecomes w m w' t (.server s)

/-- What a task has been before a move. -/
inductive TaskWas (w : World) (m : Move) (w' : World) (t : TaskKey) : Task → Prop
  | stays {task : Task} : (m = .turn t → w' = w) → w.tasks[t]? = some task → TaskWas w m w' t task
  | turns {task task' : Task} {w₁ : World} : m = .turn t → w.tasks[t]? = some task →
      TaskStep w t task w₁ task' → w' = w₁.setTask t task' → TaskWas w m w' t task'
  | arrives {s : Server} {a : Arrival} : m = .arrive t a → w.tasks[t]? = some (.server s) →
      TaskWas w m w' t (.server { s with arrivals := s.arrivals ++ [a] })
  | begins {task : Task} : w.tasks[t]? = none → w'.Begins task → m = .spawn task ∨ w.Hires task →
      TaskWas w m w' t task

section

variable {w w' : World} {m : Move} {t : TaskKey} (h : MoveStep w m w')
include h

theorem MoveStep.becomes {task : Task} (ht : w.tasks[t]? = some task) :
    TaskBecomes w m w' t task := by
  cases h.task t with
  | stays hidle htask => exact .stays hidle (htask.trans ht)
  | turns hm htask hstep hw' ht' =>
      cases htask.symm.trans ht
      exact .turns hm hstep hw' ht'
  | arrives hm htask ht' =>
      cases htask.symm.trans ht
      exact .arrives hm ht'
  | comes hnone _ _ _ => cases hnone.symm.trans ht

theorem MoveStep.was {task' : Task} (ht' : w'.tasks[t]? = some task') :
    TaskWas w m w' t task' := by
  cases h.task t with
  | stays hidle htask => exact .stays hidle (htask ▸ ht')
  | turns hm ht hstep hw' htask' =>
      cases htask'.symm.trans ht'
      exact .turns hm ht hstep hw'
  | arrives hm ht htask' =>
      cases htask'.symm.trans ht'
      exact .arrives hm ht
  | comes hnone htask' hbegins hby =>
      cases htask'.symm.trans ht'
      exact .begins hnone hbegins hby

/-- A worker remains one, with whatever its own steps preserve. -/
theorem MoveStep.worker_keeps {P : Worker → Prop} {wk : Worker}
    (ht : w.tasks[t]? = some (.worker wk)) (hP : P wk)
    (hsteps : ∀ {c w₁ wk'}, WorkerStep w t wk c w₁ wk' → P wk') :
    ∃ wk', w'.tasks[t]? = some (.worker wk') ∧ P wk' := by
  cases h.becomes ht with
  | stays _ ht' => exact ⟨wk, ht', hP⟩
  | turns _ hstep _ ht' =>
      cases hstep with
      | worker _ hstep => exact ⟨_, ht', hsteps hstep⟩

end

/-- A task that begins makes no broadcast but one that begins. -/
theorem World.Begins.broadcast? {w : World} {task : Task} {b : Broadcast} (h : w.Begins task)
    (hb : task.broadcast? = some b) : b = .begin b.serial b.sender b.line := by
  cases task with
  | broadcast b' =>
      cases hb
      exact h
  | worker wk =>
      obtain ⟨p, -, hwk⟩ := Option.map_eq_some_iff.1 h
      rw [← hwk] at hb
      cases hb
  | send _ _ | awaitClose _ _ | monitor _ | server _ => cases hb

/-- What a move does to the broadcast of the task `t`, seen from after it. -/
inductive BroadcastChange (w : World) (m : Move) (w' : World) (t : TaskKey) (b' : Broadcast) : Prop
  | stays : (m = .turn t → w' = w) → w.broadcast? t = some b' → BroadcastChange w m w' t b'
  | begins : b' = .begin b'.serial b'.sender b'.line → BroadcastChange w m w' t b'
  | steps {b : Broadcast} {w₁ : World} {task' : Task} : m = .turn t → w.broadcast? t = some b →
      BroadcastStep w t b w₁ b' → w' = w₁.setTask t task' → BroadcastChange w m w' t b'

theorem MoveStep.broadcast {w w' : World} {m : Move} (h : MoveStep w m w') {t : TaskKey}
    {b' : Broadcast} (hb : w'.broadcast? t = some b') : BroadcastChange w m w' t b' := by
  cases h.task t with
  | stays hidle htask => exact .stays hidle (by rwa [World.broadcast?, ← htask])
  | arrives _ _ htask' =>
      rw [World.broadcast?, htask'] at hb
      cases hb
  | comes _ htask' hbegins _ =>
      rw [World.broadcast?, htask'] at hb
      exact .begins (hbegins.broadcast? hb)
  | turns hm htask hstep hw' htask' =>
      rw [World.broadcast?, htask'] at hb
      rcases hstep.relaying with ⟨-, hbegins⟩ | ⟨b, b'', hbefore, hstep, hafter | ⟨-, hafter⟩⟩
      · exact .begins (hbegins b' hb)
      · cases hafter.symm.trans hb
        exact .steps hm (by rw [World.broadcast?, htask]; exact hbefore) hstep hw'
      · cases hafter.symm.trans hb

namespace World

variable {w w' : World}

/-! ## Runs -/

theorem run_append (w : World) (moves moves' : List Move) :
    w.run (moves ++ moves') = (w.run moves).run moves' := List.foldl_append

theorem run_concat (w : World) (moves : List Move) (m : Move) :
    w.run (moves ++ [m]) = (w.run moves).move m := by
  rw [run_append]
  rfl

theorem Permitted.of_append {moves moves' : List Move} (h : w.Permitted (moves ++ moves')) :
    w.Permitted moves := by
  induction moves generalizing w with
  | nil => trivial
  | cons m moves ih => exact ⟨h.1, ih h.2⟩

theorem Permitted.take {moves : List Move} (h : w.Permitted moves) (n : Nat) :
    w.Permitted (moves.take n) := by
  rw [← List.take_append_drop n moves] at h
  exact h.of_append

theorem permitted_concat {moves : List Move} {m : Move} :
    w.Permitted (moves ++ [m]) ↔ w.Permitted moves ∧ (w.run moves).Permits m := by
  induction moves generalizing w with
  | nil => simp [Permitted, run]
  | cons m' moves ih =>
      simp only [List.cons_append, Permitted, ih, and_assoc]
      rfl

/-- The world of a run after its first `n` moves. -/
def after (w : World) (moves : List Move) (n : Nat) : World := w.run (moves.take n)

@[simp] theorem after_length (w : World) (moves : List Move) :
    w.after moves moves.length = w.run moves := by
  rw [after, List.take_length]

theorem after_of_length_le (w : World) {moves : List Move} {n : Nat} (h : moves.length ≤ n) :
    w.after moves n = w.run moves := by
  rw [after, List.take_of_length_le h]

/-- Moves to come do not change what was. -/
theorem after_append (w : World) {moves : List Move} (more : List Move) {n : Nat}
    (h : n ≤ moves.length) : w.after (moves ++ more) n = w.after moves n := by
  rw [after, after, List.take_append_of_le_length h]

theorem after_concat (w : World) (moves : List Move) (m : Move) :
    w.after (moves ++ [m]) moves.length = w.run moves := by
  rw [after_append w [m] (Nat.le_refl _), after_length]

theorem after_concat_succ (w : World) (moves : List Move) (m : Move) :
    w.after (moves ++ [m]) (moves.length + 1) = w.run (moves ++ [m]) :=
  w.after_of_length_le (by simp)

theorem after_succ (w : World) {moves : List Move} {n : Nat} {m : Move}
    (h : moves[n]? = some m) : w.after moves (n + 1) = (w.after moves n).move m := by
  rw [after, after, List.take_add_one, h, Option.toList_some, run_concat]

/-- A move of a run is one before the last, or the last. -/
theorem move_concat_cases (w : World) {moves : List Move} {m m' : Move} {n : Nat}
    (h : (moves ++ [m])[n]? = some m') :
    moves[n]? = some m' ∧ w.after (moves ++ [m]) n = w.after moves n
      ∨ n = moves.length ∧ m' = m ∧ w.after (moves ++ [m]) n = w.run moves := by
  have hn := (List.getElem?_eq_some_iff.1 h).1
  rw [List.length_append, List.length_singleton] at hn
  rcases Nat.lt_succ_iff_lt_or_eq.1 hn with hn | rfl
  · rw [List.getElem?_append_left hn] at h
    exact .inl ⟨h, after_append w [m] hn.le⟩
  · rw [List.getElem?_concat_length] at h
    exact .inr ⟨rfl, (Option.some.inj h).symm, after_concat w moves m⟩

/-- What has happened with some move of a run happened before the last one, or
with it. -/
theorem exists_move_concat {w : World} {moves : List Move} {m : Move} {P : World → Move → Prop} :
    (∃ n m', (moves ++ [m])[n]? = some m' ∧ P (w.after (moves ++ [m]) n) m')
      ↔ (∃ n m', moves[n]? = some m' ∧ P (w.after moves n) m') ∨ P (w.run moves) m := by
  constructor
  · rintro ⟨n, m', hm', hP⟩
    rcases move_concat_cases w hm' with ⟨hm', hbefore⟩ | ⟨-, rfl, hlast⟩
    · exact .inl ⟨n, m', hm', hbefore ▸ hP⟩
    · exact .inr (hlast ▸ hP)
  · rintro (⟨n, m', hm', hP⟩ | hP)
    · have hn := (List.getElem?_eq_some_iff.1 hm').1
      exact ⟨n, m', (List.getElem?_append_left hn).trans hm', by rwa [after_append w [m] hn.le]⟩
    · exact ⟨moves.length, m, List.getElem?_concat_length, by rwa [after_concat]⟩

/-- What relates the worlds before and after each move of a run relates two
moments of it. -/
theorem after_extends {R : World → World → Prop} (refl : ∀ w, R w w)
    (trans : ∀ {w₁ w₂ w₃}, R w₁ w₂ → R w₂ w₃ → R w₁ w₃) {w : World} {moves : List Move}
    (step : ∀ {n m}, moves[n]? = some m → R (w.after moves n) (w.after moves (n + 1)))
    {i j : Nat} (h : i ≤ j) : R (w.after moves i) (w.after moves j) := by
  induction j, h using Nat.le_induction with
  | base => exact refl _
  | succ n _ ih =>
      cases hm : moves[n]? with
      | none =>
          have hlength := List.getElem?_eq_none_iff.1 hm
          rw [after_of_length_le w hlength] at ih
          rwa [after_of_length_le w (hlength.trans (Nat.le_succ n))]
      | some m => exact trans ih (step hm)

/-- A move of a permitted run is a permitted move. -/
theorem Permitted.moveStep {moves : List Move} (h : w.Permitted moves) {n : Nat} {m : Move}
    (hm : moves[n]? = some m) : MoveStep (w.after moves n) m (w.after moves (n + 1)) := by
  have hfront := h.take (n + 1)
  rw [List.take_add_one, hm, Option.toList_some] at hfront
  rw [after_succ w hm]
  exact moveStep_move (permitted_concat.1 hfront).2

/-- What holds at first and is kept by every permitted move holds after
every permitted run. -/
theorem run_induction {P : List Move → Prop} (nil : P [])
    (step : ∀ {moves m}, w.Permitted moves → P moves →
      MoveStep (w.run moves) m (w.run (moves ++ [m])) → P (moves ++ [m]))
    {moves : List Move} (h : w.Permitted moves) : P moves := by
  induction moves using List.reverseRecOn with
  | nil => exact nil
  | append_singleton moves m ih =>
      obtain ⟨hmoves, hm⟩ := permitted_concat.1 h
      refine step hmoves (ih hmoves) ?_
      rw [run_concat]
      exact moveStep_move hm

section Kinds

variable {K : Move → Prop} (hpermits : ∀ {m}, K m → ∀ w : World, w.Permits m)

include hpermits

/-- Moves of a kind that every world permits may be made one after the other. -/
theorem permitted_of_forall {moves : List Move} (h : ∀ m ∈ moves, K m) (w : World) :
    w.Permitted moves := by
  induction moves generalizing w with
  | nil => trivial
  | cons m moves ih =>
      obtain ⟨hm, hmoves⟩ := List.forall_mem_cons.1 h
      exact ⟨hpermits hm w, ih hmoves _⟩

/-- What holds at first and is kept by every move of the kind holds after every
run of such moves. -/
theorem forall_induction {P : List Move → Prop} (nil : P [])
    (step : ∀ {moves m}, (∀ m ∈ moves, K m) → K m → P moves →
      MoveStep (w.run moves) m (w.run (moves ++ [m])) → P (moves ++ [m]))
    {moves : List Move} (h : ∀ m ∈ moves, K m) : P moves := by
  induction moves using List.reverseRecOn with
  | nil => exact nil
  | append_singleton moves m ih =>
      have hmoves : ∀ m ∈ moves, K m := fun m hm => h m (List.mem_append_left _ hm)
      have hm : K m := h m (by simp)
      refine step hmoves hm (ih hmoves) ?_
      rw [run_concat]
      exact moveStep_move (hpermits hm _)

end Kinds

/-- What relates the worlds before and after every permitted move relates
two worlds of a run. -/
theorem run_extends {R : World → World → Prop} (refl : ∀ w, R w w)
    (trans : ∀ {w₁ w₂ w₃}, R w₁ w₂ → R w₂ w₃ → R w₁ w₃)
    (step : ∀ {w₁ m w₂}, MoveStep w₁ m w₂ → R w₁ w₂) {pre post : List Move}
    (h : w.Permitted (pre ++ post)) : R (w.run pre) (w.run (pre ++ post)) := by
  induction post using List.reverseRecOn with
  | nil => rw [List.append_nil]; exact refl _
  | append_singleton post m ih =>
      rw [← List.append_assoc] at h ⊢
      obtain ⟨hmoves, hm⟩ := permitted_concat.1 h
      rw [run_concat]
      exact trans (ih hmoves) (step (moveStep_move hm))

end World

end LineRelay
