/-
# Who waits for an outlet, and who has it

A send that waits for the outlet of a peer, or has it, is a matter of two
places: the task that makes the send says so, and so does the queue of
the peer.  `Locks` says that the two agree in every world that a permitted
run reaches: the queue of a peer lists the tasks at its outlet, each of
them once, and one that writes is the first.

`PeersChange` is what a move means for outlets: at most one task takes a
turn of a send, and peers may close.
-/
import LineRelay.Proofs.Relay.Moves

namespace LineRelay

/-! ## At an outlet -/

/-- The send that a broadcast is at. -/
def Broadcast.send? (b : Broadcast) : Option (PeerKey × SendState) :=
  match b.stage with
  | .sending k state _ => some (k, state)
  | _ => none

/-- The send that a task is at. -/
def Task.send? : Task → Option (PeerKey × SendState)
  | .send k state => some (k, state)
  | task => task.broadcast?.bind Broadcast.send?

/-- The send that the task with a key is at. -/
def World.send? (w : World) (t : TaskKey) : Option (PeerKey × SendState) :=
  w.tasks[t]?.bind Task.send?

/-- The peer at whose outlet a send to `k` is, and how it stands there. -/
def SendState.at? (k : PeerKey) (state : SendState) : Option (PeerKey × SendState) :=
  if state.waits then some (k, state) else none

/-- The outlet at which a broadcast is. -/
def Broadcast.at? (b : Broadcast) : Option (PeerKey × SendState) :=
  match b.stage with
  | .sending k state _ => state.at? k
  | _ => none

/-- The outlet at which a task is. -/
def Task.at? : Task → Option (PeerKey × SendState)
  | .send k state => state.at? k
  | task => task.broadcast?.bind Broadcast.at?

/-- The outlet at which the task with a key is. -/
def World.at? (w : World) (t : TaskKey) : Option (PeerKey × SendState) := w.tasks[t]?.bind Task.at?

@[simp] theorem SendState.at?_eq_some {k j : PeerKey} {state state' : SendState} :
    state.at? k = some (j, state') ↔ state.waits = true ∧ k = j ∧ state = state' := by
  unfold SendState.at?
  split_ifs with h <;> simp [h]

theorem SendState.at?_eq_none {k : PeerKey} {state : SendState} :
    state.at? k = none ↔ state.waits = false := by
  unfold SendState.at?
  split_ifs with h <;> simp [h]

/-- A task that makes a broadcast is where the broadcast is. -/
theorem World.at?_of_broadcast? {w : World} {t : TaskKey} {b : Broadcast}
    (h : w.broadcast? t = some b) : w.at? t = b.at? := by
  unfold World.broadcast? at h
  unfold World.at?
  cases htask : w.tasks[t]? with
  | none => simp [htask] at h
  | some task =>
      simp only [htask, Option.bind_some] at h ⊢
      match task with
      | .broadcast b' | .worker wk => simp only [Task.at?, h, Option.bind_some]

theorem Broadcast.at?_eq (b : Broadcast) : b.at? = b.send?.bind fun x => x.2.at? x.1 := by
  cases hstage : b.stage <;> simp [Broadcast.at?, Broadcast.send?, hstage]

/-- A task is at the outlet of the peer to which it sends, if it waits. -/
theorem World.at?_eq_some {w : World} {t : TaskKey} {k : PeerKey} {state : SendState} :
    w.at? t = some (k, state) ↔ w.send? t = some (k, state) ∧ state.waits = true := by
  have hat : ∀ task : Task, task.at? = task.send?.bind fun x => x.2.at? x.1 := by
    intro task
    have hbroadcast : task.broadcast?.bind Broadcast.at?
        = (task.broadcast?.bind Broadcast.send?).bind fun x => x.2.at? x.1 := by
      cases task.broadcast? with
      | none => rfl
      | some b => exact b.at?_eq
    match task with
    | .send _ _ => rfl
    | .broadcast _ | .worker _ | .awaitClose _ _ | .monitor _ | .server _ => exact hbroadcast
  rw [World.at?, World.send?, funext hat, ← Option.bind_assoc, Option.bind_eq_some_iff]
  constructor
  · rintro ⟨⟨j, state'⟩, hsend, hat⟩
    obtain ⟨hwaits, rfl, rfl⟩ := SendState.at?_eq_some.1 hat
    exact ⟨hsend, hwaits⟩
  · rintro ⟨hsend, hwaits⟩
    exact ⟨_, hsend, SendState.at?_eq_some.2 ⟨hwaits, rfl, rfl⟩⟩

theorem World.at?_of_send? {w : World} {t : TaskKey} {k : PeerKey} {state : SendState}
    (h : w.send? t = some (k, state)) : w.at? t = state.at? k := by
  unfold SendState.at?
  split_ifs with hwaits
  · exact World.at?_eq_some.2 ⟨h, hwaits⟩
  · refine Option.eq_none_iff_forall_ne_some.2 ?_
    rintro ⟨j, state'⟩ hat
    obtain ⟨h', hwaits'⟩ := World.at?_eq_some.1 hat
    cases h'.symm.trans h
    exact hwaits hwaits'

/-- A task that sends is a send, or makes a broadcast that sends. -/
theorem World.send?_eq_some {w : World} {t : TaskKey} {k : PeerKey} {state : SendState} :
    w.send? t = some (k, state) ↔ w.tasks[t]? = some (.send k state)
      ∨ ∃ b rest, w.broadcast? t = some b ∧ b.stage = .sending k state rest := by
  have hsend : ∀ b : Broadcast,
      b.send? = some (k, state) ↔ ∃ rest, b.stage = .sending k state rest := by
    intro b
    cases hstage : b.stage <;> simp [Broadcast.send?, hstage]
  unfold World.send? World.broadcast?
  cases w.tasks[t]? with
  | none => simp
  | some task =>
      match task with
      | .send _ _ => simp [Task.send?, Task.broadcast?]
      | .broadcast _ | .worker _ | .awaitClose _ _ | .monitor _ | .server _ =>
          simp [Task.send?, Option.bind_eq_some_iff, hsend]

theorem Broadcast.at?_sending {b : Broadcast} {k : PeerKey} {state : SendState}
    {rest : List PeerKey} (h : b.stage = .sending k state rest) : b.at? = state.at? k := by
  simp only [Broadcast.at?, h]

theorem Broadcast.at?_onward (b : Broadcast) (rest : List PeerKey) :
    (b.onward rest).at? = none := by
  cases rest <;> rfl

theorem World.Begins.at? {w : World} {task : Task} (h : w.Begins task) : task.at? = none := by
  have hbroadcast : task.broadcast?.bind Broadcast.at? = none := by
    cases hb : task.broadcast? with
    | none => rfl
    | some b =>
        rw [h.broadcast? hb]
        rfl
  match task with
  | .send _ (.fresh _) => rfl
  | .awaitClose _ _ | .monitor _ | .server _ => rfl
  | .broadcast _ | .worker _ => exact hbroadcast

/-! ## Traffic -/

/-- What a turn of the task `me`, which is at the send `sending`, means for
outlets, when it was at the outlet `held` before and is at the last one
after it. -/
inductive Traffic (w : World) (me : TaskKey) (sending : Option (PeerKey × SendState)) :
    Option (PeerKey × SendState) → World → Option (PeerKey × SendState) → Prop
  | calm {held : Option (PeerKey × SendState)} {w' : World} : w.PeersDrift w' →
      Traffic w me sending held w' held
  | misses {k : PeerKey} {state : SendState} {w' : World} : w.peer? k = none →
      w.PeersDrift w' → Traffic w me sending (state.at? k) w' none
  | acts {k : PeerKey} {p q : Peer} {state state' : SendState} {w' : World} :
      sending = some (k, state) → w.peer? k = some p → p.SendStep me w.shutdown state q state' →
      (w.setPeer k q).PeersDrift w' → Traffic w me sending (state.at? k) w' (state'.at? k)

theorem Traffic.drift {w w₁ w' : World} {me : TaskKey}
    {sending held held' : Option (PeerKey × SendState)} (h : Traffic w me sending held w₁ held')
    (hdrift : w₁.PeersDrift w') : Traffic w me sending held w' held' := by
  cases h with
  | calm h => exact .calm (h.trans hdrift)
  | misses hpeer h => exact .misses hpeer (h.trans hdrift)
  | acts hsending hpeer hstep h => exact .acts hsending hpeer hstep (h.trans hdrift)

theorem BroadcastStep.traffic {w w' : World} {me : TaskKey} {b b' : Broadcast}
    (h : BroadcastStep w me b w' b') : Traffic w me b.send? b.at? w' b'.at? := by
  cases h with
  | asks hstage _ | prunes hstage _ =>
      rw [show b.at? = none by simp [Broadcast.at?, hstage]]
      exact .calm (World.peersDrift_asked w _)
  | skips hstage _ =>
      rw [show b.at? = none by simp [Broadcast.at?, hstage]]
      exact .calm (World.peersDrift_noted w _)
  | learns hstage _ | pruned hstage _ =>
      rw [show b.at? = none by simp [Broadcast.at?, hstage], Broadcast.at?_onward]
      exact .calm (World.peersDrift_noted w _)
  | @misses k state rest hstage hpeer =>
      rw [Broadcast.at?_sending hstage, Broadcast.at?_onward]
      exact .misses hpeer (World.peersDrift_noted w _)
  | @sends k state state' rest p q hstage hpeer hstep _ =>
      rw [Broadcast.at?_sending hstage]
      exact .acts (by simp [Broadcast.send?, hstage]) hpeer hstep (.refl _)
  | @settles k state rest p q outcome hstage hpeer hstep _ =>
      rw [Broadcast.at?_sending hstage, Broadcast.at?_onward]
      exact .acts (by simp [Broadcast.send?, hstage]) hpeer hstep (World.peersDrift_noted _ _)
  | @fails k state rest p q f closedIt hstage hpeer hstep =>
      rw [Broadcast.at?_sending hstage]
      exact .acts (by simp [Broadcast.send?, hstage]) hpeer hstep
        ((World.peersDrift_noted _ _).trans (World.peersDrift_closePeer _ _))

/-- After a turn of its broadcast, a worker is where the broadcast is. -/
theorem Task.at?_relayed (wk : Worker) (b : Broadcast) :
    (Task.worker { wk with stage := if b.isOver then .reading else .relaying b }).at? = b.at? := by
  cases hover : b.isOver with
  | true =>
      have hstage : b.stage = .finished := by simpa [Broadcast.isOver] using hover
      simp [Task.at?, Task.broadcast?, Broadcast.at?, hstage]
  | false => simp [Task.at?, Task.broadcast?]

theorem WorkerStep.traffic {w w' : World} {me : TaskKey} {wk wk' : Worker} {c : Connection}
    (h : WorkerStep w me wk c w' wk') :
    Traffic w me (Task.worker wk).send? (Task.worker wk).at? w' (Task.worker wk').at? := by
  cases h with
  | registers hstage _ | unregisters hstage _ =>
      rw [show (Task.worker wk).at? = none by simp [Task.at?, Task.broadcast?, hstage]]
      exact .calm (World.peersDrift_asked w _)
  | starts hstage _ | quits hstage _ =>
      rw [show (Task.worker wk).at? = none by simp [Task.at?, Task.broadcast?, hstage]]
      exact .calm (World.peersDrift_noted w _)
  | drops hstage _ =>
      rw [show (Task.worker wk).at? = none by simp [Task.at?, Task.broadcast?, hstage]]
      exact .calm ((World.peersDrift_noted w _).trans (World.peersDrift_closePeer _ _))
  | leaves hstage _ =>
      rw [show (Task.worker wk).at? = none by simp [Task.at?, Task.broadcast?, hstage]]
      exact .calm (World.peersDrift_closePeer w _)
  | reads hstage _ _ _ | stops hstage _ _ _ _ =>
      rw [show (Task.worker wk).at? = none by simp [Task.at?, Task.broadcast?, hstage]]
      exact .calm ((World.peersDrift_setInlet w _ _).trans (World.peersDrift_noted _ _))
  | @pauses reader inlet hstage _ _ _ =>
      have hnone : ∀ reader, (Task.worker { wk with reader }).at? = none := by
        intro reader
        simp [Task.at?, Task.broadcast?, hstage]
      rw [show (Task.worker wk).at? = none from hnone wk.reader, hnone]
      exact .calm (World.peersDrift_setInlet w _ _)
  | @relays b b' _ hstage hstep =>
      rw [show (Task.worker wk).at? = b.at? by simp [Task.at?, Task.broadcast?, hstage],
        Task.at?_relayed,
        show (Task.worker wk).send? = b.send? by simp [Task.send?, Task.broadcast?, hstage]]
      exact hstep.traffic

theorem TaskStep.traffic {w w' : World} {me : TaskKey} {task task' : Task}
    (h : TaskStep w me task w' task') : Traffic w me task.send? task.at? w' task'.at? := by
  cases h with
  | send hpeer hstep => exact .acts rfl hpeer hstep (.refl _)
  | awaited _ _ => exact .calm (.refl w)
  | broadcast hstep => exact hstep.traffic
  | worker _ hstep => exact hstep.traffic
  | monitor hstep =>
      refine .calm ?_
      cases hstep with
      | stops _ _ | wakes _ _ _ => exact .refl w
      | asks _ _ => exact World.peersDrift_asked w _
      | samples _ _ => exact World.peersDrift_of_eq (fun _ => rfl) id
      | ends _ _ => exact World.peersDrift_noted w _
  | server hstep =>
      refine .calm ?_
      cases hstep with
      | starts _ => exact World.peersDrift_of_eq (fun _ => rfl) id
      | ends _ _ | misses _ _ _ | joins _ _ => exact World.peersDrift_noted w _
      | accepts _ _ _ =>
          exact (World.peersDrift_connect w rfl).trans
            (World.peersDrift_of_eq (fun _ => rfl) id)

/-- What a move means for outlets.  Nobody takes a turn of a send; or a task
is done with a peer that there is not; or the task whose turn it is takes a
turn of its send. -/
inductive PeersChange (w : World) (m : Move) (w' : World) : Prop
  | drifts : w.PeersDrift w' → (∀ t, w'.at? t = w.at? t) → PeersChange w m w'
  | misses {me : TaskKey} {k : PeerKey} {state : SendState} : w.peer? k = none →
      w.PeersDrift w' → w.at? me = state.at? k → w'.at? me = none →
      (∀ t, t ≠ me → w'.at? t = w.at? t) → PeersChange w m w'
  | acts {me : TaskKey} {k : PeerKey} {p q : Peer} {state state' : SendState} : m = .turn me →
      w.send? me = some (k, state) → w.peer? k = some p → p.SendStep me w.shutdown state q state' →
      (w.setPeer k q).PeersDrift w' → w.at? me = state.at? k → w'.at? me = state'.at? k →
      (∀ t, t ≠ me → w'.at? t = w.at? t) → PeersChange w m w'

theorem MoveStep.at? {w w' : World} {m : Move} (h : MoveStep w m w') {t : TaskKey}
    (hm : m ≠ .turn t) : w'.at? t = w.at? t := by
  unfold World.at?
  cases h.task t with
  | stays _ htask => rw [htask]
  | turns hm' _ _ _ _ => exact absurd hm' hm
  | arrives _ htask htask' => rw [htask, htask']; rfl
  | comes htask htask' hbegins _ => rw [htask, htask']; exact hbegins.at?

theorem MoveStep.peers {w w' : World} {m : Move} (h : MoveStep w m w') : PeersChange w m w' := by
  have hsame : (∀ k, w'.peer? k = w.peer? k) → (w.shutdown = true → w'.shutdown = true) →
      w.PeersDrift w' := World.peersDrift_of_eq
  have hat : ∀ t, m ≠ .turn t → w'.at? t = w.at? t := fun t hm => h.at? hm
  cases h with
  | idles => exact .drifts (.refl w) fun _ => rfl
  | @turns me task task' w₁ htask hstep =>
      have hothers : ∀ t, t ≠ me → (w₁.setTask me task').at? t = w.at? t := fun t hne =>
        hat t fun e => hne (Move.turn.inj e).symm
      have hbefore : w.at? me = task.at? := by rw [World.at?, htask]; rfl
      have hafter : (w₁.setTask me task').at? me = task'.at? := by
        rw [World.at?, hstep.setTask_self htask]
        rfl
      have hsend : w.send? me = task.send? := by rw [World.send?, htask]; rfl
      have htraffic : Traffic w me task.send? task.at? (w₁.setTask me task') task'.at? :=
        hstep.traffic.drift (World.peersDrift_of_eq (fun _ => rfl) id)
      generalize task.at? = before at htraffic hbefore
      generalize task'.at? = after at htraffic hafter
      cases htraffic with
      | calm hdrift =>
          refine .drifts hdrift ?_
          intro t
          rcases eq_or_ne t me with rfl | hne
          · exact hafter.trans hbefore.symm
          · exact hothers t hne
      | misses hpeer hdrift => exact .misses hpeer hdrift hbefore hafter hothers
      | acts hsending hpeer hstep hdrift =>
          exact .acts rfl (hsend.trans hsending) hpeer hstep hdrift hbefore hafter hothers
  | outside _ h => exact .drifts h.drift fun t => by rw [World.at?, h.tasks]; rfl
  | closes => exact .drifts (World.peersDrift_closePeer w _) fun t => hat t Move.noConfusion
  | fires =>
      exact .drifts (World.peersDrift_onPeer w _ Peer.drifts_fire) fun t => hat t Move.noConfusion
  | connects hfree =>
      exact .drifts (World.peersDrift_connect w hfree) fun t => hat t Move.noConfusion
  | serves _ _ | arrives _ | spawns _ | requests _ _ | stops =>
      exact .drifts (hsame (fun _ => rfl) id) fun t => hat t Move.noConfusion

/-- What a move means for the outlet of the peer `k`, which was `p` before it
and is `q` after it: nobody takes a turn of a send to it, or the task whose
turn it is does. -/
inductive OutletChange (w : World) (m : Move) (w' : World) (k : PeerKey) (p q : Peer) : Prop
  | drifts : p.Drifts q →
      (∀ t state, w'.at? t = some (k, state) ↔ w.at? t = some (k, state)) →
      OutletChange w m w' k p q
  | acts {me : TaskKey} {r : Peer} {state state' : SendState} : m = .turn me →
      w.send? me = some (k, state) → p.SendStep me w.shutdown state r state' → r.Drifts q →
      w.at? me = state.at? k → w'.at? me = state'.at? k →
      (∀ t, t ≠ me → w'.at? t = w.at? t) → OutletChange w m w' k p q

theorem MoveStep.outlet {w w' : World} {m : Move} (h : MoveStep w m w') {k : PeerKey} {p q : Peer}
    (hp : w.peer? k = some p) (hq : w'.peer? k = some q) : OutletChange w m w' k p q := by
  have hkeeps : w.PeersDrift w' → p.Drifts q := by
    intro hdrift
    obtain ⟨q', hq', hdrifts⟩ := hdrift.keeps hp
    cases hq'.symm.trans hq
    exact hdrifts
  -- a task that is at another peer, before and after, is not at this one
  have hoff : ∀ {j : PeerKey} {state : SendState} (state' : SendState) {me : TaskKey}, j ≠ k →
      w.at? me = state.at? j → w'.at? me = none ∨ w'.at? me = state'.at? j →
      (∀ t, t ≠ me → w'.at? t = w.at? t) → ∀ t state,
        w'.at? t = some (k, state) ↔ w.at? t = some (k, state) := by
    intro j state state' me hj hbefore hafter hothers t state''
    rcases eq_or_ne t me with rfl | hne
    · rw [hbefore]
      rcases hafter with hafter | hafter <;> rw [hafter] <;> simp [hj]
    · rw [hothers t hne]
  cases h.peers with
  | drifts hdrift hat => exact .drifts (hkeeps hdrift) fun t state => by rw [hat]
  | @misses me j state hpeer hdrift hbefore hafter hothers =>
      refine .drifts (hkeeps hdrift) (hoff state ?_ hbefore (.inl hafter) hothers)
      rintro rfl
      cases hpeer.symm.trans hp
  | @acts me j r s state state' hturn hsending hpeer hsend hdrift hbefore hafter hothers =>
      rcases eq_or_ne j k with rfl | hj
      · cases hpeer.symm.trans hp
        obtain ⟨q', hq', hdrifts⟩ := hdrift.keeps (World.peer?_setPeer_self hpeer s)
        cases hq'.symm.trans hq
        exact .acts hturn hsending hsend hdrifts hbefore hafter hothers
      · obtain ⟨q', hq', hdrifts⟩ := hdrift.keeps
          (show (w.setPeer j s).peer? k = some p by rw [World.peer?_setPeer, if_neg hj.symm, hp])
        cases hq'.symm.trans hq
        exact .drifts hdrifts (hoff state' hj hbefore (.inr hafter) hothers)

/-! ## What lasts -/

theorem MoveStep.lasts {w w' : World} {m : Move} (h : MoveStep w m w') {k : PeerKey} {p : Peer}
    (hp : w.peer? k = some p) : ∃ q, w'.peer? k = some q ∧ p.Lasts q := by
  cases h.peers with
  | drifts hdrift _ | misses _ hdrift _ _ _ =>
      obtain ⟨q, hq, hdrifts⟩ := hdrift.keeps hp
      exact ⟨q, hq, hdrifts.toLasts⟩
  | @acts me j r s _ _ _ _ hpeer hsend hdrift _ _ _ =>
      obtain ⟨p', hp', hlasts⟩ : ∃ p', (w.setPeer j s).peer? k = some p' ∧ p.Lasts p' := by
        rw [World.peer?_setPeer, hpeer]
        split_ifs with hk
        · subst hk
          obtain rfl : r = p := Option.some.inj (hpeer.symm.trans hp)
          exact ⟨s, rfl, hsend.lasts⟩
        · exact ⟨p, hp, .refl p⟩
      obtain ⟨q, hq, hdrifts⟩ := hdrift.keeps hp'
      exact ⟨q, hq, hlasts.trans hdrifts.toLasts⟩

theorem MoveStep.shutdown {w w' : World} {m : Move} (h : MoveStep w m w')
    (hw : w.shutdown = true) : w'.shutdown = true := by
  cases h.peers with
  | drifts hdrift _ | misses _ hdrift _ _ _ | acts _ _ _ _ hdrift _ _ _ => exact hdrift.shutdown hw

/-- A peer lasts from one world of a run to a later one. -/
theorem World.lasts_run {w : World} {pre post : List Move} (h : w.Permitted (pre ++ post))
    {k : PeerKey} {p : Peer} (hp : (w.run pre).peer? k = some p) :
    ∃ q, (w.run (pre ++ post)).peer? k = some q ∧ p.Lasts q := by
  refine World.run_extends
    (R := fun w w' => ∀ {p}, w.peer? k = some p → ∃ q, w'.peer? k = some q ∧ p.Lasts q)
    (fun _ {p} hp => ⟨p, hp, .refl p⟩) (fun {w₁ w₂ w₃} h h' {p} hp => ?_)
    (fun hstep => hstep.lasts) h hp
  obtain ⟨q, hq, hlasts⟩ := h hp
  obtain ⟨r, hr, hlasts'⟩ := h' hq
  exact ⟨r, hr, hlasts.trans hlasts'⟩

/-- A peer that comes is in nobody's way. -/
theorem MoveStep.senders_of_comes {w w' : World} {m : Move} (h : MoveStep w m w') {k : PeerKey}
    {q : Peer} (hnone : w.peer? k = none) (hq : w'.peer? k = some q) : q.senders = [] := by
  cases h.peers with
  | drifts hdrift _ | misses _ hdrift _ _ _ => exact hdrift.comes hq hnone
  | @acts me j p r _ _ _ _ hpeer _ hdrift _ _ _ =>
      refine hdrift.comes hq ?_
      rw [World.peer?_setPeer, hnone]
      split_ifs with hk
      · rw [← hk, hnone]
        rfl
      · rfl

/-! ## Queues -/

/-- The queue of the peer `k` lists the tasks at its outlet. -/
structure Queued (place : TaskKey → Option (PeerKey × SendState)) (k : PeerKey) (p : Peer) :
    Prop where
  nodup : p.senders.Nodup
  mem_iff : ∀ t, t ∈ p.senders ↔ ∃ state, place t = some (k, state)
  first : ∀ {t : TaskKey} {stage : SendStage}, place t = some (k, .writing stage) →
    p.senders.head? = some t ∧ p.outlet.InOrder stage

theorem Outlet.InOrder.congr {o o' : Outlet} {stage : SendStage} (h : o.InOrder stage)
    (hbuffer : o'.buffer = o.buffer) : o'.InOrder stage := by
  cases stage with
  | passing _ | flushing => exact hbuffer.trans h
  | makingRoom _ | emptying => trivial

section Queued

variable {place place' : TaskKey → Option (PeerKey × SendState)} {k : PeerKey} {p q : Peer}
  {me : TaskKey} {shutdown : Bool} {state state' : SendState}

theorem Queued.drift (h : Queued place k p) (hdrift : p.Drifts q) : Queued place k q where
  nodup := hdrift.senders ▸ h.nodup
  mem_iff := fun t => hdrift.senders ▸ h.mem_iff t
  first := fun ht => ⟨hdrift.senders ▸ (h.first ht).1, (h.first ht).2.congr hdrift.buffer⟩

theorem Queued.congr (h : Queued place k p)
    (hplace : ∀ t state, place' t = some (k, state) ↔ place t = some (k, state)) :
    Queued place' k p where
  nodup := h.nodup
  mem_iff := fun t => by simp only [h.mem_iff t, hplace]
  first := fun ht => h.first ((hplace _ _).1 ht)

/-- A turn that neither gives up nor queues finds nobody else writing. -/
theorem Queued.alone (h : Queued place k p) (hstep : p.SendStep me shutdown state q state')
    (hbefore : place me = state.at? k) (hopen : state' ≠ .ended .closed)
    (hruns : ∀ wire, state' ≠ .queued wire) {t : TaskKey} {stage : SendStage}
    (ht : place t = some (k, .writing stage)) : t = me := by
  refine hstep.first hopen hruns ?_ (h.first ht).1
  rintro stage rfl
  exact (h.first hbefore).1

/-- A turn of the send of `me` to the peer keeps its queue in step. -/
theorem Queued.acts (h : Queued place k p) (hstep : p.SendStep me shutdown state q state')
    (hbefore : place me = state.at? k) (hafter : place' me = state'.at? k)
    (hothers : ∀ t, t ≠ me → place' t = place t) : Queued place' k q := by
  have hmem : me ∈ p.senders ↔ state.waits = true := by
    rw [h.mem_iff, hbefore]
    simp
  have hfirst : ∀ stage, state = .writing stage →
      p.senders.head? = some me ∧ p.outlet.InOrder stage := fun stage hstage =>
    h.first (by rw [hbefore, hstage]; rfl)
  rcases hstep.queue hfirst with ⟨rfl, hidle, hidle'⟩ | ⟨queue, hqueue, hend⟩
  · -- a refused send is at no outlet, before or after
    have hnone : place me = none := by rw [hbefore, SendState.at?_eq_none.2 hidle]
    have hnone' : place' me = none := by rw [hafter, SendState.at?_eq_none.2 hidle']
    refine h.congr ?_
    intro t state
    rcases eq_or_ne t me with rfl | hne
    · rw [hnone, hnone']
    · rw [hothers t hne]
  · have hnodup : queue.Nodup ∧ ∀ t, t ∈ queue ↔ t = me ∨ t ∈ p.senders := by
      rw [hqueue]
      split_ifs with hwaits
      · exact ⟨h.nodup, fun t => ⟨.inr, fun ht => ht.elim (fun e => e ▸ hmem.2 hwaits) id⟩⟩
      · have hnot : me ∉ p.senders := fun e => hwaits (hmem.1 e)
        refine ⟨List.nodup_append.2 ⟨h.nodup, by simp, fun a ha b hb => ?_⟩, fun t => by
          simp [or_comm]⟩
        rw [List.mem_singleton.1 hb]
        exact fun e => hnot (e ▸ ha)
    have hother : ∀ t, t ≠ me → (t ∈ queue ↔ ∃ state, place' t = some (k, state)) := by
      intro t hne
      rw [hnodup.2, hothers t hne, ← h.mem_iff]
      simp [hne]
    have hhead : ∀ t, p.senders.head? = some t → queue.head? = some t := by
      intro t ht
      rw [hqueue]
      split_ifs
      · exact ht
      · rw [List.head?_append, ht]
        rfl
    rcases hend with ⟨hwaits, hsenders, hqueued, hwriting⟩ | ⟨hover, hme, hsenders⟩
    · refine ⟨hsenders ▸ hnodup.1, ?_, ?_⟩
      · intro t
        rw [hsenders]
        rcases eq_or_ne t me with rfl | hne
        · simp [hnodup.2, hafter, hwaits]
        · exact hother t hne
      · intro t stage ht
        rw [hsenders]
        rcases eq_or_ne t me with rfl | hne
        · rw [hafter, SendState.at?_eq_some] at ht
          exact hwriting stage ht.2.2
        · -- the other one writes, so `me` is not the first and has only queued
          obtain ⟨ht, horder⟩ := h.first ((hothers t hne).symm.trans ht)
          refine ⟨hhead t ht, ?_⟩
          cases state' with
          | queued wire => exact horder.congr (by rw [hqueued wire rfl])
          | writing stage' =>
              have := (hwriting stage' rfl).1
              rw [hhead t ht] at this
              exact absurd (Option.some.inj this) hne
          | fresh _ | ended _ => cases hwaits
    · obtain ⟨rest, hrest⟩ : ∃ rest, queue = me :: rest := by
        cases hq : queue with
        | nil => simp [hq] at hme
        | cons a rest => exact ⟨rest, by rw [hq] at hme; rw [Option.some.inj hme]⟩
      have hme' : place' me = none := by rw [hafter, SendState.at?_eq_none.2 hover]
      rw [hrest, List.tail_cons] at hsenders
      have hrestNodup := List.nodup_cons.1 (hrest ▸ hnodup.1)
      refine ⟨hsenders ▸ hrestNodup.2, ?_, ?_⟩
      · intro t
        rw [hsenders]
        rcases eq_or_ne t me with rfl | hne
        · simp [hme', hrestNodup.1]
        · rw [← hother t hne, hrest]
          simp [hne]
      · intro t stage ht
        have hne : t ≠ me := by
          rintro rfl
          simp [hme'] at ht
        have := hhead t (h.first ((hothers t hne).symm.trans ht)).1
        rw [hme] at this
        exact absurd (Option.some.inj this).symm hne

end Queued

/-- In every world of a run, queues and tasks tell the same. -/
structure World.Locks (w : World) : Prop where
  known : ∀ {t : TaskKey} {k : PeerKey} {state : SendState}, w.at? t = some (k, state) →
    ∃ p, w.peer? k = some p
  queued : ∀ {k : PeerKey} {p : Peer}, w.peer? k = some p → Queued w.at? k p

namespace World

variable {w w' : World}

/-- Peers that drift keep their queues, if everyone is where he was. -/
theorem Locks.drift (h : w.Locks) (hdrift : w.PeersDrift w') (hat : ∀ t, w'.at? t = w.at? t) :
    w'.Locks where
  known := by
    intro t k state ht
    obtain ⟨p, hp⟩ := h.known ((hat t).symm.trans ht)
    obtain ⟨q, hq, -⟩ := hdrift.keeps hp
    exact ⟨q, hq⟩
  queued := by
    intro k q hq
    cases hp : w.peer? k with
    | some p =>
        obtain ⟨q', hq', hdrifts⟩ := hdrift.keeps hp
        obtain rfl : q' = q := Option.some.inj (hq'.symm.trans hq)
        exact ((h.queued hp).drift hdrifts).congr fun t state => by rw [hat]
    | none =>
        -- nobody can be at the outlet of a peer that has only come
        have hempty := hdrift.comes hq hp
        have hnobody : ∀ t state, w'.at? t ≠ some (k, state) := by
          intro t state ht
          obtain ⟨p, hp'⟩ := h.known ((hat t).symm.trans ht)
          simp [hp] at hp'
        refine ⟨hempty ▸ List.nodup_nil, ?_, ?_⟩
        · intro t
          simp [hempty, hnobody]
        · intro t stage ht
          exact absurd ht (hnobody t _)

theorem Locks.step {m : Move} (h : w.Locks) (hstep : MoveStep w m w') : w'.Locks := by
  cases hstep.peers with
  | drifts hdrift hat => exact h.drift hdrift hat
  | @misses me k state hpeer hdrift hbefore hafter hothers =>
      refine h.drift hdrift ?_
      intro t
      rcases eq_or_ne t me with rfl | hne
      · cases hat : w.at? t with
        | none => exact hafter
        | some place =>
            obtain ⟨j, state'⟩ := place
            have hk : k = j := (SendState.at?_eq_some.1 (hbefore.symm.trans hat)).2.1
            obtain ⟨p, hp⟩ := h.known hat
            simp [← hk, hpeer] at hp
      · exact hothers t hne
  | @acts me k p q state state' _ _ hpeer hsend hdrift hbefore hafter hothers =>
      -- the turn of the send comes first, and then what drifts
      let sent : World := { w.setPeer k q with tasks := w'.tasks }
      have hat : ∀ t, sent.at? t = w'.at? t := fun _ => rfl
      have hpeers : ∀ j, sent.peer? j = if j = k then some q else w.peer? j := by
        intro j
        show (w.setPeer k q).peer? j = _
        rw [peer?_setPeer, hpeer]
        rfl
      have hlocks : sent.Locks := by
        refine ⟨?_, ?_⟩
        · intro t j state₁ ht
          rw [hpeers]
          split_ifs with hj
          · exact ⟨q, rfl⟩
          · rcases eq_or_ne t me with rfl | hne
            · exact absurd (SendState.at?_eq_some.1 (hafter.symm.trans ht)).2.1.symm hj
            · exact h.known ((hothers t hne).symm.trans ht)
        · intro j r hr
          rw [hpeers] at hr
          split_ifs at hr with hj
          · cases hr
            exact hj ▸ (h.queued hpeer).acts hsend hbefore hafter hothers
          · refine (h.queued hr).congr ?_
            intro t state₁
            rcases eq_or_ne t me with rfl | hne
            · rw [hat, hafter, hbefore]
              simp [Ne.symm hj]
            · rw [hat, hothers t hne]
      have hsent : sent.PeersDrift (w.setPeer k q) := peersDrift_of_eq (fun _ => rfl) id
      exact hlocks.drift (hsent.trans hdrift) fun _ => rfl

/-- Nobody is at a peer that has just come. -/
theorem Locks.at?_of_comes (h : w'.Locks) {m : Move} (hstep : MoveStep w m w') {k : PeerKey}
    {q : Peer} (hnone : w.peer? k = none) (hq : w'.peer? k = some q) (t : TaskKey)
    (state : SendState) : w'.at? t ≠ some (k, state) := by
  intro hat
  have hmem := ((h.queued hq).mem_iff t).2 ⟨state, hat⟩
  rw [hstep.senders_of_comes hnone hq] at hmem
  cases hmem

/-- A turn of a send finds nothing to overtake. -/
theorem Locks.carried (h : w.Locks) {t : TaskKey} {k : PeerKey} {state state' : SendState}
    {p q : Peer} (hsend : w.send? t = some (k, state)) (hp : w.peer? k = some p)
    (hstep : p.SendStep t w.shutdown state q state') :
    Peer.Carried p q w.shutdown state state' := by
  refine hstep.carried ?_
  rintro stage rfl
  exact ((h.queued hp).first (at?_of_send? hsend)).2

/-- While a task writes, nobody else touches the bytes of its peer. -/
theorem Locks.undisturbed (h : w.Locks) {m : Move} (hstep : MoveStep w m w') {t : TaskKey}
    (hidle : m = .turn t → w' = w) {k : PeerKey} {p : Peer} {stage : SendStage}
    (hat : w.at? t = some (k, .writing stage)) (hp : w.peer? k = some p) :
    ∃ q, w'.peer? k = some q ∧ q.received = p.received ∧ q.outlet.buffer = p.outlet.buffer
      ∧ q.flushed = p.flushed := by
  by_cases hm : m = .turn t
  · rw [hidle hm]
    exact ⟨p, hp, rfl, rfl, rfl⟩
  cases hstep.peers with
  | drifts hdrift _ | misses _ hdrift _ _ _ =>
      obtain ⟨q, hq, hdrifts⟩ := hdrift.keeps hp
      exact ⟨q, hq, hdrifts.received, hdrifts.buffer, hdrifts.flushed⟩
  | @acts me j r s state state' hme _ hpeer hsend hdrift hbefore _ _ =>
      have hne : t ≠ me := fun e => hm (e ▸ hme)
      obtain ⟨p', hp', hsame⟩ : ∃ p', (w.setPeer j s).peer? k = some p'
          ∧ p'.outlet = p.outlet := by
        rw [peer?_setPeer, hpeer]
        split_ifs with hk
        · subst hk
          obtain rfl : r = p := Option.some.inj (hpeer.symm.trans hp)
          have hqueued := h.queued hp
          exact ⟨s, rfl, hsend.outlet_of_ne (hqueued.first hat).1 hne fun stage' hstage =>
            (hqueued.first (hbefore.trans (by rw [hstage]; rfl))).1⟩
        · exact ⟨p, hp, rfl⟩
      obtain ⟨q, hq, hdrifts⟩ := hdrift.keeps hp'
      refine ⟨q, hq, hdrifts.received.trans ?_, hdrifts.buffer.trans (by rw [hsame]),
        hdrifts.flushed.trans ?_⟩
      · rw [Peer.received, Peer.received, hsame]
      · rw [Peer.flushed, Peer.flushed, hsame]

/-- A move after which a send still writes changes nothing of what it has
brought the transport and has to go, and flushes nothing. -/
theorem Locks.keeps_toGo (h : w.Locks) {m : Move} (hstep : MoveStep w m w') {t : TaskKey}
    {k : PeerKey} {p : Peer} {state : SendState} {stage : SendStage}
    (hsend : w.send? t = some (k, state)) (hp : w.peer? k = some p)
    (hat' : w'.at? t = some (k, .writing stage)) :
    ∃ q, w'.peer? k = some q
      ∧ q.received ++ q.toGo (.writing stage) = p.received ++ p.toGo state
      ∧ q.flushed = p.flushed := by
  have hat := at?_of_send? hsend
  obtain ⟨q, hq, -⟩ := hstep.lasts hp
  -- a send that took no turn was at this stage before
  have hidle : w.at? t = some (k, .writing stage) → q.received = p.received →
      q.outlet.buffer = p.outlet.buffer → q.flushed = p.flushed →
      q.received ++ q.toGo (.writing stage) = p.received ++ p.toGo state
        ∧ q.flushed = p.flushed := by
    intro hbefore hreceived hbuffer hflushed
    obtain ⟨-, -, rfl⟩ := SendState.at?_eq_some.1 (hat.symm.trans hbefore)
    exact ⟨by rw [hreceived, Peer.toGo_congr hbuffer], hflushed⟩
  refine ⟨q, hq, ?_⟩
  cases hstep.outlet hp hq with
  | drifts hdrift hsame =>
      exact hidle ((hsame _ _).1 hat') hdrift.received hdrift.buffer hdrift.flushed
  | @acts me r state₁ state' hturn hsending hsendStep hdrift _ hafter hothers =>
      rcases eq_or_ne t me with rfl | hne
      · cases hsending.symm.trans hsend
        obtain ⟨-, -, rfl⟩ := SendState.at?_eq_some.1 (hafter.symm.trans hat')
        cases h.carried hsend hp hsendStep with
        | stalled _ hpart htogo hflushed =>
            refine ⟨?_, hdrift.flushed.trans hflushed⟩
            rw [hdrift.received, hpart, Peer.toGo_congr hdrift.buffer, List.append_assoc, ← htogo]
      · have hbefore := (hothers _ hne).symm.trans hat'
        have hmine : m = .turn t → w' = w := fun e =>
          absurd (Move.turn.inj (e.symm.trans hturn)) hne
        obtain ⟨q', hq', hreceived, hbuffer, hflushed⟩ := h.undisturbed hstep hmine hbefore hp
        cases hq'.symm.trans hq
        exact hidle hbefore hreceived hbuffer hflushed

theorem locks_run (h : w.Locks) {moves : List Move} (hmoves : w.Permitted moves) :
    (w.run moves).Locks :=
  run_induction (P := fun moves => (w.run moves).Locks) h (fun _ h hstep => h.step hstep) hmoves

end World

end LineRelay
