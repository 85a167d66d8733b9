/-
# Who still waits when nobody can go on

In a quiet world every request has been served or answered, so a task that
has more to do waits for an outlet.  It does not wait for one whose close
signal has fired: the first in the queue for it would give it up, and then
the next, so nobody is in that queue.  Whoever still holds a peer that has
closed therefore stands at another peer, one that is open and stalls.

| | |
| :-- | :-- |
| `StagesOpen` | a broadcast that is under way has more to do |
| `Quiet` | nobody can go on |
| `Stalls` | a peer is open, and its transport keeps the first sender waiting |
| `Quiet.exists_at` | a broadcast that is not over stands at a peer that stalls |
| `Quiet.exists_at_of_held` | so does whoever holds a peer that has closed |
-/
import LineRelay.Proofs.Relay.Surveys

namespace LineRelay

/-! ## What is under way has more to do -/

/-- No broadcast stands at a send that is over, and no worker relays what
is over. -/
structure World.StagesOpen (w : World) : Prop where
  sending : ∀ {t : TaskKey} {b : Broadcast}, w.broadcast? t = some b →
    ∀ k outcome rest, b.stage ≠ .sending k (.ended outcome) rest
  relaying : ∀ {t : TaskKey} {wk : Worker} {b : Broadcast}, w.tasks[t]? = some (.worker wk) →
    wk.stage = .relaying b → b.isOver = false

theorem Broadcast.onward_ne_ended (b : Broadcast) (rest rest' : List PeerKey) (k : PeerKey)
    (outcome : SendOutcome) : (b.onward rest).stage ≠ .sending k (.ended outcome) rest' := by
  cases rest with
  | nil => exact BroadcastStage.noConfusion
  | cons j rest =>
      intro h
      cases h

theorem BroadcastStep.ne_ended {w w' : World} {me : TaskKey} {b b' : Broadcast}
    (h : BroadcastStep w me b w' b') (k : PeerKey) (outcome : SendOutcome) (rest : List PeerKey) :
    b'.stage ≠ .sending k (.ended outcome) rest := by
  cases h with
  | asks _ _ | skips _ _ | fails _ _ _ | prunes _ _ => exact BroadcastStage.noConfusion
  | learns _ _ | misses _ _ | settles _ _ _ _ | pruned _ _ =>
      exact Broadcast.onward_ne_ended _ _ _ _ _
  | sends _ _ _ hopen =>
      intro h
      cases h
      exact hopen outcome rfl

namespace World

variable {w w' : World}

theorem StagesOpen.step {m : Move} (h : w.StagesOpen) (hstep : MoveStep w m w') :
    w'.StagesOpen where
  sending := by
    intro t b hb
    cases hstep.broadcast hb with
    | stays _ hb => exact h.sending hb
    | begins hb =>
        intro k outcome rest
        rw [hb]
        exact BroadcastStage.noConfusion
    | steps _ _ hturn _ => exact hturn.ne_ended
  relaying := by
    intro t wk b ht hstage
    cases hstep.was ht with
    | stays _ ht₀ => exact h.relaying ht₀ hstage
    | begins _ hbegins _ =>
        obtain ⟨p, -, hwk⟩ := Option.map_eq_some_iff.1 hbegins
        rw [← hwk] at hstage
        cases hstage
    | turns _ _ hturn _ =>
        cases hturn with
        | worker _ hworker =>
            cases hworker with
            | reads _ _ _ _ =>
                cases hstage
                rfl
            | relays _ _ =>
                simp only at hstage
                split_ifs at hstage with hover
                cases hstage
                exact Bool.eq_false_iff.2 hover
            | pauses hreading _ _ _ => cases hreading.symm.trans hstage
            | registers _ _ | starts _ _ | drops _ _ | quits _ _ | stops _ _ _ _ _
            | unregisters _ _ | leaves _ _ => cases hstage

theorem IsNew.stagesOpen (h : w.IsNew) : w.StagesOpen where
  sending := fun hb => by cases (h.broadcast? _).symm.trans hb
  relaying := by
    intro t wk b ht
    obtain ⟨s, hs⟩ := h.tasks ht
    cases hs

theorem stagesOpen_run (h : w.StagesOpen) {moves : List Move} (hmoves : w.Permitted moves) :
    (w.run moves).StagesOpen :=
  run_induction (P := fun moves => (w.run moves).StagesOpen) h (fun _ h hstep => h.step hstep)
    hmoves

/-! ## Nobody can go on -/

/-- The queue of the registry is empty, and no task can take a turn. -/
structure Quiet (w : World) : Prop where
  queue : w.registry.queue = []
  idle : ∀ {t : TaskKey} {task : Task}, w.tasks[t]? = some task → w.taskTurn t task = none

theorem quiet_of_isQuiet (h : w.isQuiet = true) : w.Quiet := by
  rw [isQuiet, Bool.and_eq_true, List.isEmpty_iff, List.all_eq_true] at h
  refine ⟨h.1, ?_⟩
  intro t task ht
  obtain ⟨hlt, -⟩ := List.getElem?_eq_some_iff.1 ht
  have hnone := h.2 t (List.mem_range.2 hlt)
  rw [turn, ht, Option.bind_some, Option.isNone_iff_eq_none, Option.map_eq_none_iff] at hnone
  exact hnone

/-- A request goes on while the queue is empty. -/
theorem exists_callTurn (hqueue : w.registry.queue = []) (call : Call) :
    ∃ next, w.callTurn call = some next := by
  cases call with
  | entering c =>
      have hadmits : w.registry.admits = true := by
        simp [Registry.admits, hqueue, Registry.queueSize]
      simp only [callTurn, hadmits, if_true]
      exact ⟨_, rfl⟩
  | waiting tk =>
      obtain ⟨answer, hanswer⟩ : ∃ answer, w.registry.answer? tk = some answer := by
        unfold Registry.answer?
        rw [hqueue]
        split
        · exact ⟨_, rfl⟩
        · exact ⟨_, rfl⟩
      simp only [callTurn, hanswer]
      exact ⟨_, rfl⟩

theorem exists_broadcastTurn (hqueue : w.registry.queue = []) {b : Broadcast}
    {x : Purpose × Call} (h : b.call? = some x) (me : TaskKey) :
    ∃ next, w.broadcastTurn me b = some next := by
  cases hstage : b.stage with
  | asking call | pruning _ call _ =>
      obtain ⟨next, hnext⟩ := exists_callTurn hqueue call
      simp only [broadcastTurn, hstage, hnext]
      exact ⟨_, rfl⟩
  | sending _ _ _ | finished => simp [Broadcast.call?, hstage] at h

/-- In a quiet world no request is open. -/
theorem Quiet.call? (h : w.Quiet) (hw : w.Requests) (t : TaskKey) : w.call? t = none := by
  refine Option.eq_none_iff_forall_ne_some.2 ?_
  intro x hx
  obtain ⟨task, ht, hcall⟩ := Option.bind_eq_some_iff.1 hx
  have hidle := h.idle ht
  match task with
  | .worker wk =>
      obtain ⟨p, hp⟩ := hw.workers ht
      obtain ⟨c, hc, -⟩ := Option.map_eq_some_iff.1 hp
      cases hstage : wk.stage with
      | registering call | leaving _ call =>
          obtain ⟨next, hnext⟩ := exists_callTurn h.queue call
          simp [taskTurn, workerTurn, hc, hstage, hnext] at hidle
      | relaying b =>
          simp only [Task.call?, hstage] at hcall
          obtain ⟨next, hnext⟩ := exists_broadcastTurn h.queue hcall t
          simp [taskTurn, workerTurn, hc, hstage, hnext] at hidle
      | reading | finished _ => simp [Task.call?, hstage] at hcall
  | .monitor mon =>
      cases hstage : mon.stage with
      | sampling call =>
          obtain ⟨next, hnext⟩ := exists_callTurn h.queue call
          simp [taskTurn, monitorTurn, hstage, hnext] at hidle
      | sleeping _ | finished => simp [Task.call?, hstage] at hcall
  | .broadcast b =>
      obtain ⟨next, hnext⟩ := exists_broadcastTurn h.queue hcall t
      simp [taskTurn, hnext] at hidle
  | .send _ _ | .awaitClose _ _ | .server _ => cases hcall

end World

/-! ## At an outlet -/

/-- A send that cannot go on, and is not over, is in the queue. -/
theorem Peer.waits_of_idle {p : Peer} {me : TaskKey} {shutdown : Bool} {state : SendState}
    (hopen : ∀ outcome, state ≠ .ended outcome) (h : p.sendTurn me shutdown state = none) :
    state.waits = true := by
  cases state with
  | fresh wire =>
      unfold sendTurn at h
      split_ifs at h
  | queued _ | writing _ => rfl
  | ended outcome => exact absurd rfl (hopen outcome)

/-- The first in the queue gives up when the close signal has fired. -/
theorem Peer.head?_ne_of_signalled {p : Peer} {me : TaskKey} {shutdown : Bool} {state : SendState}
    (hsignalled : p.signalled shutdown = true) (hwaits : state.waits = true)
    (h : p.sendTurn me shutdown state = none) : p.senders.head? ≠ some me := by
  cases state with
  | queued wire =>
      intro hhead
      simp [sendTurn, hhead, hsignalled] at h
  | writing stage => simp [sendTurn, hsignalled] at h
  | fresh _ | ended _ => cases hwaits

/-- The peer is open, and the one that has its outlet waits for its
transport. -/
def World.Stalls (w : World) (k : PeerKey) : Prop :=
  ∃ p t stage, w.peer? k = some p ∧ p.signalled w.shutdown = false
    ∧ p.senders.head? = some t ∧ w.at? t = some (k, .writing stage) ∧ p.outlet.stalls stage = true

namespace World.Quiet

variable {w : World} {t : TaskKey} {k : PeerKey} {p : Peer} {b : Broadcast} {state : SendState}

theorem broadcastTurn (h : w.Quiet) (hw : w.Requests) (hb : w.broadcast? t = some b) :
    w.broadcastTurn t b = none := by
  rcases broadcast?_eq_some.1 hb with ht | ⟨wk, ht, hstage⟩
  · simpa [taskTurn] using h.idle ht
  · obtain ⟨p, hp⟩ := hw.workers ht
    obtain ⟨c, hc, -⟩ := Option.map_eq_some_iff.1 hp
    simpa [taskTurn, workerTurn, hc, hstage] using h.idle ht

/-- No send can go on. -/
theorem sendTurn (h : w.Quiet) (hw : w.Requests) (hsend : w.send? t = some (k, state))
    (hp : w.peer? k = some p) : p.sendTurn t w.shutdown state = none := by
  rcases send?_eq_some.1 hsend with ht | ⟨b, rest, hb, hstage⟩
  · simpa [taskTurn, sendTaskTurn, hp] using h.idle ht
  · simpa [World.broadcastTurn, hstage, hp] using h.broadcastTurn hw hb

/-- Nobody is in the queue of a peer whose close signal has fired. -/
theorem senders_eq_nil (h : w.Quiet) (hw : w.Requests) (hlocks : w.Locks) (hp : w.peer? k = some p)
    (hsignalled : p.signalled w.shutdown = true) : p.senders = [] := by
  rw [← List.head?_eq_none_iff]
  refine Option.eq_none_iff_forall_ne_some.2 ?_
  intro first hfirst
  obtain ⟨state, hat⟩ := ((hlocks.queued hp).mem_iff first).1 (List.mem_of_head? hfirst)
  obtain ⟨hsend, hwaits⟩ := at?_eq_some.1 hat
  exact Peer.head?_ne_of_signalled hsignalled hwaits (h.sendTurn hw hsend hp) hfirst

/-- Whoever waits for an outlet waits for that of an open peer. -/
theorem signalled_of_at? (h : w.Quiet) (hw : w.Requests) (hlocks : w.Locks)
    (hat : w.at? t = some (k, state)) (hp : w.peer? k = some p) :
    p.signalled w.shutdown = false := by
  refine Bool.eq_false_iff.2 ?_
  intro hsignalled
  have hmem : t ∈ p.senders := ((hlocks.queued hp).mem_iff t).2 ⟨state, hat⟩
  rw [h.senders_eq_nil hw hlocks hp hsignalled] at hmem
  cases hmem

/-- Where someone waits for an outlet, the first in the queue waits for the
transport. -/
theorem stalls_of_at? (h : w.Quiet) (hw : w.Requests) (hlocks : w.Locks)
    (hat : w.at? t = some (k, state)) : w.Stalls k := by
  obtain ⟨p, hp⟩ := hlocks.known hat
  have hopen := h.signalled_of_at? hw hlocks hat hp
  have hmem : t ∈ p.senders := ((hlocks.queued hp).mem_iff t).2 ⟨state, hat⟩
  obtain ⟨first, hfirst⟩ : ∃ first, p.senders.head? = some first := by
    cases hsenders : p.senders with
    | nil => simp [hsenders] at hmem
    | cons first _ => exact ⟨first, rfl⟩
  obtain ⟨state', hat'⟩ := ((hlocks.queued hp).mem_iff first).1 (List.mem_of_head? hfirst)
  obtain ⟨hsend, hwaits⟩ := at?_eq_some.1 hat'
  have hidle := h.sendTurn hw hsend hp
  cases state' with
  | queued wire => simp [Peer.sendTurn, hfirst, hopen] at hidle
  | writing stage =>
      refine ⟨p, first, stage, hp, hopen, hfirst, hat', ?_⟩
      simpa [Peer.sendTurn, hopen] using hidle
  | fresh _ | ended _ => cases hwaits

/-- A broadcast that is not over stands at a peer that stalls. -/
theorem exists_at (h : w.Quiet) (hw : w.Requests) (hlocks : w.Locks) (hstages : w.StagesOpen)
    (hb : w.broadcast? t = some b) (hopen : b.isOver = false) :
    ∃ k state, w.at? t = some (k, state) ∧ w.Stalls k := by
  have hturn := h.broadcastTurn hw hb
  cases hstage : b.stage with
  | asking call =>
      obtain ⟨next, hnext⟩ := exists_broadcastTurn h.queue (Broadcast.call?_asking hstage) t
      cases hturn.symm.trans hnext
  | pruning k call rest =>
      obtain ⟨next, hnext⟩ := exists_broadcastTurn h.queue (Broadcast.call?_pruning hstage) t
      cases hturn.symm.trans hnext
  | finished => simp [Broadcast.isOver, hstage] at hopen
  | sending k state rest =>
      cases hp : w.peer? k with
      | none => simp [World.broadcastTurn, hstage, hp] at hturn
      | some p =>
          have hsend : w.send? t = some (k, state) := send?_eq_some.2 (.inr ⟨b, rest, hb, hstage⟩)
          have hwaits := Peer.waits_of_idle
            (fun outcome e => hstages.sending hb k outcome rest (e ▸ hstage))
            (h.sendTurn hw hsend hp)
          have hat := at?_eq_some.2 ⟨hsend, hwaits⟩
          exact ⟨k, state, hat, h.stalls_of_at? hw hlocks hat⟩

/-- A worker whose peer has closed has ended, or stands at one that stalls. -/
theorem finished_or_at (h : w.Quiet) (hw : w.Requests) (hlocks : w.Locks) (hstages : w.StagesOpen)
    {wk : Worker} (ht : w.tasks[t]? = some (.worker wk)) (hp : w.peer? wk.peer = some p)
    (hsignalled : p.signalled w.shutdown = true) :
    (∃ reason, wk.stage = .finished reason)
    ∨ ∃ j state, w.at? t = some (j, state) ∧ w.Stalls j := by
  have hcall := h.call? hw t
  rw [World.call?, ht, Option.bind_some] at hcall
  cases hstage : wk.stage with
  | finished reason => exact .inl ⟨reason, rfl⟩
  | relaying b =>
      exact .inr (h.exists_at hw hlocks hstages (broadcast?_eq_some.2 (.inr ⟨wk, ht, hstage⟩))
        (hstages.relaying ht hstage))
  | registering _ | leaving _ _ => simp [Task.call?, hstage] at hcall
  | reading =>
      obtain ⟨c, hc, rfl⟩ := Option.map_eq_some_iff.1 hp
      have hidle := h.idle ht
      simp only [taskTurn, workerTurn, hc, hstage, readTurn, hsignalled, if_true] at hidle
      split_ifs at hidle <;> cases hidle

/-- Whoever holds a peer whose close signal has fired stands at one that
stalls. -/
theorem exists_at_of_held (h : w.Quiet) (hw : w.Requests) (hlocks : w.Locks)
    (hstages : w.StagesOpen)
    (hp : w.peer? k = some p) (hsignalled : p.signalled w.shutdown = true) {task : Task}
    (ht : w.tasks[t]? = some task) (hheld : k ∈ w.heldByTask task) :
    ∃ j state, w.at? t = some (j, state) ∧ w.Stalls j := by
  match task with
  | .send j state =>
      obtain ⟨hj, hopen⟩ : k = j ∧ ∀ outcome, state ≠ .ended outcome := by
        cases state with
        | ended _ => cases hheld
        | fresh _ | queued _ | writing _ =>
            exact ⟨List.mem_singleton.1 hheld, fun _ => SendState.noConfusion⟩
      subst hj
      have hsend : w.send? t = some (k, state) := send?_eq_some.2 (.inl ht)
      have hwaits := Peer.waits_of_idle hopen (h.sendTurn hw hsend hp)
      have hat := at?_eq_some.2 ⟨hsend, hwaits⟩
      exact ⟨k, state, hat, h.stalls_of_at? hw hlocks hat⟩
  | .awaitClose j finished =>
      have hidle := h.idle ht
      cases finished with
      | true => cases hheld
      | false =>
          obtain rfl := List.mem_singleton.1 hheld
          simp [taskTurn, hp, hsignalled] at hidle
  | .broadcast b =>
      refine h.exists_at hw hlocks hstages (broadcast?_eq_some.2 (.inl ht)) ?_
      cases hstage : b.stage with
      | finished => simp [heldByTask, heldByBroadcast, hstage] at hheld
      | asking _ | sending _ _ _ | pruning _ _ _ => simp [Broadcast.isOver, hstage]
  | .worker wk =>
      cases hstage : wk.stage with
      | relaying b =>
          exact h.exists_at hw hlocks hstages (broadcast?_eq_some.2 (.inr ⟨wk, ht, hstage⟩))
            (hstages.relaying ht hstage)
      | finished _ => simp [heldByTask, hstage] at hheld
      | registering _ | reading | leaving _ _ =>
          obtain rfl : k = wk.peer := by simpa [heldByTask, hstage] using hheld
          rcases h.finished_or_at hw hlocks hstages ht hp hsignalled with ⟨reason, hover⟩ | hat
          · cases hstage.symm.trans hover
          · exact hat
  | .monitor _ | .server _ => cases hheld

end World.Quiet

end LineRelay
