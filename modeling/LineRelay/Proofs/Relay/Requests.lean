/-
# Who asks the registry for what

A task makes one request at a time.  `Purpose` says what it is for, and
that determines the command (`World.Means`).  A request enters the queue
once and is waited for under the ticket that it got there (`Calls`), so
in every world of a permitted run

| | |
| :-- | :-- |
| `entering` | a request about to enter is the command it should be |
| `waiting` | one that is waited for is held by the registry as that command |
| `names` | every peer is registered as what it is |

which `Requests` puts together.
-/
import LineRelay.Proofs.Relay.Outlets
import LineRelay.Proofs.Registry.Serving

namespace LineRelay

/-! ## Requests of tasks -/

/-- What a request of a task is for: to list all peers but the sender of a
line, to remove a peer that could not be written to, to register or to remove
the peer of a worker, or to count the peers. -/
inductive Purpose where
  | survey (sender : PeerId)
  | prune (k : PeerKey)
  | enrol (k : PeerKey)
  | retire (k : PeerKey) (reason : Reason)
  | count

/-- The command that serves a purpose. -/
inductive World.Means (w : World) : Purpose → Command → Prop
  | survey {sender : PeerId} : w.Means (.survey sender) (.snapshot (some sender))
  | prune {k : PeerKey} {p : Peer} : w.peer? k = some p →
      w.Means (.prune k) (.unregister p.info.id .writeFailed)
  | enrol {k : PeerKey} {p : Peer} : w.peer? k = some p →
      w.Means (.enrol k) (.register ⟨p.info, k⟩)
  | retire {k : PeerKey} {p : Peer} {reason : Reason} : w.peer? k = some p →
      w.Means (.retire k reason) (.unregister p.info.id reason)
  | count : w.Means .count .size

/-- The request that a broadcast makes. -/
def Broadcast.call? (b : Broadcast) : Option (Purpose × Call) :=
  match b.stage with
  | .asking call => some (.survey b.sender, call)
  | .pruning k call _ => some (.prune k, call)
  | _ => none

/-- The request that a task makes. -/
def Task.call? : Task → Option (Purpose × Call)
  | .worker wk =>
      match wk.stage with
      | .registering call => some (.enrol wk.peer, call)
      | .relaying b => b.call?
      | .leaving reason call => some (.retire wk.peer reason, call)
      | _ => none
  | .monitor m =>
      match m.stage with
      | .sampling call => some (.count, call)
      | _ => none
  | task => task.broadcast?.bind Broadcast.call?

/-- The request that the task with a key makes. -/
def World.call? (w : World) (t : TaskKey) : Option (Purpose × Call) :=
  w.tasks[t]?.bind Task.call?

theorem Broadcast.call?_onward (b : Broadcast) (rest : List PeerKey) :
    (b.onward rest).call? = none := by
  cases rest <;> rfl

theorem Broadcast.call?_asking {b : Broadcast} {call : Call} (h : b.stage = .asking call) :
    b.call? = some (.survey b.sender, call) := by
  simp only [Broadcast.call?, h]

theorem Broadcast.call?_pruning {b : Broadcast} {k : PeerKey} {call : Call} {rest : List PeerKey}
    (h : b.stage = .pruning k call rest) : b.call? = some (.prune k, call) := by
  simp only [Broadcast.call?, h]

theorem World.call?_registering {w : World} {t : TaskKey} {wk : Worker} {call : Call}
    (ht : w.tasks[t]? = some (.worker wk)) (hstage : wk.stage = .registering call) :
    w.call? t = some (.enrol wk.peer, call) := by
  simp [World.call?, ht, Task.call?, hstage]

theorem World.call?_leaving {w : World} {t : TaskKey} {wk : Worker} {reason : Reason} {call : Call}
    (ht : w.tasks[t]? = some (.worker wk)) (hstage : wk.stage = .leaving reason call) :
    w.call? t = some (.retire wk.peer reason, call) := by
  simp [World.call?, ht, Task.call?, hstage]

theorem World.Means.unique {w : World} {u : Purpose} {c c' : Command} (h : w.Means u c)
    (h' : w.Means u c') : c' = c := by
  cases h with
  | survey | count => cases h'; rfl
  | prune hp =>
      cases h' with
      | prune hp' => rw [Option.some.inj (hp.symm.trans hp')]
  | enrol hp =>
      cases h' with
      | enrol hp' => rw [Option.some.inj (hp.symm.trans hp')]
  | retire hp =>
      cases h' with
      | retire hp' => rw [Option.some.inj (hp.symm.trans hp')]

theorem World.Means.lasts {w w' : World} {u : Purpose} {c : Command} (h : w.Means u c)
    (hlasts : ∀ {k p}, w.peer? k = some p → ∃ q, w'.peer? k = some q ∧ p.Lasts q) :
    w'.Means u c := by
  cases h with
  | survey => exact .survey
  | count => exact .count
  | prune hp =>
      obtain ⟨q, hq, h⟩ := hlasts hp
      exact h.info ▸ .prune hq
  | enrol hp =>
      obtain ⟨q, hq, h⟩ := hlasts hp
      exact h.info ▸ .enrol hq
  | retire hp =>
      obtain ⟨q, hq, h⟩ := hlasts hp
      exact h.info ▸ .retire hq

/-- What a task that begins asks for is what it should be. -/
theorem World.Begins.call? {w : World} {task : Task} (h : w.Begins task) :
    task.call? = none ∨ ∃ u c, task.call? = some (u, .entering c) ∧ w.Means u c := by
  match task with
  | .send _ _ | .awaitClose _ _ | .monitor ⟨_, .sleeping _⟩ | .server _ => exact .inl rfl
  | .broadcast b =>
      have hb : b = .begin b.serial b.sender b.line := h
      refine .inr ⟨.survey b.sender, .snapshot (some b.sender), ?_, .survey⟩
      rw [hb]
      rfl
  | .worker wk =>
      obtain ⟨p, hp, hwk⟩ := Option.map_eq_some_iff.1 h
      refine .inr ⟨.enrol wk.peer, _, ?_, .enrol hp⟩
      rw [← hwk]
      rfl

/-! ## Steps of requests -/

/-- A task that was waiting for a reply has got it. -/
def World.Released (w : World) (call : Option (Purpose × Call)) : Prop :=
  ∀ u c, call = some (u, c) → ∃ tk answer, c = .waiting tk ∧ w.registry.answer? tk = some answer

/-- What has happened when a task that runs comes to a purpose. -/
def Purpose.Arises (w' : World) : Purpose → Prop
  | .prune k => ∃ p, w'.peer? k = some p ∧ p.closed = true
  | .enrol _ => False
  | .survey _ | .retire _ _ | .count => True

/-- What a turn of a task means for its request and for the registry. -/
inductive Calls (w : World) :
    Option (Purpose × Call) → World → Option (Purpose × Call) → Prop
  | stays {call : Option (Purpose × Call)} {w' : World} : w'.registry = w.registry →
      Calls w call w' call
  | begins {call : Option (Purpose × Call)} {u : Purpose} {c : Command} {w' : World} :
      w.Released call → w'.registry = w.registry → w.Means u c → u.Arises w' →
      Calls w call w' (some (u, .entering c))
  | ends {call : Option (Purpose × Call)} {w' : World} : w.Released call →
      w'.registry = w.registry → Calls w call w' none
  | enters {u : Purpose} {c : Command} {w' : World} : w.registry.admits = true →
      w'.registry = (w.registry.request c).1 →
      Calls w (some (u, .entering c)) w' (some (u, .waiting w.registry.nextTicket))

theorem World.released_none (w : World) : w.Released none := fun _ _ h => by cases h

theorem World.released_waiting {w : World} {u : Purpose} {tk : Ticket}
    {answer : Except RequestError Reply} (h : w.registry.answer? tk = some answer) :
    w.Released (some (u, .waiting tk)) := by
  intro _ _ hcall
  cases hcall
  exact ⟨tk, answer, rfl, h⟩

theorem World.registry_closePeer (w : World) (k : PeerKey) :
    (w.closePeer k).1.registry = w.registry := by
  rw [World.closePeer_eq, (World.onPeer_frame w k _).1]

theorem BroadcastStep.calls {w w' : World} {me : TaskKey} {b b' : Broadcast}
    (h : BroadcastStep w me b w' b') : Calls w b.call? w' b'.call? := by
  cases h with
  | asks hstage hadmits | prunes hstage hadmits =>
      simp only [Broadcast.call?, hstage]
      exact .enters hadmits rfl
  | skips hstage hanswer =>
      rw [Broadcast.call?_asking hstage]
      exact .ends (World.released_waiting hanswer) rfl
  | learns hstage hanswer =>
      rw [Broadcast.call?_onward, Broadcast.call?_asking hstage]
      exact .ends (World.released_waiting hanswer) rfl
  | pruned hstage hanswer =>
      rw [Broadcast.call?_onward, Broadcast.call?_pruning hstage]
      exact .ends (World.released_waiting hanswer) rfl
  | misses hstage _ | settles hstage _ _ _ =>
      rw [Broadcast.call?_onward, show b.call? = none by simp [Broadcast.call?, hstage]]
      exact .ends (World.released_none w) rfl
  | sends hstage _ _ _ =>
      rw [show b.call? = none by simp [Broadcast.call?, hstage]]
      exact .ends (World.released_none w) rfl
  | @fails k state rest p q f closedIt hstage hpeer hsend =>
      rw [show b.call? = none by simp [Broadcast.call?, hstage]]
      refine .begins (World.released_none w) (World.registry_closePeer _ _) ?_
        ⟨q.close.1, ?_, Peer.closed_close q⟩
      · rw [hsend.lasts.info]
        exact .prune hpeer
      · exact World.peer?_closePeer_self (World.peer?_setPeer_self hpeer q)

theorem World.peer?_of_connection {w : World} {k : PeerKey} {c : Connection}
    (h : w.connections[k]? = some c) : w.peer? k = some c.peer := by
  rw [World.peer?, h]
  rfl

/-- A worker works for one peer. -/
theorem WorkerStep.peer {w w' : World} {me : TaskKey} {wk wk' : Worker} {c : Connection}
    (h : WorkerStep w me wk c w' wk') : wk'.peer = wk.peer := by
  cases h <;> rfl

/-- A worker goes on working for its peer. -/
theorem MoveStep.worker_stays {w w' : World} {m : Move} (h : MoveStep w m w') {t : TaskKey}
    {wk : Worker} (ht : w.tasks[t]? = some (.worker wk)) :
    ∃ wk', w'.tasks[t]? = some (.worker wk') ∧ wk'.peer = wk.peer :=
  h.worker_keeps (P := fun wk' => wk'.peer = wk.peer) ht rfl fun hstep => hstep.peer

theorem WorkerStep.calls {w w' : World} {me : TaskKey} {wk wk' : Worker} {c : Connection}
    (h : WorkerStep w me wk c w' wk') (hc : w.connections[wk.peer]? = some c) :
    Calls w (Task.worker wk).call? w' (Task.worker wk').call? := by
  have hpeer := World.peer?_of_connection hc
  cases h with
  | registers hstage hadmits | unregisters hstage hadmits =>
      simp only [Task.call?, hstage]
      exact .enters hadmits rfl
  | starts hstage hanswer =>
      simp only [Task.call?, hstage]
      exact .ends (World.released_waiting hanswer) rfl
  | drops hstage hanswer | leaves hstage hanswer =>
      simp only [Task.call?, hstage]
      exact .ends (World.released_waiting hanswer) (World.registry_closePeer _ _)
  | quits hstage _ | stops hstage _ _ _ _ =>
      simp only [Task.call?, hstage]
      exact .begins (World.released_none w) rfl (.retire hpeer) trivial
  | reads hstage _ _ _ =>
      simp only [Task.call?, hstage]
      exact .begins (World.released_none w) rfl .survey trivial
  | pauses hstage _ _ _ =>
      simp only [Task.call?, hstage]
      exact .stays rfl
  | @relays b b' _ hstage hstep =>
      have hafter : (Task.worker { wk with
          stage := if b'.isOver then .reading else .relaying b' }).call? = b'.call? := by
        cases hover : b'.isOver with
        | true =>
            have hstage' : b'.stage = .finished := by simpa [Broadcast.isOver] using hover
            simp [Task.call?, Broadcast.call?, hstage']
        | false => simp [Task.call?]
      rw [hafter, show (Task.worker wk).call? = b.call? by simp [Task.call?, hstage]]
      exact hstep.calls

theorem TaskStep.calls {w w' : World} {me : TaskKey} {task task' : Task}
    (h : TaskStep w me task w' task') : Calls w task.call? w' task'.call? := by
  cases h with
  | send _ _ | awaited _ _ => exact .ends (World.released_none w) rfl
  | broadcast hstep => exact hstep.calls
  | worker hc hstep => exact hstep.calls hc
  | monitor hstep =>
      cases hstep with
      | asks hstage hadmits =>
          simp only [Task.call?, hstage]
          exact .enters hadmits rfl
      | wakes hstage _ _ =>
          simp only [Task.call?, hstage]
          exact .begins (World.released_none w) rfl .count trivial
      | stops hstage _ =>
          simp only [Task.call?, hstage]
          exact .ends (World.released_none w) rfl
      | samples hstage hanswer | ends hstage hanswer =>
          simp only [Task.call?, hstage]
          exact .ends (World.released_waiting hanswer) rfl
  | server hstep =>
      cases hstep with
      | starts _ | ends _ _ | misses _ _ _ | accepts _ _ _ | joins _ _ =>
          exact .ends (World.released_none w) rfl

/-- What a move means for the request of the task `t`. -/
inductive CallChange (w : World) (m : Move) (w' : World) (t : TaskKey) : Prop
  | stays : w'.call? t = w.call? t → CallChange w m w' t
  | begins {u : Purpose} {c : Command} : w.Released (w.call? t) →
      w'.call? t = some (u, .entering c) → w'.Means u c →
      u.Arises w' ∨ (∃ k, u = .enrol k ∧ w.peer? k = none) ∨ (∃ task, m = .spawn task) →
      CallChange w m w' t
  | ends : w.Released (w.call? t) → w'.call? t = none → CallChange w m w' t
  | enters {u : Purpose} {c : Command} : w.call? t = some (u, .entering c) →
      w'.call? t = some (u, .waiting w.registry.nextTicket) → w.registry.admits = true →
      w'.registry = (w.registry.request c).1 → CallChange w m w' t

theorem MoveStep.call {w w' : World} {m : Move} (h : MoveStep w m w') (t : TaskKey) :
    CallChange w m w' t := by
  cases h.task t with
  | stays _ htask => exact .stays (by rw [World.call?, htask]; rfl)
  | arrives _ htask htask' => exact .stays (by rw [World.call?, World.call?, htask, htask']; rfl)
  | @comes task htask htask' hbegins hby =>
      have hfree : w.Released (w.call? t) := by
        rw [World.call?, htask]
        exact w.released_none
      rcases hbegins.call? with hnone | ⟨u, c, hcall, hmeans⟩
      · exact .ends hfree (by rw [World.call?, htask']; exact hnone)
      · refine .begins hfree (by rw [World.call?, htask']; exact hcall) hmeans (.inr ?_)
        rcases hby with hspawn | hhires
        · exact .inr ⟨task, hspawn⟩
        · match task with
          | .monitor ⟨_, .sleeping _⟩ => cases hcall
          | .worker wk =>
              obtain ⟨p, -, hwk⟩ := Option.map_eq_some_iff.1 hbegins
              refine .inl ⟨wk.peer, ?_, hhires⟩
              rw [← hwk] at hcall
              exact (Prod.mk.inj (Option.some.inj hcall)).1.symm
  | @turns task task' w₁ _ htask hstep hw' htask' =>
      have hbefore : w.call? t = task.call? := by rw [World.call?, htask]; rfl
      have hafter : w'.call? t = task'.call? := by rw [World.call?, htask']; rfl
      have hregistry : w'.registry = w₁.registry := by rw [hw']; rfl
      have hcalls := hstep.calls
      generalize htc : task.call? = before at hcalls hbefore
      generalize htc' : task'.call? = after at hcalls hafter
      cases hcalls with
      | stays _ => exact .stays (hafter.trans hbefore.symm)
      | begins hfree _ hmeans harises =>
          refine .begins (hbefore ▸ hfree) hafter (hmeans.lasts h.lasts) (.inl ?_)
          rw [hw']
          exact harises
      | ends hfree _ => exact .ends (hbefore ▸ hfree) hafter
      | enters hadmits hreg => exact .enters hbefore hafter hadmits (hregistry.trans hreg)

/-- Someone sends a command in a move: a task whose request enters, or
someone else. -/
inductive World.Asks (w : World) (m : Move) (w' : World) (c : Command) : Prop
  | task {t : TaskKey} {u : Purpose} : m = .turn t → w.call? t = some (u, .entering c) →
      w'.call? t = some (u, .waiting w.registry.nextTicket) → w.Asks m w' c
  | outside : m = .request c → w.Asks m w' c

/-- What a move means for the registry. -/
inductive RegistryChange (w : World) (m : Move) (w' : World) : Prop
  | keeps : w'.registry = w.registry → RegistryChange w m w'
  | takes {c : Command} : w.registry.admits = true → w.Asks m w' c →
      w'.registry = (w.registry.request c).1 → RegistryChange w m w'
  | serves {rank : PeerId → Nat} {change : Option Change} : m = .serve rank →
      w.registry.serve rank = some (w'.registry, change) → RegistryChange w m w'
  | stops : w'.registry = w.registry.stop → RegistryChange w m w'

section

variable {w w' : World} {m : Move} (h : RegistryChange w m w')
include h

theorem RegistryChange.step : RegistryStep w.registry w'.registry := by
  cases h with
  | keeps hreg =>
      rw [hreg]
      exact .keeps
  | takes hadmits _ hreg =>
      rw [hreg]
      exact .takes hadmits
  | serves _ hserve => exact Registry.registryStep_of_serve hserve
  | stops hreg =>
      rw [hreg]
      exact .stops

/-- A command in the queue was there, or someone has just sent it. -/
theorem RegistryChange.queued {tk : Ticket} {c : Command} (hmem : (tk, c) ∈ w'.registry.queue) :
    (tk, c) ∈ w.registry.queue
    ∨ tk = w.registry.nextTicket ∧ w.Asks m w' c ∧ w'.registry = (w.registry.request c).1 := by
  cases h with
  | keeps hreg => exact .inl (hreg ▸ hmem)
  | takes _ hasks hreg =>
      rw [hreg] at hmem
      rcases Registry.mem_queue_request hmem with hmem | ⟨rfl, rfl⟩
      · exact .inl hmem
      · exact .inr ⟨rfl, hasks, hreg⟩
  | serves _ hserve =>
      obtain ⟨tk', c', queue, hqueue, ⟨-, -, hreg⟩ | ⟨-, -, hreg⟩⟩ := Registry.serve_cases hserve
      all_goals
        rw [hreg] at hmem
        exact .inl (hqueue ▸ List.mem_cons_of_mem _ hmem)
  | stops hreg =>
      rw [hreg] at hmem
      cases hmem

/-- What was served was served before, or is the front of the queue and
is served now. -/
theorem RegistryChange.served {s : Served} (hmem : s ∈ w'.registry.served) :
    s ∈ w.registry.served
    ∨ ∃ rank, m = .serve rank ∧ w.registry.service = .serving
        ∧ w.registry.queue.head? = some (s.ticket, s.command)
        ∧ s.reply = (w.registry.membership.apply rank s.command).2.1 := by
  cases h with
  | keeps hreg | takes _ _ hreg | stops hreg =>
      rw [hreg] at hmem
      exact .inl hmem
  | serves hm hserve =>
      obtain ⟨tk, c, queue, hqueue, ⟨hservice, -, hreg⟩ | ⟨-, -, hreg⟩⟩ :=
        Registry.serve_cases hserve
      · rw [hreg] at hmem
        rcases List.mem_append.1 hmem with hmem | hmem
        · exact .inl hmem
        · obtain rfl := List.mem_singleton.1 hmem
          exact .inr ⟨_, hm, hservice, by rw [hqueue]; rfl, rfl⟩
      · rw [hreg] at hmem
        exact .inl hmem

end

theorem MoveStep.registryChange {w w' : World} {m : Move} (h : MoveStep w m w') :
    RegistryChange w m w' := by
  cases h with
  | idles | arrives _ | connects _ | spawns _ => exact .keeps rfl
  | @turns me task task' w₁ htask hstep =>
      have hbefore : w.call? me = task.call? := by rw [World.call?, htask]; rfl
      have hafter : (w₁.setTask me task').call? me = task'.call? := by
        rw [World.call?, hstep.setTask_self htask]
        rfl
      have hcalls := hstep.calls
      generalize task.call? = before, task'.call? = after at hcalls hbefore hafter
      cases hcalls with
      | stays hreg | begins _ hreg _ _ | ends _ hreg => exact .keeps hreg
      | enters hadmits hreg => exact .takes hadmits (.task rfl hbefore hafter) hreg
  | serves hserve _ => exact .serves rfl hserve
  | outside _ h => exact .keeps h.registry
  | closes => exact .keeps (World.registry_closePeer w _)
  | fires => exact .keeps (World.onPeer_frame w _ _).1
  | requests hadmits _ => exact .takes hadmits (.outside rfl) rfl
  | stops => exact .stops rfl

theorem MoveStep.registry {w w' : World} {m : Move} (h : MoveStep w m w') :
    RegistryStep w.registry w'.registry := h.registryChange.step

/-- A command in the queue was there, or a task or someone else has just
sent it. -/
theorem MoveStep.queued {w w' : World} {m : Move} (h : MoveStep w m w') {tk : Ticket}
    {c : Command} (hmem : (tk, c) ∈ w'.registry.queue) :
    (tk, c) ∈ w.registry.queue
    ∨ (∃ t u, w.call? t = some (u, .entering c) ∧ w'.call? t = some (u, .waiting tk))
    ∨ m = .request c ∧ w.Names c := by
  rcases h.registryChange.queued hmem with hqueue | ⟨rfl, hasks, -⟩
  · exact .inl hqueue
  · cases hasks with
    | task _ hbefore hafter => exact .inr (.inl ⟨_, _, hbefore, hafter⟩)
    | outside hm =>
        subst hm
        cases h with
        | requests _ hnames => exact .inr (.inr ⟨rfl, hnames⟩)
        | idles => exact .inl hmem
        | outside _ h => exact .inl (h.registry ▸ hmem)

/-! ## Requests in every world of a run -/

theorem World.Names.lasts {w w' : World} {c : Command} (h : w.Names c)
    (hlasts : ∀ {k p}, w.peer? k = some p → ∃ q, w'.peer? k = some q ∧ p.Lasts q) :
    w'.Names c := by
  cases c with
  | register a =>
      obtain ⟨p, hp, hinfo⟩ := Option.map_eq_some_iff.1 h
      obtain ⟨q, hq, hlasts⟩ := hlasts hp
      show (w'.peer? a.handle).map (·.info) = some a.info
      rw [hq, Option.map_some, hlasts.info, hinfo]
  | unregister _ _ | snapshot _ | size | contains _ => trivial

theorem World.Means.names {w : World} {u : Purpose} {c : Command} (h : w.Means u c) :
    w.Names c := by
  cases h with
  | enrol hp =>
      show (w.peer? _).map (·.info) = _
      rw [hp]
      rfl
  | survey | prune _ | retire _ | count => trivial

/-- What holds of requests in every world of a run. -/
structure World.Requests (w : World) : Prop where
  ordered : w.registry.Ordered
  balanced : w.registry.service = .serving → w.registry.Balanced
  entering : ∀ {t : TaskKey} {u : Purpose} {c : Command}, w.call? t = some (u, .entering c) →
    w.Means u c
  waiting : ∀ {t : TaskKey} {u : Purpose} {tk : Ticket}, w.call? t = some (u, .waiting tk) →
    ∃ c, w.Means u c ∧ w.registry.Holds tk c
  names : ∀ {tk : Ticket} {c : Command}, (tk, c) ∈ w.registry.queue → w.Names c
  names_member : ∀ {a : Member}, a ∈ w.registry.membership.members → w.Names (.register a)
  workers : ∀ {t : TaskKey} {wk : Worker}, w.tasks[t]? = some (.worker wk) →
    ∃ p, w.peer? wk.peer = some p

namespace World

variable {w w' : World}

theorem Requests.step {m : Move} (h : w.Requests) (hstep : MoveStep w m w') : w'.Requests where
  ordered := h.ordered.step hstep.registry
  balanced := fun hserving =>
    (h.balanced (Registry.serving_of_step hstep.registry hserving)).step hstep.registry hserving
  entering := by
    intro t u c ht
    cases hstep.call t with
    | stays hcall => exact (h.entering (hcall ▸ ht)).lasts hstep.lasts
    | begins _ hcall hmeans _ =>
        cases hcall.symm.trans ht
        exact hmeans
    | ends _ hcall => cases hcall.symm.trans ht
    | enters _ hcall _ _ => cases hcall.symm.trans ht
  waiting := by
    intro t u tk ht
    cases hstep.call t with
    | stays hcall =>
        obtain ⟨c, hmeans, hholds⟩ := h.waiting (hcall ▸ ht)
        exact ⟨c, hmeans.lasts hstep.lasts, hholds.step hstep.registry⟩
    | begins _ hcall _ _ => cases hcall.symm.trans ht
    | ends _ hcall => cases hcall.symm.trans ht
    | @enters _ c hbefore hcall _ hreg =>
        cases hcall.symm.trans ht
        exact ⟨c, (h.entering hbefore).lasts hstep.lasts, hreg ▸ h.ordered.holds_request c⟩
  names := by
    intro tk c hmem
    rcases hstep.queued hmem with hmem | ⟨t, u, hcall, -⟩ | ⟨-, hnames⟩
    · exact (h.names hmem).lasts hstep.lasts
    · exact (h.entering hcall).names.lasts hstep.lasts
    · exact hnames.lasts hstep.lasts
  names_member := by
    intro a ha
    have hold : a ∈ w.registry.membership.members → w'.Names (.register a) := fun ha =>
      (h.names_member ha).lasts hstep.lasts
    have hregistry := hstep.registry
    generalize w'.registry = r at hregistry ha
    cases hregistry with
    | keeps | takes _ | drops _ _ => exact hold ha
    | serves _ hqueue =>
        rcases Membership.mem_apply ha with ha | rfl
        · exact hold ha
        · exact (h.names (by rw [hqueue]; exact List.mem_cons_self)).lasts hstep.lasts
    | stops => cases ha
  workers := by
    intro t wk ht
    have hold : ∀ {wk₀ : Worker}, w.tasks[t]? = some (.worker wk₀) → wk.peer = wk₀.peer →
        ∃ p, w'.peer? wk.peer = some p := by
      intro wk₀ ht hpeer
      obtain ⟨p, hp⟩ := h.workers ht
      obtain ⟨q, hq, -⟩ := hstep.lasts hp
      exact ⟨q, hpeer ▸ hq⟩
    cases hstep.was ht with
    | stays _ ht₀ => exact hold ht₀ rfl
    | begins _ hbegins _ =>
        obtain ⟨p, hp, -⟩ := Option.map_eq_some_iff.1 hbegins
        exact ⟨p, hp⟩
    | turns _ ht₀ hstep _ =>
        cases hstep with
        | worker _ hstep => exact hold ht₀ hstep.peer

theorem requests_run (h : w.Requests) {moves : List Move} (hmoves : w.Permitted moves) :
    (w.run moves).Requests :=
  run_induction (P := fun moves => (w.run moves).Requests) h (fun _ h hstep => h.step hstep) hmoves

/-- Two members are two peers. -/
theorem Requests.handles_nodup (h : w.Requests) :
    (w.registry.membership.members.map (·.handle)).Nodup := by
  have hids := h.ordered.ids_nodup
  refine List.Nodup.map_on ?_ hids.of_map
  intro a ha b hb hab
  have hnames := h.names_member ha
  have hnames' := h.names_member hb
  simp only [Names] at hnames hnames'
  rw [hab, hnames'] at hnames
  exact List.inj_on_of_nodup_map hids ha hb (by rw [Option.some.inj hnames])

/-- A turn of a broadcast is a turn of the task that makes it. -/
theorem Requests.turn_of_broadcastTurn (h : w.Requests) {me : TaskKey} {b b' : Broadcast}
    {w₁ : World} (hb : w.broadcast? me = some b) (hturn : w.broadcastTurn me b = some (w₁, b')) :
    ∃ task, w.turn me = some (w₁.setTask me task)
      ∧ (b'.isOver = false → task.broadcast? = some b') := by
  rcases broadcast?_eq_some.1 hb with htask | ⟨wk, htask, hstage⟩
  · exact ⟨.broadcast b', by simp [turn, htask, taskTurn, hturn], fun _ => rfl⟩
  · obtain ⟨p, hp⟩ := h.workers htask
    obtain ⟨c, hc, -⟩ := Option.map_eq_some_iff.1 hp
    refine ⟨.worker { wk with stage := if b'.isOver then .reading else .relaying b' }, ?_, ?_⟩
    · simp [turn, htask, taskTurn, workerTurn, hc, hstage, hturn]
    · intro hopen
      simp [Task.broadcast?, hopen]

end World

end LineRelay
