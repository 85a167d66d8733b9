/-
# Requests that are open

A request is open from when its task comes to it until the registry has
served it, and for that time the task stands where it makes the request
(`Makes`).  `ServesNothing` and `Serves` are the two things that a move can be
to a registry that serves: nothing, or the service of the command that has
waited longest.  With the latter an open request is done, and an id is
registered that was absent.
-/
import LineRelay.Proofs.Relay.Surveys

namespace LineRelay

/-! ## Requests that are open -/

/-- The request has not been served. -/
def World.Pends (w : World) : Call → Prop
  | .entering _ => True
  | .waiting tk => ∀ s ∈ w.registry.served, s.ticket ≠ tk

theorem World.Pends.of_served {w w' : World} {call : Call} (h : w'.Pends call)
    (hserved : ∀ s ∈ w.registry.served, s ∈ w'.registry.served) : w.Pends call := by
  cases call with
  | entering _ => trivial
  | waiting tk => exact fun s hs => h s (hserved s hs)

/-- A request whose reply has come does not pend. -/
theorem World.Requests.not_pends {w : World} (h : w.Requests)
    (hserving : w.registry.service = .serving) {t : TaskKey} {u : Purpose} {call : Call}
    (hcall : w.call? t = some (u, call)) (hfree : w.Released (w.call? t)) : ¬ w.Pends call := by
  obtain ⟨tk, answer, rfl, hanswer⟩ := hfree u call hcall
  obtain ⟨c, -, hholds⟩ := h.waiting hcall
  rcases hholds.answer hanswer with ⟨reply, -, hmem⟩ | ⟨hservice, -⟩
  · exact fun hpends => hpends _ hmem rfl
  · exact absurd hserving hservice

/-- What waits in the queue was not served. -/
theorem World.Requests.pends_queued {w : World} (h : w.Requests) {tk : Ticket} {c : Command}
    (hmem : (tk, c) ∈ w.registry.queue) : w.Pends (.waiting tk) := by
  rintro ⟨tk', c', reply⟩ hs rfl
  exact Registry.not_mem_queue_of_served h.ordered hs c hmem

/-- Where the task stands that makes a request. -/
def World.Makes (w : World) (t : TaskKey) (call : Call) : Purpose → Prop
  | .enrol k => ∃ wk, w.tasks[t]? = some (.worker wk) ∧ wk.peer = k
      ∧ wk.stage = .registering call
  | .retire k reason => ∃ wk, w.tasks[t]? = some (.worker wk) ∧ wk.peer = k
      ∧ wk.stage = .leaving reason call
  | .prune k => ∃ b rest, w.broadcast? t = some b ∧ b.stage = .pruning k call rest
  | .survey _ | .count => True

theorem Broadcast.makes {w : World} {t : TaskKey} {b : Broadcast} {u : Purpose} {call : Call}
    (hb : w.broadcast? t = some b) (h : b.call? = some (u, call)) : w.Makes t call u := by
  cases hstage : b.stage with
  | asking call' =>
      rw [Broadcast.call?_asking hstage] at h
      cases h
      trivial
  | pruning k call' rest =>
      rw [Broadcast.call?_pruning hstage] at h
      cases h
      exact ⟨b, rest, hb, hstage⟩
  | sending _ _ _ | finished => simp [Broadcast.call?, hstage] at h

theorem World.makes_of_call? {w : World} {t : TaskKey} {u : Purpose} {call : Call}
    (h : w.call? t = some (u, call)) : w.Makes t call u := by
  obtain ⟨task, htask, h⟩ := Option.bind_eq_some_iff.1 h
  have hbroadcast : ∀ {b}, task.broadcast? = some b → w.broadcast? t = some b := by
    intro b hb
    rw [World.broadcast?, htask]
    exact hb
  cases task with
  | worker wk =>
      cases hstage : wk.stage with
      | registering call' =>
          simp only [Task.call?, hstage] at h
          cases h
          exact ⟨wk, htask, rfl, hstage⟩
      | relaying b =>
          simp only [Task.call?, hstage] at h
          exact Broadcast.makes (hbroadcast (by simp [Task.broadcast?, hstage])) h
      | leaving reason call' =>
          simp only [Task.call?, hstage] at h
          cases h
          exact ⟨wk, htask, rfl, hstage⟩
      | reading | finished _ => simp [Task.call?, hstage] at h
  | monitor mon =>
      cases hstage : mon.stage with
      | sampling call' =>
          simp only [Task.call?, hstage] at h
          cases h
          trivial
      | sleeping _ | finished => simp [Task.call?, hstage] at h
  | broadcast b => exact Broadcast.makes (hbroadcast rfl) h
  | send _ _ | awaitClose _ _ | server _ => cases h

/-! ## Moves, as the registry sees them -/

/-- The registry has served nothing. -/
structure World.ServesNothing (w w' : World) : Prop where
  membership : w'.registry.membership = w.registry.membership
  events : w'.registry.events = w.registry.events
  served : w'.registry.served = w.registry.served

/-- The registry has served the command `c`, which waited under `tk`, and
that is all. -/
structure World.Serves (w : World) (tk : Ticket) (c : Command) (w' : World) : Prop where
  head : (tk, c) ∈ w.registry.queue
  served : ∃ reply, w'.registry.served = w.registry.served ++ [⟨tk, c, reply⟩]
  applied : ∃ rank, w'.registry.membership = (w.registry.membership.apply rank c).1
    ∧ w'.registry.events = w.registry.events ++ (w.registry.membership.apply rank c).2.2.toList
  tasks : w'.tasks = w.tasks
  peers : ∀ k, w'.peer? k = w.peer? k

theorem World.servesNothing_of_eq {w w' : World} (h : w'.registry = w.registry) :
    w.ServesNothing w' := by
  refine ⟨?_, ?_, ?_⟩ <;> rw [h]

theorem MoveStep.nothing_or_serves {w w' : World} {m : Move} (h : MoveStep w m w')
    (hserving : w'.registry.service = .serving) :
    w.ServesNothing w' ∨ ∃ tk c, w.Serves tk c w' := by
  cases h with
  | idles | arrives _ | connects _ | spawns _ | requests _ _ => exact .inl ⟨rfl, rfl, rfl⟩
  | stops => cases hserving
  | outside _ h => exact .inl (World.servesNothing_of_eq h.registry)
  | closes => exact .inl (World.servesNothing_of_eq (World.registry_closePeer w _))
  | fires => exact .inl (World.servesNothing_of_eq (World.onPeer_frame w _ _).1)
  | @turns me task task' w₁ _ hstep =>
      have hcalls := hstep.calls
      have hregistry : (w₁.setTask me task').registry = w₁.registry := rfl
      generalize task.call? = before, task'.call? = after at hcalls
      cases hcalls with
      | stays hreg | begins _ hreg _ _ | ends _ hreg =>
          exact .inl (World.servesNothing_of_eq (hregistry.trans hreg))
      | enters _ hreg => exact .inl ⟨by rw [hregistry, hreg]; rfl, by rw [hregistry, hreg]; rfl,
          by rw [hregistry, hreg]; rfl⟩
  | serves hserve _ =>
      obtain ⟨tk, c, queue, hqueue, ⟨-, -, rfl⟩ | ⟨hservice, -, rfl⟩⟩ := Registry.serve_cases hserve
      · exact .inr ⟨tk, c, hqueue ▸ List.mem_cons_self, ⟨_, rfl⟩, ⟨_, rfl, rfl⟩, rfl, fun _ => rfl⟩
      · exact absurd hserving hservice

section Counting

variable {w w' : World} {tk : Ticket} {c : Command}

theorem World.ServesNothing.arrivals (h : w.ServesNothing w') (id : PeerId) :
    w'.registry.arrivals id = w.registry.arrivals id := by
  rw [Registry.arrivals, h.events]
  rfl

theorem World.ServesNothing.gone_iff (h : w.ServesNothing w') (id : PeerId) :
    w'.registry.Gone id ↔ w.registry.Gone id := by
  rw [Registry.Gone, Registry.Gone, h.arrivals, h.membership]

theorem World.ServesNothing.pends_iff (h : w.ServesNothing w') (call : Call) :
    w'.Pends call ↔ w.Pends call := by
  cases call with
  | entering _ => exact Iff.rfl
  | waiting tk => rw [World.Pends, World.Pends, h.served]

/-- A ticket that was just given pends. -/
theorem World.ServesNothing.pends_next (h : w.ServesNothing w') (hw : w.Requests) :
    w'.Pends (.waiting w.registry.nextTicket) := by
  intro s hs hticket
  rw [h.served] at hs
  have := hw.ordered.below _ (List.mem_append_right _ (List.mem_map.2 ⟨s, hs, hticket⟩))
  exact Nat.lt_irrefl _ this

theorem World.Serves.mem_served (h : w.Serves tk c w') {s : Served} (hs : s ∈ w.registry.served) :
    s ∈ w'.registry.served := by
  obtain ⟨reply, hserved⟩ := h.served
  exact hserved ▸ List.mem_append_left _ hs

/-- A request that pends no longer is the one that was served. -/
theorem World.Serves.eq_waiting (h : w.Serves tk c w') {call : Call} (hbefore : w.Pends call)
    (hafter : ¬ w'.Pends call) : call = .waiting tk := by
  cases call with
  | entering _ => exact absurd trivial hafter
  | waiting tk' =>
      obtain ⟨reply, hserved⟩ := h.served
      by_contra hne
      refine hafter ?_
      intro s hs
      rw [hserved] at hs
      rcases List.mem_append.1 hs with hs | hs
      · exact hbefore s hs
      · obtain rfl := List.mem_singleton.1 hs
        exact fun e => hne (by rw [show tk = tk' from e])

theorem World.Serves.not_pends (h : w.Serves tk c w') : ¬ w'.Pends (.waiting tk) := by
  obtain ⟨reply, hserved⟩ := h.served
  exact fun hpends => hpends ⟨tk, c, reply⟩ (by rw [hserved]; simp) rfl

/-- An id is registered now if it is the id of the command and was absent. -/
theorem World.Serves.arrivals (h : w.Serves tk c w') (id : PeerId) :
    (w'.registry.arrivals id = w.registry.arrivals id
        ∧ ∀ a, c = .register a → a.info.id = id → w.registry.membership.contains id = true)
    ∨ ∃ a, c = .register a ∧ a.info.id = id
        ∧ w'.registry.arrivals id = w.registry.arrivals id + 1 := by
  obtain ⟨rank, -, hevents⟩ := h.applied
  simp only [Registry.arrivals, hevents, List.countP_append]
  cases c with
  | register a =>
      simp only [Membership.apply]
      split_ifs with hcontains
      · refine .inl ⟨rfl, ?_⟩
        intro a' ha' hid
        cases ha'
        exact hid ▸ hcontains
      · by_cases hid : a.info.id = id
        · exact .inr ⟨a, rfl, hid, by simp [Change.registers, hid]⟩
        · refine .inl ⟨by simp [Change.registers, hid], ?_⟩
          intro a' ha' hid'
          cases ha'
          exact absurd hid' hid
  | unregister id' reason =>
      refine .inl ⟨?_, fun _ ha => by cases ha⟩
      simp only [Membership.apply]
      split
      · rfl
      · simp [Change.registers]
  | snapshot _ | size | contains _ => exact .inl ⟨rfl, fun _ ha => by cases ha⟩

theorem World.Serves.call? (h : w.Serves tk c w') (t : TaskKey) : w'.call? t = w.call? t := by
  rw [World.call?, World.call?, h.tasks]

/-- The task that waits under the ticket served has sent the command. -/
theorem World.Serves.means (h : w.Serves tk c w') (hw : w.Requests) {t : TaskKey} {u : Purpose}
    (hcall : w.call? t = some (u, .waiting tk)) : w.Means u c := by
  obtain ⟨c', hmeans, hholds⟩ := hw.waiting hcall
  exact hholds.queue h.head ▸ hmeans

end Counting

/-! ## Whose command it is -/

section Owned

variable {w w' w₀ : World} {m : Move} {moves : List Move} {t : TaskKey} {k : PeerKey}
  {tk : Ticket} {c : Command} {call : Call}

/-- A command in the queue was sent by someone outside, or a task waits for
it. -/
def World.Owned (w : World) (outside : Command → Prop) : Prop :=
  ∀ (tk : Ticket) (c : Command), (tk, c) ∈ w.registry.queue →
    outside c ∨ ∃ t u, w.call? t = some (u, .waiting tk) ∧ w.Means u c

theorem World.Owned.step {outside outside' : Command → Prop} (h : w.Owned outside)
    (hw : w.Requests) (hserving : w.registry.service = .serving) (hstep : MoveStep w m w')
    (hout : ∀ {c}, outside c → outside' c) (hrequest : ∀ {c}, m = .request c → outside' c) :
    w'.Owned outside' := by
  intro tk c hmem
  rcases hstep.queued hmem with hmem | ⟨t, u, hcall, hcall'⟩ | ⟨hm, -⟩
  · rcases h tk c hmem with hc | ⟨t, u, hcall, hmeans⟩
    · exact .inl (hout hc)
    · -- it waits in the queue, so its task waits for it
      have hpends := hw.pends_queued hmem
      cases hstep.call t with
      | stays hsame => exact .inr ⟨t, u, hsame.trans hcall, hmeans.lasts hstep.lasts⟩
      | begins hfree _ _ _ => exact absurd hpends (hw.not_pends hserving hcall hfree)
      | ends hfree _ => exact absurd hpends (hw.not_pends hserving hcall hfree)
      | enters hbefore _ _ _ => cases hbefore.symm.trans hcall
  · exact .inr ⟨t, u, hcall', (hw.entering hcall).lasts hstep.lasts⟩
  · exact .inl (hrequest hm)

/-- In every world of a run, while the registry serves, a task waits for
every command in the queue that nobody outside has sent. -/
theorem World.owned_run (h₀ : w₀.IsNew) (hmoves : w₀.Permitted moves)
    (hserving : (w₀.run moves).registry.service = .serving) :
    (w₀.run moves).Owned fun c => .request c ∈ moves := by
  revert hserving
  refine run_induction (w := w₀) (P := fun moves => (w₀.run moves).registry.service = .serving →
      (w₀.run moves).Owned fun c => .request c ∈ moves)
    (fun _ tk c hmem => ?_) (fun {moves m} hmoves h hstep hserving => ?_) hmoves
  · rw [show (w₀.run []).registry = {} from h₀.registry] at hmem
    cases hmem
  · have hserving₀ := Registry.serving_of_step hstep.registry hserving
    refine Owned.step (h hserving₀) (requests_run h₀.requests hmoves) hserving₀ hstep
      (fun hc => List.mem_append_left _ hc) ?_
    rintro c rfl
    simp

/-- A broadcast that removes a peer has closed it. -/
theorem World.pruned_run (h₀ : w₀.IsNew) (hmoves : w₀.Permitted moves)
    (hcall : (w₀.run moves).call? t = some (.prune k, call)) :
    ∃ p, (w₀.run moves).peer? k = some p ∧ p.closed = true := by
  revert t call
  refine run_induction (w := w₀) (P := fun moves => ∀ {t : TaskKey} {call : Call},
      (w₀.run moves).call? t = some (.prune k, call) →
      ∃ p, (w₀.run moves).peer? k = some p ∧ p.closed = true)
    (fun hcall => ?_) (fun {moves m} _ h hstep t call hcall => ?_) hmoves
  · cases (h₀.call? _).symm.trans hcall
  · have hold : ∀ {call}, (w₀.run moves).call? t = some (.prune k, call) →
        ∃ p, (w₀.run (moves ++ [m])).peer? k = some p ∧ p.closed = true := by
      intro call hcall
      obtain ⟨p, hp, hclosed⟩ := h hcall
      obtain ⟨q, hq, hlasts⟩ := hstep.lasts hp
      exact ⟨q, hq, hlasts.closed hclosed⟩
    cases hstep.call t with
    | stays hsame => exact hold (hsame ▸ hcall)
    | ends _ hnone => cases hnone.symm.trans hcall
    | enters hbefore hafter _ _ =>
        cases hafter.symm.trans hcall
        exact hold hbefore
    | begins _ hafter _ hwhy =>
        cases hafter.symm.trans hcall
        rcases hwhy with harises | ⟨j, hj, -⟩ | ⟨task, rfl⟩
        · exact harises
        · cases hj
        · -- who begins removes nobody
          obtain ⟨b, rest, hb, hstage⟩ := makes_of_call? hafter
          cases hstep.broadcast hb with
          | stays _ hb₀ =>
              exact hold ((call?_of_broadcast? hb₀).trans (Broadcast.call?_pruning hstage))
          | begins hbegin =>
              rw [hbegin] at hstage
              cases hstage
          | steps hturn _ _ _ => cases hturn

/-- A command that was served names no peer as what it is not. -/
theorem World.names_served_run (h₀ : w₀.IsNew) (hmoves : w₀.Permitted moves) {s : Served}
    (hs : s ∈ (w₀.run moves).registry.served) : (w₀.run moves).Names s.command := by
  revert hs
  refine run_induction (w := w₀) (P := fun moves => s ∈ (w₀.run moves).registry.served →
      (w₀.run moves).Names s.command)
    (fun hs => ?_) (fun {moves m} hmoves h hstep hs => ?_) hmoves
  · rw [show (w₀.run []).registry = {} from h₀.registry] at hs
    cases hs
  · rcases hstep.registryChange.served hs with hs | ⟨rank, -, -, hhead, -⟩
    · exact (h hs).lasts hstep.lasts
    · have hnames := (requests_run h₀.requests hmoves).names (List.mem_of_mem_head? hhead)
      exact hnames.lasts hstep.lasts

/-- Who a reply says was removed had the id that was asked for, and is named
as what it is. -/
theorem World.removed_run (h₀ : w₀.IsNew) (hmoves : w₀.Permitted moves) {s : Served} {a : Member}
    (hs : s ∈ (w₀.run moves).registry.served) (hreply : s.reply = .removed (some a)) :
    (∃ reason, s.command = .unregister a.info.id reason)
      ∧ (w₀.run moves).Names (.register a) := by
  revert hs
  refine run_induction (w := w₀) (P := fun moves => s ∈ (w₀.run moves).registry.served →
      (∃ reason, s.command = .unregister a.info.id reason)
        ∧ (w₀.run moves).Names (.register a))
    (fun hs => ?_) (fun {moves m} hmoves h hstep hs => ?_) hmoves
  · rw [show (w₀.run []).registry = {} from h₀.registry] at hs
    cases hs
  · rcases hstep.registryChange.served hs with hs | ⟨rank, -, -, -, happly⟩
    · exact ⟨(h hs).1, (h hs).2.lasts hstep.lasts⟩
    · obtain ⟨reason, hc, hmem⟩ := Membership.of_apply_removed (happly.symm.trans hreply)
      exact ⟨⟨reason, hc⟩,
        ((requests_run h₀.requests hmoves).names_member hmem).lasts hstep.lasts⟩

end Owned

end LineRelay
