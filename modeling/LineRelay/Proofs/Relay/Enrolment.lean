/-
# How one peer is registered

A peer may be registered by its worker and by anyone else.  Whoever is in
the registry was brought there by someone outside, or by its worker, who
has not had it removed (`Enlists`).  If nobody but its worker registers the
peer, and no other peer has its id, the id is registered exactly once, when
the request of the worker is served, and the reply is that it is new
(`Enrolment`).  If besides nobody outside removes the peer, it is a member
from then on until it is closed, or its worker is about to close it
(`Retained`).
-/
import LineRelay.Proofs.Relay.Pending

namespace LineRelay

/-! ## Who is in the registry -/

/-- The worker has not ended, and the removal of its peer was not served. -/
structure World.Stays (w : World) (wk : Worker) : Prop where
  here : ∀ reason, wk.stage ≠ .finished reason
  asks : ∀ {reason call}, wk.stage = .leaving reason call → w.Pends call

/-- A member was brought by someone outside, or by its worker, who has not
had it removed. -/
def World.Enlists (w : World) (outside : Member → Prop) : Prop :=
  ∀ a ∈ w.registry.membership.members,
    outside a ∨ ∃ (t : TaskKey) (wk : Worker), w.tasks[t]? = some (.worker wk)
      ∧ wk.peer = a.handle ∧ w.Stays wk

/-- Who asks for the registration of a peer is its worker. -/
theorem World.Means.enrol_of_register {w : World} {u : Purpose} {a : Member}
    (h : w.Means u (.register a)) : u = .enrol a.handle := by
  cases h
  rfl

namespace World

variable {w w' : World} {m : Move} {t : TaskKey} {wk wk' : Worker} {tk : Ticket} {c : Command}

/-- A worker that stays gets no answer to a removal. -/
theorem Stays.workerStep {w₁ : World} {con : Connection} (h : w.Stays wk) (hw : w.Requests)
    (hserving : w.registry.service = .serving) (ht : w.tasks[t]? = some (.worker wk))
    (hworker : WorkerStep w t wk con w₁ wk') (hnext : w'.Pends (.waiting w.registry.nextTicket)) :
    w'.Stays wk' := by
  cases hworker with
  | registers _ _ | starts _ _ | reads _ _ _ _ =>
      exact ⟨fun _ => WorkerStage.noConfusion, WorkerStage.noConfusion⟩
  | quits _ _ | stops _ _ _ _ _ =>
      refine ⟨fun _ => WorkerStage.noConfusion, ?_⟩
      intro reason call hstage
      cases hstage
      trivial
  | unregisters _ _ =>
      refine ⟨fun _ => WorkerStage.noConfusion, ?_⟩
      intro reason call hstage
      cases hstage
      exact hnext
  | pauses hreading _ _ _ => exact ⟨h.here, fun hstage => by cases hreading.symm.trans hstage⟩
  | @relays b b' _ _ _ =>
      refine ⟨?_, ?_⟩
      · intro reason hstage
        simp only at hstage
        split_ifs at hstage
      · intro reason call hstage
        simp only at hstage
        split_ifs at hstage
  | drops hregistering hanswer =>
      -- a registry that serves replies
      obtain ⟨c, -, hholds⟩ := hw.waiting (call?_registering ht hregistering)
      rcases hholds.answer hanswer with ⟨reply, hreply, -⟩ | ⟨hservice, -⟩
      · cases hreply
      · exact absurd hserving hservice
  | leaves hleaving hanswer =>
      have hcall := call?_leaving ht hleaving
      exact absurd (h.asks hleaving)
        (hw.not_pends hserving hcall (hcall ▸ released_waiting hanswer))

/-- While nothing is served, a worker stays. -/
theorem ServesNothing.stays (h : w.ServesNothing w') (hw : w.Requests)
    (hserving : w.registry.service = .serving)
    (hstep : MoveStep w m w') (ht : w.tasks[t]? = some (.worker wk)) (hstays : w.Stays wk) :
    ∃ wk', w'.tasks[t]? = some (.worker wk') ∧ wk'.peer = wk.peer ∧ w'.Stays wk' := by
  have hstays' : w'.Stays wk :=
    ⟨hstays.here, fun hleaving => (h.pends_iff _).2 (hstays.asks hleaving)⟩
  exact hstep.worker_keeps (P := fun wk' => wk'.peer = wk.peer ∧ w'.Stays wk') ht ⟨rfl, hstays'⟩
    fun hworker => ⟨hworker.peer, hstays.workerStep hw hserving ht hworker (h.pends_next hw)⟩

/-- When a command is served, a worker stays, or it is the removal of its
peer. -/
theorem Serves.stays (h : w.Serves tk c w') (hw : w.Requests)
    (ht : w.tasks[t]? = some (.worker wk)) (hstays : w.Stays wk) :
    w'.Stays wk ∨ ∃ p reason, w.peer? wk.peer = some p ∧ c = .unregister p.info.id reason := by
  by_cases hpends : ∀ reason call, wk.stage = .leaving reason call → w'.Pends call
  · exact .inl ⟨hstays.here, fun {reason call} hstage => hpends reason call hstage⟩
  · push Not at hpends
    obtain ⟨reason, call, hstage, hserved⟩ := hpends
    obtain rfl := h.eq_waiting (hstays.asks hstage) hserved
    cases h.means hw (call?_leaving ht hstage) with
    | retire hp => exact .inr ⟨_, _, hp, rfl⟩

theorem Enlists.mono {outside outside' : Member → Prop} (h : w.Enlists outside)
    (hout : ∀ a, outside a → outside' a) : w.Enlists outside' :=
  fun a hmem => (h a hmem).imp_left (hout a)

theorem Enlists.step {outside outside' : Member → Prop} (h : w.Enlists outside)
    (howned : w.Owned fun c => ∀ a, c = .register a → outside a) (hw : w.Requests)
    (hserving : w'.registry.service = .serving) (hstep : MoveStep w m w')
    (hout : ∀ {a}, outside a → outside' a) : w'.Enlists outside' := by
  intro a hmem
  have hserving₀ := Registry.serving_of_step hstep.registry hserving
  rcases hstep.nothing_or_serves hserving with hnothing | ⟨tk, c, hserves⟩
  · rw [hnothing.membership] at hmem
    rcases h a hmem with ha | ⟨t, wk, ht, hpeer, hstays⟩
    · exact .inl (hout ha)
    · obtain ⟨wk', ht', hpeer', hstays'⟩ := hnothing.stays hw hserving₀ hstep ht hstays
      exact .inr ⟨t, wk', ht', hpeer'.trans hpeer, hstays'⟩
  · obtain ⟨rank, hmembership, -⟩ := hserves.applied
    have hmem₀ := hmem
    rw [hmembership] at hmem₀
    rcases Membership.mem_apply hmem₀ with hold | rfl
    · rcases h a hold with ha | ⟨t, wk, ht, hpeer, hstays⟩
      · exact .inl (hout ha)
      · rcases hserves.stays hw ht hstays with hstays' | ⟨p, reason, hp, rfl⟩
        · exact .inr ⟨t, wk, hserves.tasks ▸ ht, hpeer, hstays'⟩
        · -- its id has just been removed
          obtain ⟨q, hq, hinfo⟩ := Option.map_eq_some_iff.1 (hw.names_member hold)
          rw [← hpeer, hp] at hq
          cases hq
          have habsent : w'.registry.membership.contains p.info.id = false := by
            rw [hmembership, Membership.contains_apply_unregister]
            simp
          exact absurd (by rw [hinfo]) (Membership.contains_eq_false_iff.1 habsent a hmem)
    · rcases howned tk _ hserves.head with ha | ⟨t, u, hcall, hmeans⟩
      · exact .inl (hout (ha a rfl))
      · obtain rfl := hmeans.enrol_of_register
        obtain ⟨wk, ht, hpeer, hstage⟩ := makes_of_call? hcall
        refine .inr ⟨t, wk, hserves.tasks ▸ ht, hpeer, ?_, ?_⟩
        · intro reason h
          cases hstage.symm.trans h
        · intro reason call h
          cases hstage.symm.trans h

/-- In every world of a run, while the registry serves, a member was brought
by someone outside, or by its worker, who has not had it removed. -/
theorem enlists_run {w₀ : World} (h₀ : w₀.IsNew) {moves : List Move} (hmoves : w₀.Permitted moves)
    (hserving : (w₀.run moves).registry.service = .serving) :
    (w₀.run moves).Enlists fun a => .request (.register a) ∈ moves := by
  revert hserving
  refine run_induction (w := w₀) (P := fun moves => (w₀.run moves).registry.service = .serving →
      (w₀.run moves).Enlists fun a => .request (.register a) ∈ moves)
    (fun _ a hmem => ?_) (fun {moves m} hmoves h hstep hserving => ?_) hmoves
  · rw [show (w₀.run []).registry = {} from h₀.registry] at hmem
    cases hmem
  · have hserving₀ := Registry.serving_of_step hstep.registry hserving
    refine Enlists.step (h hserving₀) ?_ (requests_run h₀.requests hmoves) hserving hstep
      (fun ha => List.mem_append_left _ ha)
    intro tk c hmem
    refine (owned_run h₀ hmoves hserving₀ tk c hmem).imp_left ?_
    rintro hc a rfl
    exact hc

end World

/-! ## The registration of one peer -/

namespace World

/-- The task `t` is the only one that may be the worker of the peer `k`. -/
def Sole (w : World) (t : TaskKey) (k : PeerKey) : Prop :=
  ∀ (t' : TaskKey) (wk : Worker), w.tasks[t']? = some (.worker wk) → wk.peer = k → t' = t

/-- The id `id` is that of the peer `k`, and of no other. -/
structure Identifies (w : World) (id : PeerId) (k : PeerKey) : Prop where
  own : ∀ {p : Peer}, w.peer? k = some p → p.info.id = id
  only : ∀ {j : PeerKey} {p : Peer}, w.peer? j = some p → p.info.id = id → j = k

/-- The worker `t` of the peer `k` waits for its registration no longer. -/
structure Enrolled (w : World) (t : TaskKey) (k : PeerKey) : Prop where
  worker : ∃ wk, w.tasks[t]? = some (.worker wk) ∧ wk.peer = k
  done : ∀ {call : Call}, w.call? t = some (.enrol k, call) → ¬ w.Pends call

/-- What holds of the registrations of the id `id`, which is that of the peer
`k` with the worker `t`. -/
structure Enrolment (w : World) (t : TaskKey) (k : PeerKey) (id : PeerId) : Prop where
  before : ¬ w.Enrolled t k → w.registry.arrivals id = 0
  after : w.Enrolled t k → w.registry.arrivals id = 1
  granted : ∀ {s : Served} {a : Member}, s ∈ w.registry.served → s.command = .register a →
    a.info.id = id → s.reply = .registered true

variable {w w' : World} {m : Move} {t : TaskKey} {wk : Worker} {k : PeerKey} {id : PeerId}
  {tk : Ticket} {c : Command}

theorem Sole.before (hstep : MoveStep w m w') (h : w'.Sole t k) : w.Sole t k := by
  intro t' wk ht hk
  obtain ⟨wk', ht', hpeer⟩ := hstep.worker_stays ht
  exact h t' wk' ht' (hpeer.trans hk)

theorem Identifies.before (hstep : MoveStep w m w') (h : w'.Identifies id k) :
    w.Identifies id k where
  own := by
    intro p hp
    obtain ⟨q, hq, hlasts⟩ := hstep.lasts hp
    rw [← hlasts.info, h.own hq]
  only := by
    intro j p hp hid
    obtain ⟨q, hq, hlasts⟩ := hstep.lasts hp
    exact h.only hq (by rw [hlasts.info, hid])

/-- Who is named by the id is the peer that it identifies. -/
theorem Identifies.handle_eq (h : w.Identifies id k) {a : Member} (hnames : w.Names (.register a))
    (hid : a.info.id = id) : a.handle = k := by
  obtain ⟨p, hp, hinfo⟩ := Option.map_eq_some_iff.1 hnames
  exact h.only hp (by rw [hinfo, hid])

/-- A worker that is not about its registration is enrolled. -/
theorem enrolled_of_stage (ht : w.tasks[t]? = some (.worker wk))
    (hstage : ∀ call, wk.stage ≠ .registering call) : w.Enrolled t wk.peer := by
  refine ⟨⟨wk, ht, rfl⟩, fun hcall => ?_⟩
  obtain ⟨wk', ht', -, hstage'⟩ := makes_of_call? hcall
  cases ht.symm.trans ht'
  exact absurd hstage' (hstage _)

theorem Enrolment.arrivals_le_one (h : w.Enrolment t k id) : w.registry.arrivals id ≤ 1 := by
  by_cases henrolled : w.Enrolled t k
  · exact (h.after henrolled).le
  · exact (h.before henrolled).trans_le (Nat.zero_le 1)

/-- When a command is served, the worker is enrolled whose registration it
was, and no other. -/
theorem Serves.enrolled_iff (hserves : w.Serves tk c w') :
    w'.Enrolled t k ↔ w.Enrolled t k ∨ w.call? t = some (.enrol k, .waiting tk) := by
  have hcall : w'.call? t = w.call? t := hserves.call? t
  constructor
  · rintro ⟨hworker, hdone⟩
    by_cases hopen : ∃ call, w.call? t = some (.enrol k, call) ∧ w.Pends call
    · obtain ⟨call, hcall₀, hpends⟩ := hopen
      obtain rfl := hserves.eq_waiting hpends (hdone (hcall.trans hcall₀))
      exact .inr hcall₀
    · refine .inl ⟨hserves.tasks ▸ hworker, fun {call} hcall₀ hpends => ?_⟩
      exact hopen ⟨call, hcall₀, hpends⟩
  · rintro (⟨hworker, hdone⟩ | hcall₀)
    · refine ⟨hserves.tasks ▸ hworker, fun hcall' hpends => ?_⟩
      exact hdone (hcall ▸ hcall') (hpends.of_served fun _ => hserves.mem_served)
    · obtain ⟨wk, ht, hk, -⟩ := makes_of_call? hcall₀
      refine ⟨⟨wk, hserves.tasks ▸ ht, hk⟩, fun hcall' => ?_⟩
      rw [hcall, hcall₀] at hcall'
      cases hcall'
      exact hserves.not_pends

/-- A move of a run in which the peer `k` has an id of its own, and is
registered by its worker alone. -/
structure Enrolling (w : World) (m : Move) (w' : World) (t : TaskKey) (k : PeerKey)
    (id : PeerId) : Prop where
  step : MoveStep w m w'
  requests : w.Requests
  serving : w'.registry.service = .serving
  identifies : w.Identifies id k
  owned : ∀ {tk : Ticket} {a : Member}, (tk, .register a) ∈ w.registry.queue → a.info.id = id →
    w.call? t = some (.enrol k, .waiting tk)

namespace Enrolling

theorem serving₀ (h : Enrolling w m w' t k id) : w.registry.service = .serving :=
  Registry.serving_of_step h.step.registry h.serving

/-- While nothing is served, no worker gets enrolled. -/
theorem enrolled_before (h : Enrolling w m w' t k id) (hnothing : w.ServesNothing w')
    (henrolled : w'.Enrolled t k) : w.Enrolled t k := by
  obtain ⟨⟨wk', ht', hk⟩, hdone⟩ := henrolled
  cases h.step.was ht' with
  | begins _ hbegins _ =>
      -- a worker that begins has its registration before it
      obtain ⟨p, -, hwk⟩ := Option.map_eq_some_iff.1 hbegins
      refine absurd trivial (@hdone (.entering (.register ⟨p.info, wk'.peer⟩)) ?_)
      rw [← hk]
      refine call?_registering ht' ?_
      rw [← hwk]
      rfl
  | stays _ ht =>
      refine ⟨⟨wk', ht, hk⟩, fun hcall => ?_⟩
      rw [← hnothing.pends_iff]
      refine hdone ?_
      rw [call?, ht'.trans ht.symm]
      exact hcall
  | turns _ htask hturn _ =>
      cases hturn with
      | worker _ hworker =>
          refine ⟨⟨_, htask, hworker.peer ▸ hk⟩, ?_⟩
          intro call hcall hpends
          cases h.step.call t with
          | stays hsame => exact hdone (hsame.trans hcall) ((hnothing.pends_iff _).2 hpends)
          | begins hfree _ _ _ | ends hfree _ =>
              exact h.requests.not_pends h.serving₀ hcall hfree hpends
          | enters hbefore hafter _ _ =>
              cases hbefore.symm.trans hcall
              exact hdone hafter (hnothing.pends_next h.requests)

/-- While nothing is served, a worker that is enrolled stays so. -/
theorem enrolled_after (h : Enrolling w m w' t k id) (hnothing : w.ServesNothing w')
    (henrolled : w.Enrolled t k) : w'.Enrolled t k := by
  obtain ⟨⟨wk, ht, hk⟩, hdone⟩ := henrolled
  obtain ⟨wk', ht', hpeer⟩ := h.step.worker_stays ht
  refine ⟨⟨wk', ht', hpeer.trans hk⟩, ?_⟩
  intro call hcall hpends
  obtain ⟨wk₁, ht₁, -, hstage⟩ := makes_of_call? hcall
  cases ht₁.symm.trans ht'
  cases h.step.becomes ht with
  | stays _ htask =>
      refine @hdone call ?_ ((hnothing.pends_iff _).1 hpends)
      rw [call?, ht.trans htask.symm]
      exact hcall
  | turns _ hturn _ htask' =>
      cases htask'.symm.trans ht'
      cases hturn with
      | worker _ hworker =>
          cases hworker with
          | @registers cmd hstage' _ =>
              refine @hdone (.entering cmd) ?_ trivial
              rw [← hk]
              exact call?_registering ht hstage'
          | starts _ _ | drops _ _ | quits _ _ | reads _ _ _ _ | stops _ _ _ _ _
          | unregisters _ _ | leaves _ _ => cases hstage
          | pauses hreading _ _ _ => cases hreading.symm.trans hstage
          | relays _ _ =>
              simp only at hstage
              split_ifs at hstage

/-- While nothing is served, a registration waits on or has been done. -/
theorem enrolled_iff_of_servesNothing (h : Enrolling w m w' t k id)
    (hnothing : w.ServesNothing w') :
    w'.Enrolled t k ↔ w.Enrolled t k := ⟨h.enrolled_before hnothing, h.enrolled_after hnothing⟩

/-- A worker whose request waits is not enrolled. -/
theorem not_enrolled (h : Enrolling w m w' t k id) (hserves : w.Serves tk c w')
    (hcall : w.call? t = some (.enrol k, .waiting tk)) : ¬ w.Enrolled t k := fun henrolled =>
  henrolled.done hcall (h.requests.pends_queued hserves.head)

/-- What the request of the worker says. -/
theorem register_of_call (h : Enrolling w m w' t k id) (hserves : w.Serves tk c w')
    (hcall : w.call? t = some (.enrol k, .waiting tk)) : ∃ a, c = .register a ∧ a.info.id = id := by
  cases hserves.means h.requests hcall with
  | enrol hp => exact ⟨_, rfl, h.identifies.own hp⟩

/-- Before the worker is enrolled, the id is not registered. -/
theorem contains_eq_false (h : Enrolling w m w' t k id) (hzero : w.registry.arrivals id = 0) :
    w.registry.membership.contains id = false := by
  have hbalance := h.requests.balanced h.serving₀ id
  rw [hzero] at hbalance
  cases hcontains : w.registry.membership.contains id with
  | false => rfl
  | true => simp [hcontains] at hbalance

end Enrolling

theorem Enrolment.step (he : w.Enrolment t k id) (h : Enrolling w m w' t k id) :
    w'.Enrolment t k id := by
  have hgranted : ∀ {s : Served} {a : Member}, s ∈ w'.registry.served → s.command = .register a →
      a.info.id = id → s.reply = .registered true := by
    intro s a hs hc hid
    rcases h.step.registryChange.served hs with hs | ⟨rank, -, -, hhead, hreply⟩
    · exact he.granted hs hc hid
    · -- its worker waits for it, so it is the first one
      have hmem : (s.ticket, Command.register a) ∈ w.registry.queue :=
        hc ▸ List.mem_of_mem_head? hhead
      have hzero := he.before fun henrolled =>
        henrolled.done (h.owned hmem hid) (h.requests.pends_queued hmem)
      have habsent := h.contains_eq_false hzero
      rw [hreply, hc, Membership.apply, if_neg (by rw [hid, habsent]; exact Bool.false_ne_true)]
  rcases h.step.nothing_or_serves h.serving with hnothing | ⟨tk, c, hserves⟩
  · refine ⟨?_, ?_, hgranted⟩ <;> rw [hnothing.arrivals, h.enrolled_iff_of_servesNothing hnothing]
    · exact he.before
    · exact he.after
  · by_cases hcall : w.call? t = some (.enrol k, .waiting tk)
    · have hzero := he.before (h.not_enrolled hserves hcall)
      have hafter : w'.Enrolled t k := hserves.enrolled_iff.2 (.inr hcall)
      obtain ⟨a, rfl, hid⟩ := h.register_of_call hserves hcall
      refine ⟨fun hnot => absurd hafter hnot, fun _ => ?_, hgranted⟩
      rcases hserves.arrivals id with ⟨-, hold⟩ | ⟨_, _, _, hmore⟩
      · cases (hold a rfl hid).symm.trans (h.contains_eq_false hzero)
      · rw [hmore, hzero]
    · have hsame : w'.registry.arrivals id = w.registry.arrivals id := by
        rcases hserves.arrivals id with ⟨hsame, -⟩ | ⟨a, rfl, hid, -⟩
        · exact hsame
        · exact absurd (h.owned hserves.head hid) hcall
      refine ⟨?_, ?_, hgranted⟩ <;> rw [hsame, hserves.enrolled_iff, or_iff_left hcall]
      · exact he.before
      · exact he.after

end World

/-! ## The removal of one peer -/

namespace World

/-- The worker of the peer `k` waits for the removal of the peer, and will
close it then. -/
def Retires (w : World) (k : PeerKey) : Prop :=
  ∃ (t : TaskKey) (wk : Worker) (reason : Reason) (tk : Ticket),
    w.tasks[t]? = some (.worker wk) ∧ wk.peer = k ∧ wk.stage = .leaving reason (.waiting tk)

/-- The peer `k` with the id `id` is registered until it is closed, or its
worker is about to close it. -/
def Retained (w : World) (k : PeerKey) (id : PeerId) : Prop :=
  ∀ p, w.peer? k = some p → 1 ≤ w.registry.arrivals id →
    w.registry.membership.contains id = false → p.closed = true ∨ w.Retires k

variable {w w' : World} {m : Move} {t : TaskKey} {k : PeerKey} {id : PeerId} {tk : Ticket}
  {c : Command} {p q : Peer}

/-- Who asks for the removal of an id is a broadcast that could not write to a
peer with that id, or the worker of such a peer. -/
theorem Means.exists_remover {u : Purpose} {reason : Reason}
    (h : w.Means u (.unregister id reason)) :
    ∃ j p, w.peer? j = some p ∧ p.info.id = id
      ∧ (u = .prune j ∧ reason = .writeFailed ∨ u = .retire j reason) := by
  generalize hc : Command.unregister id reason = c at h
  cases h with
  | survey | enrol _ | count => cases hc
  | prune hp =>
      cases hc
      exact ⟨_, _, hp, rfl, .inl ⟨rfl, rfl⟩⟩
  | retire hp =>
      cases hc
      exact ⟨_, _, hp, rfl, .inr rfl⟩

theorem Means.remover {u : Purpose} {reason : Reason} (h : w.Means u (.unregister id reason))
    (hid : w.Identifies id k) : u = .prune k ∧ reason = .writeFailed ∨ u = .retire k reason := by
  obtain ⟨j, p, hp, hpid, hu⟩ := h.exists_remover
  rwa [hid.only hp hpid] at hu

/-- A worker that waits for the removal of its peer goes on with that, or
has closed the peer. -/
theorem Retires.step (h : w.Retires k) (hstep : MoveStep w m w') (hq : w'.peer? k = some q) :
    q.closed = true ∨ w'.Retires k := by
  obtain ⟨t, wk, reason, tk, ht, hpeer, hstage⟩ := h
  cases hstep.becomes ht with
  | stays _ ht' => exact .inr ⟨t, wk, reason, tk, ht', hpeer, hstage⟩
  | turns _ hturn hw' _ =>
      cases hturn with
      | worker hc hworker =>
          cases hworker with
          | leaves _ _ =>
              rw [hw', peer?_setTask, peer?_closePeer, if_pos hpeer.symm,
                peer?_of_connection hc] at hq
              cases hq
              exact .inl (Peer.closed_close _)
          | registers hstage' _ | starts hstage' _ | drops hstage' _ | quits hstage' _
          | reads hstage' _ _ _ | stops hstage' _ _ _ _ | pauses hstage' _ _ _
          | relays hstage' _ | unregisters hstage' _ => cases hstage.symm.trans hstage'

/-- A member that is removed now was closed before, or its worker has asked
for that. -/
theorem Serves.removed_now (hserves : w.Serves tk c w') (hid : w.Identifies id k)
    (howned : w.Owned fun c => ∀ reason, c ≠ .unregister id reason)
    (hpruned : ∀ {t call}, w.call? t = some (.prune k, call) →
      ∃ p, w.peer? k = some p ∧ p.closed = true)
    (hp : w.peer? k = some p) (hpresent : w.registry.membership.contains id = true)
    (habsent : w'.registry.membership.contains id = false) :
    p.closed = true ∨ w'.Retires k := by
  obtain ⟨rank, hmembership, -⟩ := hserves.applied
  rw [hmembership] at habsent
  cases c with
  | register a =>
      rw [Membership.contains_apply_register, hpresent] at habsent
      simp at habsent
  | snapshot _ | size | contains _ => cases hpresent.symm.trans habsent
  | unregister id' reason =>
      rw [Membership.contains_apply_unregister, hpresent] at habsent
      obtain rfl : id = id' := by simpa using habsent
      rcases howned tk _ hserves.head with hno | ⟨t, u, hcall, hmeans⟩
      · exact absurd rfl (hno reason)
      · rcases hmeans.remover hid with ⟨rfl, -⟩ | rfl
        · obtain ⟨q, hq, hclosed⟩ := hpruned hcall
          cases hq.symm.trans hp
          exact .inl hclosed
        · obtain ⟨wk, ht, hpeer, hstage⟩ := makes_of_call? hcall
          exact .inr ⟨t, wk, reason, tk, hserves.tasks ▸ ht, hpeer, hstage⟩

/-- Who is gone is closed, or about to be closed by its worker. -/
theorem Retained.step (hr : w.Retained k id) (he : w.Enrolment t k id)
    (h : Enrolling w m w' t k id) (howned : w.Owned fun c => ∀ reason, c ≠ .unregister id reason)
    (hpruned : ∀ {t call}, w.call? t = some (.prune k, call) →
      ∃ p, w.peer? k = some p ∧ p.closed = true) : w'.Retained k id := by
  intro q hq hone habsent
  rcases h.step.nothing_or_serves h.serving with hnothing | ⟨tk, c, hserves⟩
  · rw [hnothing.arrivals] at hone
    rw [hnothing.membership] at habsent
    cases hp : w.peer? k with
    | none =>
        -- a peer that was not there was not registered
        have hzero := he.before fun ⟨⟨wk, ht, hpeer⟩, _⟩ => by
          obtain ⟨p, hp'⟩ := h.requests.workers ht
          cases (hpeer ▸ hp').symm.trans hp
        rw [hzero] at hone
        cases hone
    | some p =>
        rcases hr p hp hone habsent with hclosed | hretires
        · obtain ⟨q', hq', hlasts⟩ := h.step.lasts hp
          cases hq'.symm.trans hq
          exact .inl (hlasts.closed hclosed)
        · exact hretires.step h.step hq
  · have hp : w.peer? k = some q := hserves.peers k ▸ hq
    cases hcontains : w.registry.membership.contains id with
    | true => exact hserves.removed_now h.identifies howned hpruned hp hcontains habsent
    | false =>
        have hone₀ : 1 ≤ w.registry.arrivals id := by
          rcases hserves.arrivals id with ⟨hsame, -⟩ | ⟨a, rfl, rfl, -⟩
          · rwa [hsame] at hone
          · obtain ⟨rank, hmembership, -⟩ := hserves.applied
            rw [hmembership, Membership.contains_apply_register] at habsent
            simp at habsent
        exact (hr q hp hone₀ hcontains).imp_right fun ⟨t, wk, reason, tk, ht, hrest⟩ =>
          ⟨t, wk, reason, tk, hserves.tasks ▸ ht, hrest⟩

/-! ## Every world of a run -/

/-- A run in which the peer `k` has the id `id` for itself, and is registered
by nobody but its worker, which is the task `t`. -/
structure Enrols (w₀ : World) (moves : List Move) (t : TaskKey) (k : PeerKey) (id : PeerId) :
    Prop where
  serving : (w₀.run moves).registry.service = .serving
  identifies : (w₀.run moves).Identifies id k
  sole : (w₀.run moves).Sole t k
  alone : ∀ a, .request (.register a) ∈ moves → a.handle ≠ k

section Run

variable {w₀ : World} {moves : List Move}

theorem Enrols.before (h : w₀.Enrols (moves ++ [m]) t k id)
    (hstep : MoveStep (w₀.run moves) m (w₀.run (moves ++ [m]))) : w₀.Enrols moves t k id where
  serving := Registry.serving_of_step hstep.registry h.serving
  identifies := h.identifies.before hstep
  sole := h.sole.before hstep
  alone := fun a ha => h.alone a (List.mem_append_left _ ha)

/-- The last move of such a run. -/
theorem Enrols.enrolling (h : w₀.Enrols (moves ++ [m]) t k id) (h₀ : w₀.IsNew)
    (hmoves : w₀.Permitted moves)
    (hstep : MoveStep (w₀.run moves) m (w₀.run (moves ++ [m]))) :
    Enrolling (w₀.run moves) m (w₀.run (moves ++ [m])) t k id := by
  have hbefore := h.before hstep
  have hrequests := requests_run h₀.requests hmoves
  refine ⟨hstep, hrequests, h.serving, hbefore.identifies, ?_⟩
  intro tk a hmem ha
  have hhandle := hbefore.identifies.handle_eq (hrequests.names hmem) ha
  rcases owned_run h₀ hmoves hbefore.serving tk _ hmem with hout | ⟨t', u, hcall, hmeans⟩
  · exact absurd hhandle (hbefore.alone a hout)
  · obtain rfl := hmeans.enrol_of_register
    rw [hhandle] at hcall
    obtain ⟨wk, ht, hk, -⟩ := makes_of_call? hcall
    rw [← hbefore.sole t' wk ht hk]
    exact hcall

/-- In every world of such a run, the peer was registered once if its worker
is enrolled, and else it was not. -/
theorem enrolment_run (h₀ : w₀.IsNew) (hmoves : w₀.Permitted moves)
    (henrols : w₀.Enrols moves t k id) : (w₀.run moves).Enrolment t k id := by
  revert henrols
  refine run_induction (w := w₀)
    (P := fun moves => w₀.Enrols moves t k id → (w₀.run moves).Enrolment t k id)
    (fun _ => ⟨?_, ?_, ?_⟩) (fun {moves m} hmoves h hstep henrols => ?_) hmoves
  · intro _
    rw [show (w₀.run []).registry = {} from h₀.registry]
    rfl
  · rintro ⟨⟨wk, ht, -⟩, -⟩
    obtain ⟨s, hs⟩ := h₀.tasks ht
    cases hs
  · intro s a hs
    rw [show (w₀.run []).registry = {} from h₀.registry] at hs
    cases hs
  · exact (h (henrols.before hstep)).step (henrols.enrolling h₀ hmoves hstep)

/-- In every world of such a run in which nobody outside removes the peer, it
is registered until it is closed, or its worker is about to close it. -/
theorem retained_run (h₀ : w₀.IsNew) (hmoves : w₀.Permitted moves)
    (henrols : w₀.Enrols moves t k id)
    (hkeeps : ∀ reason, .request (.unregister id reason) ∉ moves) :
    (w₀.run moves).Retained k id := by
  revert henrols hkeeps
  refine run_induction (w := w₀) (P := fun moves => w₀.Enrols moves t k id →
      (∀ reason, .request (.unregister id reason) ∉ moves) → (w₀.run moves).Retained k id)
    (fun _ _ p hp => ?_) (fun {moves m} hmoves h hstep henrols hkeeps => ?_) hmoves
  · cases (h₀.peer? k).symm.trans hp
  · have hbefore := henrols.before hstep
    have hkeeps₀ : ∀ reason, Move.request (.unregister id reason) ∉ moves := fun reason hmem =>
      hkeeps reason (List.mem_append_left _ hmem)
    refine Retained.step (h hbefore hkeeps₀) (enrolment_run h₀ hmoves hbefore)
      (henrols.enrolling h₀ hmoves hstep) ?_ (pruned_run h₀ hmoves)
    intro tk c hmem
    refine (owned_run h₀ hmoves hbefore.serving tk c hmem).imp_left ?_
    rintro hc reason rfl
    exact hkeeps₀ reason hc

end Run

end World

end LineRelay
