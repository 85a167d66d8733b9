/-
# Who is registered

Around one server, a peer is registered by its worker and nobody else,
and it is removed by its worker or by a broadcast that could not write to
it, in whatever order their requests come to be served.  `Roster` follows
each of these requests from when it arises to when it has been served,
while the registry serves and the numbers of the connections differ:

| | |
| :-- | :-- |
| `owned` | a command in the queue that changes anything is someone's request |
| `awaited`, `enrolled` | a peer was registered once, or its worker still waits for that |
| `pruning`, `retiring` | a peer whose removal was served is gone |
| `closed` | a closed peer is gone, or a broadcast waits for its removal |
| `removed` | a peer that is gone is closed, or its worker is about to close it |

When nobody can go on, no request is open, and what is left of these is
that the members are the open peers.
-/
import LineRelay.Proofs.Relay.Staff
import LineRelay.Proofs.Relay.Accounting
import LineRelay.Proofs.Relay.Enrolment

namespace LineRelay

/-! ## The roster -/

/-- What holds of registrations in every world of a run of one server, as
long as the registry serves. -/
structure World.Roster (w : World) : Prop where
  owned : ∀ {tk : Ticket} {c : Command}, (tk, c) ∈ w.registry.queue →
    c.Looks ∨ ∃ t u, w.call? t = some (u, .waiting tk) ∧ w.Means u c
  unknown : ∀ {k : PeerKey}, w.peer? k = none → k < UInt64.size →
    w.registry.arrivals (.ofKey k) = 0
  awaited : ∀ {t : TaskKey} {k : PeerKey} {call : Call}, w.call? t = some (.enrol k, call) →
    w.Pends call → w.registry.arrivals (.ofKey k) = 0
  enrolled : ∀ {k : PeerKey} {p : Peer}, w.peer? k = some p →
    (∀ t call, w.call? t = some (.enrol k, call) → ¬ w.Pends call) →
    w.registry.arrivals (.ofKey k) = 1
  pruning : ∀ {t : TaskKey} {k : PeerKey} {call : Call}, w.call? t = some (.prune k, call) →
    (∃ p, w.peer? k = some p ∧ p.closed = true)
      ∧ (¬ w.Pends call → w.registry.Gone (.ofKey k))
  retiring : ∀ {t : TaskKey} {k : PeerKey} {reason : Reason} {call : Call},
    w.call? t = some (.retire k reason, call) → ¬ w.Pends call → w.registry.Gone (.ofKey k)
  finished : ∀ {t : TaskKey} {wk : Worker} {reason : Reason},
    w.tasks[t]? = some (.worker wk) → wk.stage = .finished reason →
    w.registry.Gone (.ofKey wk.peer) ∧ ∃ p, w.peer? wk.peer = some p ∧ p.closed = true
  closed : ∀ {k : PeerKey} {p : Peer}, w.peer? k = some p → p.closed = true →
    1 ≤ w.registry.arrivals (.ofKey k)
      ∧ (w.registry.Gone (.ofKey k) ∨ ∃ t call, w.call? t = some (.prune k, call) ∧ w.Pends call)
  removed : ∀ {k : PeerKey} {p : Peer}, w.peer? k = some p →
    1 ≤ w.registry.arrivals (.ofKey k) → w.registry.membership.contains (.ofKey k) = false →
    p.closed = true ∨ w.Retires k

/-- A move of a run of one server, up to which the registry serves. -/
structure ServingStep (w : World) (m : Move) (w' : World) : Prop where
  step : MoveStep w m w'
  hosted : m.Hosted
  staff : w.Staffed
  staff' : w'.Staffed
  requests : w.Requests
  requests' : w'.Requests
  serving : w'.registry.service = .serving

namespace ServingStep

variable {w w' : World} {m : Move} {t : TaskKey} {k j : PeerKey} {p : Peer} {tk : Ticket}
  {c : Command} {u : Purpose} {call : Call}

theorem serving₀ (h : ServingStep w m w') : w.registry.service = .serving :=
  Registry.serving_of_step h.step.registry h.serving

theorem pends_next (h : ServingStep w m w') (hnothing : w.ServesNothing w') :
    w'.Pends (.waiting w.registry.nextTicket) := hnothing.pends_next h.requests

theorem means_head (h : ServingStep w m w') (hserves : w.Serves tk c w')
    (hcall : w.call? t = some (u, .waiting tk)) : w.Means u c := hserves.means h.requests hcall

/-- A removal whose request is served is done, if the peer was registered. -/
theorem gone_step (h : ServingStep w m w')
    (hu : u = .prune k ∨ ∃ reason, u = .retire k reason)
    (hgone : ∀ {call}, w.call? t = some (u, call) → ¬ w.Pends call → w.registry.Gone (.ofKey k))
    (hone : ∀ {call}, w.call? t = some (u, call) → 1 ≤ w.registry.arrivals (.ofKey k))
    (hcall : w'.call? t = some (u, call)) (hserved : ¬ w'.Pends call) :
    w'.registry.Gone (.ofKey k) := by
  rcases h.step.nothing_or_serves h.serving with hnothing | ⟨tk, c, hserves⟩
  · rw [hnothing.gone_iff]
    cases h.step.call t with
    | stays hsame =>
        exact hgone (hsame ▸ hcall) fun hpends => hserved ((hnothing.pends_iff _).2 hpends)
    | begins _ hafter _ _ =>
        cases hafter.symm.trans hcall
        exact absurd trivial hserved
    | ends _ hnone => cases hnone.symm.trans hcall
    | enters _ hafter _ _ =>
        cases hafter.symm.trans hcall
        exact absurd (h.pends_next hnothing) hserved
  · have hcall₀ := (hserves.call? t).symm.trans hcall
    by_cases hpends : w.Pends call
    · obtain rfl := hserves.eq_waiting hpends hserved
      obtain ⟨rank, hmembership, hevents⟩ := hserves.applied
      have hunregister : ∃ reason, c = .unregister (.ofKey k) reason := by
        have hmeans := h.means_head hserves hcall₀
        rcases hu with rfl | ⟨reason, rfl⟩
        · cases hmeans with
          | prune hp => exact ⟨_, by rw [(h.staff.peers hp).1]⟩
        · cases hmeans with
          | retire hp => exact ⟨_, by rw [(h.staff.peers hp).1]⟩
      obtain ⟨reason, rfl⟩ := hunregister
      have hone := hone hcall₀
      refine .inl ⟨?_, ?_⟩
      · rw [hmembership, Membership.contains_apply_unregister]
        simp
      · rw [Registry.arrivals] at hone ⊢
        rw [hevents, List.countP_append]
        omega
    · exact (hgone hcall₀ hpends).step h.step.registry

end ServingStep

namespace World.Roster

variable {w w' : World} {m : Move} {t : TaskKey} {k : PeerKey} {p q : Peer} {tk : Ticket}
  {c : Command} {u : Purpose} {call : Call}

/-! ### Removals -/

theorem pruning_step (hr : w.Roster) (h : ServingStep w m w')
    (hcall : w'.call? t = some (.prune k, call)) (hserved : ¬ w'.Pends call) :
    w'.registry.Gone (.ofKey k) := by
  refine h.gone_step (.inl rfl) (fun hcall => (hr.pruning hcall).2) ?_ hcall hserved
  intro call hcall
  obtain ⟨⟨p, hp, hclosed⟩, -⟩ := hr.pruning hcall
  exact (hr.closed hp hclosed).1

theorem retiring_step (hr : w.Roster) (h : ServingStep w m w') {reason : Reason}
    (hcall : w'.call? t = some (.retire k reason, call)) (hserved : ¬ w'.Pends call) :
    w'.registry.Gone (.ofKey k) := by
  refine h.gone_step (.inr ⟨reason, rfl⟩) hr.retiring ?_ hcall hserved
  intro call hcall
  -- the worker has done with its registration
  obtain ⟨wk, ht, hpeer, hstage⟩ := makes_of_call? hcall
  obtain ⟨p, hp⟩ := h.requests.workers ht
  refine (hr.enrolled (hpeer ▸ hp) ?_).ge
  intro t₁ call₁ hcall₁
  obtain ⟨wk₁, ht₁, hpeer₁, hstage₁⟩ := makes_of_call? hcall₁
  obtain rfl := h.staff.sole ht ht₁ (hpeer.trans hpeer₁.symm)
  cases ht.symm.trans ht₁
  cases hstage.symm.trans hstage₁

/-! ### Closing -/

theorem finished_step (hr : w.Roster) (h : ServingStep w m w') {wk' : Worker} {reason : Reason}
    (ht : w'.tasks[t]? = some (.worker wk')) (hstage : wk'.stage = .finished reason) :
    w'.registry.Gone (.ofKey wk'.peer) ∧ ∃ q, w'.peer? wk'.peer = some q ∧ q.closed = true := by
  cases h.step.worker h.hosted.orderly ht with
  | stays _ ht₀ =>
      obtain ⟨hgone, p, hp, hclosed⟩ := hr.finished ht₀ hstage
      obtain ⟨q, hq, hlasts⟩ := h.step.lasts hp
      exact ⟨hgone.step h.step.registry, q, hq, hlasts.closed hclosed⟩
  | comes _ _ _ hwk =>
      rw [← hwk] at hstage
      cases hstage
  | @steps wk c w₁ _ ht₀ hc hworker hw' =>
      have hpeer := peer?_of_connection hc
      cases hworker with
      | @leaves reason tk answer hleaving hanswer =>
          have hcall := call?_leaving ht₀ hleaving
          have hserved := h.requests.not_pends h.serving₀ hcall
            (hcall ▸ released_waiting hanswer)
          refine ⟨(hr.retiring hcall hserved).step h.step.registry, c.peer.close.1, ?_,
            Peer.closed_close _⟩
          rw [hw', peer?_setTask, peer?_closePeer, if_pos rfl, hpeer]
          rfl
      | @drops tk e hregistering hanswer =>
          -- a registry that serves replies
          obtain ⟨c', -, hholds⟩ := h.requests.waiting (call?_registering ht₀ hregistering)
          rcases hholds.answer hanswer with ⟨reply, hreply, -⟩ | ⟨hservice, -⟩
          · cases hreply
          · exact absurd h.serving₀ hservice
      | registers _ _ | starts _ _ | quits _ _ | reads _ _ _ _ | stops _ _ _ _ _
      | unregisters _ _ => cases hstage
      | pauses hreading _ _ _ => cases hreading.symm.trans hstage
      | relays _ _ =>
          simp only at hstage
          split_ifs at hstage

/-- A peer that is closed is gone, or its removal is on its way. -/
theorem closed_step (hr : w.Roster) (h : ServingStep w m w')
    (hlisted : ∀ {t k call}, w'.call? t = some (.prune k, call) →
      1 ≤ w'.registry.arrivals (.ofKey k))
    (hq : w'.peer? k = some q) (hclosed : q.closed = true) :
    1 ≤ w'.registry.arrivals (.ofKey k)
      ∧ (w'.registry.Gone (.ofKey k)
        ∨ ∃ t call, w'.call? t = some (.prune k, call) ∧ w'.Pends call) := by
  -- the removal that a broadcast asks for is done, or on its way
  have hprune : ∀ {t call}, w'.call? t = some (.prune k, call) →
      w'.registry.Gone (.ofKey k)
        ∨ ∃ t call, w'.call? t = some (.prune k, call) ∧ w'.Pends call := by
    intro t call hcall
    by_cases hpends : w'.Pends call
    · exact .inr ⟨t, call, hcall, hpends⟩
    · exact .inl (hr.pruning_step h hcall hpends)
  cases h.step.peer h.hosted hq with
  | comes _ _ _ _ hnew =>
      rw [hnew] at hclosed
      cases hclosed
  | closes _ _ _ _ _ hcloses =>
      cases hcloses with
      | @prunes b c rest hb hstage =>
          have hcall := (call?_of_broadcast? hb).trans (Broadcast.call?_pruning hstage)
          exact ⟨hlisted hcall, hprune hcall⟩
      | leaves ht hpeer hstage =>
          obtain ⟨hgone, -⟩ := hr.finished_step h ht hstage
          rw [hpeer] at hgone
          exact ⟨hgone.elim And.right (Nat.le_of_succ_le ·), .inl hgone⟩
  | stays hp hsame _ =>
      obtain ⟨hone, hgone⟩ := hr.closed hp (hsame ▸ hclosed)
      refine ⟨hone.trans (Registry.arrivals_le_step h.step.registry _), ?_⟩
      rcases hgone with hgone | ⟨t, call, hcall, hpends⟩
      · exact .inl (hgone.step h.step.registry)
      · cases h.step.call t with
        | stays hsame => exact hprune (hsame.trans hcall)
        | begins hfree _ _ _ => exact absurd hpends (h.requests.not_pends h.serving₀ hcall hfree)
        | ends hfree _ => exact absurd hpends (h.requests.not_pends h.serving₀ hcall hfree)
        | enters hbefore hafter _ _ =>
            cases hbefore.symm.trans hcall
            exact hprune hafter

end World.Roster

/-! ## Every world of a run -/

/-- Connections stay. -/
theorem MoveStep.length_connections {w w' : World} {m : Move} (h : MoveStep w m w')
    (hm : m.Hosted) : w.connections.length ≤ w'.connections.length := by
  rcases h.accepts hm.orderly with hsame | ⟨t, -, haccepts⟩
  · exact hsame.ge
  · cases haccepts with
    | intro _ _ _ _ =>
        show w.connections.length ≤ (w.connections ++ [_]).length
        simp

namespace World

variable {listen : String} {maxLine : Option UInt64} {interval : Nat} {moves : List Move}

/-- A peer that a broadcast removes has been registered: it was listed. -/
theorem listed_run {w₀ : World} (h₀ : w₀.IsNew) (hmoves : w₀.Permitted moves) {t : TaskKey}
    {k : PeerKey} {call : Call} (hcall : (w₀.run moves).call? t = some (.prune k, call)) :
    ∃ p, (w₀.run moves).peer? k = some p ∧ 1 ≤ (w₀.run moves).registry.arrivals p.info.id := by
  obtain ⟨b, rest, hb, hstage⟩ := makes_of_call? hcall
  have hadvances := advances_run h₀ hmoves hb
  have htarget : k ∈ b.targets := by
    rw [hadvances.split]
    exact List.mem_append_left _ ((accounted_run h₀ hmoves hb).pruning hstage)
  rcases hadvances.surveyed (by simp [hstage]) with ⟨hsurveyed, -⟩ | ⟨hfinished, -⟩
  · exact hsurveyed.registered h₀ hmoves htarget
  · cases hstage.symm.trans hfinished

theorem arrivals_of_prune (hmoves : ∀ m ∈ moves, m.Hosted) {t : TaskKey} {k : PeerKey} {call : Call}
    (hcall : ((hosting listen maxLine interval).run moves).call? t = some (.prune k, call)) :
    1 ≤ ((hosting listen maxLine interval).run moves).registry.arrivals (.ofKey k) := by
  obtain ⟨p, hp, hone⟩ :=
    listed_run (isNew_hosting listen maxLine interval) (permitted_of_hosted hmoves _) hcall
  rwa [((staffed_run hmoves).peers hp).1] at hone

theorem roster_hosting (listen : String) (maxLine : Option UInt64) (interval : Nat) :
    (hosting listen maxLine interval).Roster := by
  have h₀ := isNew_hosting listen maxLine interval
  have hnobody : ∀ {k : PeerKey} {p : Peer},
      (hosting listen maxLine interval).peer? k ≠ some p := fun hp => by cases hp
  have hcall : ∀ {t : TaskKey} {x : Purpose × Call},
      (hosting listen maxLine interval).call? t ≠ some x := by
    intro t x h
    cases (h₀.call? _).symm.trans h
  refine ⟨?_, fun _ _ => rfl, fun h => absurd h hcall, fun hp => absurd hp hnobody,
    fun h => absurd h hcall, fun h => absurd h hcall, ?_, fun hp => absurd hp hnobody,
    fun hp => absurd hp hnobody⟩
  · intro tk c hmem
    cases hmem
  · intro t wk reason ht
    obtain ⟨s, hs⟩ := h₀.tasks ht
    cases hs

/-- While no number is given twice, the number of a connection is its own. -/
theorem identifies_hosted (hmoves : ∀ m ∈ moves, m.Hosted)
    (hsize : ((hosting listen maxLine interval).run moves).connections.length ≤ UInt64.size)
    {k : PeerKey} (hk : k < UInt64.size) :
    ((hosting listen maxLine interval).run moves).Identifies (.ofKey k) k where
  own := fun hp => ((staffed_run hmoves).peers hp).1
  only := by
    intro j p hp hid
    have hj := (lt_length_of_peer? hp).trans_le hsize
    exact PeerId.ofKey_inj hj hk (((staffed_run hmoves).peers hp).1.symm.trans hid)

section Registrations

variable (hmoves : ∀ m ∈ moves, m.Hosted)
  (hserving : ((hosting listen maxLine interval).run moves).registry.service = .serving)
  (hsize : ((hosting listen maxLine interval).run moves).connections.length ≤ UInt64.size)

include hmoves hserving

theorem owned_hosted {tk : Ticket} {c : Command}
    (hmem : (tk, c) ∈ ((hosting listen maxLine interval).run moves).registry.queue) :
    c.Looks ∨ ∃ t u, ((hosting listen maxLine interval).run moves).call? t = some (u, .waiting tk)
      ∧ ((hosting listen maxLine interval).run moves).Means u c :=
  (owned_run (isNew_hosting _ _ _) (permitted_of_hosted hmoves _) hserving tk c hmem).imp_left
    fun hc => hmoves (.request c) hc

/-- Nobody but its worker registers a connection. -/
theorem enrols_hosted {t : TaskKey} {k : PeerKey} {id : PeerId}
    (hid : ((hosting listen maxLine interval).run moves).Identifies id k)
    (hsole : ((hosting listen maxLine interval).run moves).Sole t k) :
    (hosting listen maxLine interval).Enrols moves t k id :=
  ⟨hserving, hid, hsole, fun _ ha => False.elim (hmoves _ ha)⟩

include hsize

theorem enrolment_hosted {t : TaskKey} {k : PeerKey} (hk : k < UInt64.size)
    (hsole : ((hosting listen maxLine interval).run moves).Sole t k) :
    ((hosting listen maxLine interval).run moves).Enrolment t k (.ofKey k) :=
  enrolment_run (isNew_hosting _ _ _) (permitted_of_hosted hmoves _)
    (enrols_hosted hmoves hserving (identifies_hosted hmoves hsize hk) hsole)

theorem unknown_hosted {k : PeerKey}
    (hnone : ((hosting listen maxLine interval).run moves).peer? k = none)
    (hk : k < UInt64.size) :
    ((hosting listen maxLine interval).run moves).registry.arrivals (.ofKey k) = 0 := by
  have hnobody : ∀ {t : TaskKey} {wk : Worker},
      ((hosting listen maxLine interval).run moves).tasks[t]? = some (.worker wk) →
      wk.peer ≠ k := by
    rintro t wk ht rfl
    obtain ⟨p, hp⟩ := (requests_run (isNew_hosting _ _ _).requests
      (permitted_of_hosted hmoves _)).workers ht
    cases hp.symm.trans hnone
  refine (enrolment_hosted hmoves hserving hsize (t := 0) hk
    fun t wk ht hpeer => absurd hpeer (hnobody ht)).before ?_
  rintro ⟨⟨wk, ht, hpeer⟩, -⟩
  exact hnobody ht hpeer

theorem awaited_hosted {t : TaskKey} {k : PeerKey} {call : Call}
    (hcall : ((hosting listen maxLine interval).run moves).call? t = some (.enrol k, call))
    (hpends : ((hosting listen maxLine interval).run moves).Pends call) :
    ((hosting listen maxLine interval).run moves).registry.arrivals (.ofKey k) = 0 := by
  obtain ⟨wk, ht, rfl, -⟩ := makes_of_call? hcall
  obtain ⟨p, hp⟩ := (requests_run (isNew_hosting _ _ _).requests
    (permitted_of_hosted hmoves _)).workers ht
  exact (enrolment_hosted hmoves hserving hsize ((lt_length_of_peer? hp).trans_le hsize)
    fun t' wk' ht' hpeer => (staffed_run hmoves).sole ht' ht hpeer).before
      fun henrolled => henrolled.done hcall hpends

theorem enrolled_hosted {k : PeerKey} {p : Peer}
    (hp : ((hosting listen maxLine interval).run moves).peer? k = some p)
    (hdone : ∀ t call,
      ((hosting listen maxLine interval).run moves).call? t = some (.enrol k, call) →
      ¬ ((hosting listen maxLine interval).run moves).Pends call) :
    ((hosting listen maxLine interval).run moves).registry.arrivals (.ofKey k) = 1 := by
  obtain ⟨t, wk, ht, hpeer⟩ := (staffed_run hmoves).hired hp
  exact (enrolment_hosted hmoves hserving hsize ((lt_length_of_peer? hp).trans_le hsize)
    fun t' wk' ht' hpeer' => (staffed_run hmoves).sole ht' ht (hpeer'.trans hpeer.symm)).after
      ⟨⟨wk, ht, hpeer⟩, fun hcall => hdone t _ hcall⟩

theorem removed_hosted {k : PeerKey} {p : Peer}
    (hp : ((hosting listen maxLine interval).run moves).peer? k = some p)
    (hone : 1 ≤ ((hosting listen maxLine interval).run moves).registry.arrivals (.ofKey k))
    (habsent : ((hosting listen maxLine interval).run moves).registry.membership.contains (.ofKey k)
      = false) :
    p.closed = true ∨ ((hosting listen maxLine interval).run moves).Retires k := by
  obtain ⟨t, wk, ht, hpeer⟩ := (staffed_run hmoves).hired hp
  refine retained_run (isNew_hosting _ _ _) (permitted_of_hosted hmoves _)
    (enrols_hosted hmoves hserving
      (identifies_hosted hmoves hsize ((lt_length_of_peer? hp).trans_le hsize))
      fun t' wk' ht' hpeer' => (staffed_run hmoves).sole ht' ht (hpeer'.trans hpeer.symm))
    ?_ p hp hone habsent
  exact fun reason hmem => hmoves _ hmem

end Registrations

/-- In every world of a run of one server, while the registry serves and
the numbers of the connections differ, the roster is as it should be. -/
theorem roster_run (hmoves : ∀ m ∈ moves, m.Hosted)
    (hserving : ((hosting listen maxLine interval).run moves).registry.service = .serving)
    (hsize : ((hosting listen maxLine interval).run moves).connections.length ≤ UInt64.size) :
    ((hosting listen maxLine interval).run moves).Roster := by
  have h₀ := isNew_hosting listen maxLine interval
  revert hserving hsize
  refine hosted_induction (w := hosting listen maxLine interval)
    (P := fun moves =>
      ((hosting listen maxLine interval).run moves).registry.service = .serving →
      ((hosting listen maxLine interval).run moves).connections.length ≤ UInt64.size →
      ((hosting listen maxLine interval).run moves).Roster)
    (fun _ _ => roster_hosting _ _ _)
    (fun {moves m} hmoves hm h hstep hserving hsize => ?_) hmoves
  have hmoves' := hosted_concat hmoves hm
  have hscene : ServingStep _ m _ := ⟨hstep, hm, staffed_run hmoves, staffed_run hmoves',
    requests_run h₀.requests (permitted_of_hosted hmoves _),
    requests_run h₀.requests (permitted_of_hosted hmoves' _), hserving⟩
  have hr := h hscene.serving₀ ((hstep.length_connections hm).trans hsize)
  exact {
    owned := owned_hosted hmoves' hserving
    unknown := unknown_hosted hmoves' hserving hsize
    awaited := awaited_hosted hmoves' hserving hsize
    enrolled := enrolled_hosted hmoves' hserving hsize
    pruning := fun hcall =>
      ⟨pruned_run h₀ (permitted_of_hosted hmoves' _) hcall, hr.pruning_step hscene hcall⟩
    retiring := hr.retiring_step hscene
    finished := hr.finished_step hscene
    closed := hr.closed_step hscene (arrivals_of_prune hmoves')
    removed := removed_hosted hmoves' hserving hsize }

end World

end LineRelay
