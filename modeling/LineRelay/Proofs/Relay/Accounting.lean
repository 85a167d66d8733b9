/-
# What a broadcast reports is what happened

When a broadcast is over, the peers that its survey listed fall into three
parts, by how the one send to each of them ended:

| send | then the peer |
| :-- | :-- |
| sent | was given the wire, all of it and nothing beside it, and flushed |
| failed | is closed, and absent from the registry |
| closed | is closed |

and the report counts the first two.  `Took` says what it is to be given
the wire: there is a stretch of the run in which the broadcast has the
outlet, alone, from the turn at which it is handed it to the turn at which
the flush succeeds, and the transport received nothing else in it.
-/
import LineRelay.Proofs.Relay.Surveys

namespace LineRelay

/-! ## Having an outlet -/

/-- After `pre`, the run has a stretch `mid` that begins with the turn at
which a broadcast of the task `t` takes the outlet of the peer `k`, which
is `p` by then; until the stretch is over the outlet is the task's. -/
structure Tenure (w₀ : World) (pre mid : List Move) (t : TaskKey) (serial : Nat) (k : PeerKey)
    (wire : Bytes) (p : Peer) : Prop where
  opens : ∃ b state rest, (w₀.run pre).broadcast? t = some b ∧ b.serial = serial
    ∧ b.stage = .sending k state rest ∧ (state = .fresh wire ∨ state = .queued wire)
  came : (w₀.run pre).peer? k = some p
  starts : ∃ rest, mid = .turn t :: rest
  alone : ∀ {mid₁ mid₂}, mid = mid₁ ++ mid₂ → mid₁ ≠ [] → mid₂ ≠ [] →
    ∃ q, (w₀.run (pre ++ mid₁)).peer? k = some q ∧ q.senders.head? = some t

/-- In the course of the run a broadcast of the task `t` had the outlet of
the peer `k`, and its wire went out in one block, behind what stood in the
buffer before it, and was flushed. -/
def Took (w₀ : World) (moves : List Move) (t : TaskKey) (serial : Nat) (k : PeerKey)
    (wire : Bytes) : Prop :=
  ∃ pre mid post p q, moves = pre ++ mid ++ .turn t :: post
    ∧ Tenure w₀ pre (mid ++ [.turn t]) t serial k wire p
    ∧ (w₀.run (pre ++ (mid ++ [.turn t]))).peer? k = some q
    ∧ q.received = p.received ++ (p.outlet.buffer ++ wire)
    ∧ q.outlet.buffer = [] ∧ q.flushed = p.flushed + 1 ∧ q.AllFlushed

/-- The broadcast has the outlet, and this much of its wire went out. -/
def Underway (w₀ : World) (moves : List Move) (w : World) (t : TaskKey) (serial : Nat)
    (k : PeerKey) (wire : Bytes) (stage : SendStage) : Prop :=
  ∃ pre mid p q, moves = pre ++ mid ∧ Tenure w₀ pre mid t serial k wire p
    ∧ w.peer? k = some q
    ∧ q.received ++ q.toGo (.writing stage) = p.received ++ (p.outlet.buffer ++ wire)
    ∧ q.flushed = p.flushed

section Tenure

variable {w₀ w' : World} {pre mid moves : List Move} {t : TaskKey} {serial : Nat} {k : PeerKey}
  {wire : Bytes} {p q : Peer} {m : Move} {stage : SendStage}

theorem Tenure.begin {b : Broadcast} {state : SendState} {rest : List PeerKey}
    (hb : (w₀.run moves).broadcast? t = some b) (hstage : b.stage = .sending k state rest)
    (hwire : state = .fresh wire ∨ state = .queued wire)
    (hp : (w₀.run moves).peer? k = some p) :
    Tenure w₀ moves [.turn t] t b.serial k wire p where
  opens := ⟨b, state, rest, hb, rfl, hstage, hwire⟩
  came := hp
  starts := ⟨[], rfl⟩
  alone := by
    intro mid₁ mid₂ hsplit hne hne'
    have := congrArg List.length hsplit
    have := List.length_pos_iff.2 hne
    have := List.length_pos_iff.2 hne'
    simp only [List.length_append, List.length_cons, List.length_nil] at *
    omega

/-- A tenure goes on as long as the sender is the first. -/
theorem Tenure.extend (h : Tenure w₀ pre mid t serial k wire p)
    (hq : (w₀.run (pre ++ mid)).peer? k = some q) (hhead : q.senders.head? = some t) (m : Move) :
    Tenure w₀ pre (mid ++ [m]) t serial k wire p where
  opens := h.opens
  came := h.came
  starts := by
    obtain ⟨rest, hmid⟩ := h.starts
    exact ⟨rest ++ [m], by rw [hmid]; rfl⟩
  alone := by
    intro mid₁ mid₂ hsplit hne hne'
    obtain ⟨front, last, rfl⟩ : ∃ front last, mid₂ = front ++ [last] :=
      ⟨_, _, (List.dropLast_append_getLast hne').symm⟩
    rw [← List.append_assoc] at hsplit
    obtain ⟨hmid, -⟩ := List.append_inj' hsplit rfl
    rcases eq_or_ne front [] with rfl | hfront
    · rw [List.append_nil] at hmid
      exact hmid ▸ ⟨q, hq, hhead⟩
    · exact h.alone hmid hne hfront

theorem Took.extend (h : Took w₀ moves t serial k wire) (m : Move) :
    Took w₀ (moves ++ [m]) t serial k wire := by
  obtain ⟨pre, mid, post, p, q, rfl, hrest⟩ := h
  exact ⟨pre, mid, post ++ [m], p, q, by simp, hrest⟩

end Tenure

/-! ## What came of the attempts -/

/-- The attempt came to what its outcome says, up to the removal that the
broadcast is still at. -/
def Settled (w₀ : World) (moves : List Move) (w : World) (t : TaskKey) (b : Broadcast)
    (a : Attempt) : Prop :=
  match a.outcome with
  | .sent => Took w₀ moves t b.serial a.peer b.line.toWire
  | .closed => ∃ p, w.peer? a.peer = some p ∧ p.isClosed w.shutdown = true
  | .failed _ => ∃ p, w.peer? a.peer = some p ∧ p.closed = true
      ∧ (w.registry.service = .serving →
          w.registry.Gone p.info.id ∨ ∃ call rest, b.stage = .pruning a.peer call rest)

/-- What holds of the broadcast `b` of the task `t` beside `Advances`. -/
structure Accounted (w₀ : World) (moves : List Move) (w : World) (t : TaskKey) (b : Broadcast) :
    Prop where
  settled : ∀ a ∈ b.attempts, Settled w₀ moves w t b a
  underway : ∀ {k stage rest}, b.stage = .sending k (.writing stage) rest →
    Underway w₀ moves w t b.serial k b.line.toWire stage
  pruning : ∀ {k call rest}, b.stage = .pruning k call rest → k ∈ b.attempts.map (·.peer)
  removed : ∀ {k tk rest}, b.stage = .pruning k (.waiting tk) rest →
    ∀ s ∈ w.registry.served, s.ticket = tk →
      ∃ p, w.peer? k = some p ∧ w.registry.Gone p.info.id

section Accounted

variable {w₀ w w' w₁ : World} {moves : List Move} {m : Move} {t : TaskKey} {b b' : Broadcast}
  {a : Attempt}

/-- How often an id was registered only grows. -/
theorem arrivals_run {pre post : List Move} (h : w₀.Permitted (pre ++ post)) (id : PeerId) :
    (w₀.run pre).registry.arrivals id ≤ (w₀.run (pre ++ post)).registry.arrivals id :=
  World.run_extends (R := fun w w' => w.registry.arrivals id ≤ w'.registry.arrivals id)
    (fun _ => Nat.le_refl _) Nat.le_trans
    (fun hstep => Registry.arrivals_le_step hstep.registry id) h

/-- A target of a broadcast has been registered. -/
theorem Surveyed.registered (h₀ : w₀.IsNew) (hmoves : w₀.Permitted moves)
    (h : Surveyed w₀ moves t b) {k : PeerKey} (hk : k ∈ b.targets) :
    ∃ p, (w₀.run moves).peer? k = some p ∧ 1 ≤ (w₀.run moves).registry.arrivals p.info.id := by
  obtain ⟨pre, rank, post, rfl, hsurvey⟩ := h
  have hw := World.requests_run h₀.requests hmoves.of_append
  obtain ⟨a, ha, -, rfl⟩ := hsurvey.mem_targets.1 hk
  obtain ⟨p, hp, hinfo⟩ := Option.map_eq_some_iff.1 (hw.names_member ha)
  obtain ⟨q, hq, hlasts⟩ := World.lasts_run hmoves hp
  refine ⟨q, hq, ?_⟩
  have hcontains : (w₀.run pre).registry.membership.contains a.info.id = true :=
    Membership.contains_iff.2 ⟨a, ha, rfl⟩
  have hbalance := hw.balanced hsurvey.serving a.info.id
  rw [hcontains, if_pos rfl] at hbalance
  have := arrivals_run hmoves a.info.id
  rw [hlasts.info, hinfo]
  omega

theorem Settled.step (h : Settled w₀ moves w t b a) (hstep : MoveStep w m w')
    (hserial : b'.serial = b.serial) (hline : b'.line = b.line)
    (hstage : w'.registry.service = .serving → ∀ call rest, b.stage = .pruning a.peer call rest →
      (∃ p, w'.peer? a.peer = some p ∧ w'.registry.Gone p.info.id)
        ∨ ∃ call rest, b'.stage = .pruning a.peer call rest) :
    Settled w₀ (moves ++ [m]) w' t b' a := by
  unfold Settled at *
  cases houtcome : a.outcome with
  | sent =>
      simp only [houtcome] at h ⊢
      rw [hserial, hline]
      exact h.extend m
  | closed =>
      simp only [houtcome] at h ⊢
      obtain ⟨p, hp, hclosed⟩ := h
      obtain ⟨q, hq, hlasts⟩ := hstep.lasts hp
      exact ⟨q, hq, hlasts.isClosed hstep.shutdown hclosed⟩
  | failed f =>
      simp only [houtcome] at h ⊢
      obtain ⟨p, hp, hclosed, hgone⟩ := h
      obtain ⟨q, hq, hlasts⟩ := hstep.lasts hp
      refine ⟨q, hq, hlasts.closed hclosed, ?_⟩
      intro hserving
      rcases hgone (Registry.serving_of_step hstep.registry hserving) with hgone | ⟨call, rest, hb⟩
      · exact .inl (hlasts.info ▸ hgone.step hstep.registry)
      · rcases hstage hserving call rest hb with ⟨r, hr, hgone⟩ | hb'
        · cases hr.symm.trans hq
          exact .inl hgone
        · exact .inr hb'

theorem Accounted.begin (hb : b = .begin b.serial b.sender b.line) : Accounted w₀ moves w t b := by
  rw [hb]
  exact ⟨fun _ ha => absurd ha List.not_mem_nil, BroadcastStage.noConfusion,
    BroadcastStage.noConfusion, BroadcastStage.noConfusion⟩

/-- Serving the removal of a peer that was registered makes it gone. -/
theorem MoveStep.gone (hstep : MoveStep w m w') {s : Served} {id : PeerId} {reason : Reason}
    (hs : s ∈ w'.registry.served) (hnew : s ∉ w.registry.served)
    (hcommand : s.command = .unregister id reason) (hone : 1 ≤ w.registry.arrivals id) :
    w'.registry.Gone id := by
  have hregistry := hstep.registry
  generalize w'.registry = r at hregistry hs
  cases hregistry with
  | keeps | takes _ | drops _ _ | stops => exact absurd hs hnew
  | serves _ _ =>
      rcases List.mem_append.1 hs with hs | hs
      · exact absurd hs hnew
      · obtain rfl := List.mem_singleton.1 hs
        subst hcommand
        exact Registry.gone_of_unregister hone

/-- A broadcast that took no turn. -/
theorem Accounted.stay (h₀ : w₀.IsNew) (hmoves : w₀.Permitted moves)
    (h : Accounted w₀ moves (w₀.run moves) t b) (hadvances : Advances w₀ moves (w₀.run moves) t b)
    (hb : (w₀.run moves).broadcast? t = some b) (hstep : MoveStep (w₀.run moves) m w')
    (hidle : m = .turn t → w' = w₀.run moves) : Accounted w₀ (moves ++ [m]) w' t b where
  settled := fun a ha => (h.settled a ha).step hstep rfl rfl fun _ call rest hstage =>
    .inr ⟨call, rest, hstage⟩
  underway := by
    intro k stage rest hstage
    have hlocks := World.locks_run h₀.locks hmoves
    have hat : (w₀.run moves).at? t = some (k, .writing stage) := by
      rw [World.at?_of_broadcast? hb, Broadcast.at?_sending hstage]
      rfl
    obtain ⟨pre, mid, p, q, rfl, htenure, hq, hreceived, hflushed⟩ := h.underway hstage
    obtain ⟨q', hq', hreceived', hbuffer', hflushed'⟩ := hlocks.undisturbed hstep hidle hat hq
    refine ⟨pre, mid ++ [m], p, q', (List.append_assoc _ _ _),
      htenure.extend hq ((hlocks.queued hq).first hat).1 m, hq', ?_, hflushed'.trans hflushed⟩
    rw [hreceived', Peer.toGo_congr hbuffer', hreceived]
  pruning := h.pruning
  removed := by
    intro k tk rest hstage s hs hticket
    by_cases hold : s ∈ (w₀.run moves).registry.served
    · obtain ⟨p, hp, hgone⟩ := h.removed hstage s hold hticket
      obtain ⟨q, hq, hlasts⟩ := hstep.lasts hp
      exact ⟨q, hq, hlasts.info ▸ hgone.step hstep.registry⟩
    · have hw := World.requests_run h₀.requests hmoves
      obtain ⟨c, hmeans, hholds⟩ := hw.waiting
        ((World.call?_of_broadcast? hb).trans (Broadcast.call?_pruning hstage))
      have hcommand : s.command = c := by
        rcases hstep.registryChange.served hs with hs | ⟨-, -, -, hhead, -⟩
        · exact absurd hs hold
        · rw [hticket] at hhead
          exact hholds.queue (List.mem_of_head? hhead)
      have hk : k ∈ b.targets := by
        rw [hadvances.split]
        exact List.mem_append_left _ (h.pruning hstage)
      obtain ⟨hsurveyed, -⟩ : Surveyed w₀ moves t b ∧ _ :=
        (hadvances.surveyed (by simp [hstage])).resolve_right (by simp [hstage])
      obtain ⟨p, hp, hone⟩ := hsurveyed.registered h₀ hmoves hk
      obtain rfl := (World.Means.prune hp).unique hmeans
      obtain ⟨q, hq, hlasts⟩ := hstep.lasts hp
      exact ⟨q, hq, hlasts.info ▸ hstep.gone hs hold hcommand hone⟩

/-- What a broadcast that is about to take a turn of its send to `k` has
given the transport, since it has the outlet or if it takes it now. -/
theorem Accounted.exists_tenure (h₀ : w₀.IsNew) (hmoves : w₀.Permitted moves)
    (h : Accounted w₀ moves (w₀.run moves) t b) (hadvances : Advances w₀ moves (w₀.run moves) t b)
    (hb : (w₀.run moves).broadcast? t = some b) {k : PeerKey} {state : SendState}
    {rest : List PeerKey} {p : Peer} (hstage : b.stage = .sending k state rest)
    (hstate : ∀ outcome, state ≠ .ended outcome) (hp : (w₀.run moves).peer? k = some p) :
    ∃ pre mid q, moves = pre ++ mid
      ∧ Tenure w₀ pre (mid ++ [.turn t]) t b.serial k b.line.toWire q
      ∧ p.received ++ p.toGo state = q.received ++ (q.outlet.buffer ++ b.line.toWire)
      ∧ p.flushed = q.flushed := by
  have hbegin : ∀ wire, state = .fresh wire ∨ state = .queued wire →
      ∃ pre mid q, moves = pre ++ mid
        ∧ Tenure w₀ pre (mid ++ [.turn t]) t b.serial k b.line.toWire q
        ∧ p.received ++ p.toGo state = q.received ++ (q.outlet.buffer ++ b.line.toWire)
        ∧ p.flushed = q.flushed := by
    intro wire hwire
    obtain rfl := hadvances.wire hstage hwire
    refine ⟨moves, [], p, (List.append_nil _).symm, .begin hb hstage hwire hp, ?_, rfl⟩
    rcases hwire with rfl | rfl <;> rfl
  cases state with
  | fresh wire => exact hbegin wire (.inl rfl)
  | queued wire => exact hbegin wire (.inr rfl)
  | ended outcome => exact absurd rfl (hstate outcome)
  | writing stage =>
      have hlocks := World.locks_run h₀.locks hmoves
      have hat : (w₀.run moves).at? t = some (k, .writing stage) := by
        rw [World.at?_of_broadcast? hb, Broadcast.at?_sending hstage]
        rfl
      obtain ⟨pre, mid, q, p', hsplit, htenure, hp', hreceived, hflushed⟩ := h.underway hstage
      cases hp'.symm.trans hp
      subst hsplit
      exact ⟨pre, mid, q, rfl, htenure.extend hp ((hlocks.queued hp).first hat).1 _, hreceived,
        hflushed⟩

theorem onward_ne_writing {rest rest' : List PeerKey} {k : PeerKey} {stage : SendStage}
    {P : Prop} (h : (b.onward rest).stage = .sending k (.writing stage) rest') : P := by
  cases rest <;> cases h

theorem onward_ne_pruning {rest rest' : List PeerKey} {k : PeerKey} {call : Call}
    {P : Prop} (h : (b.onward rest).stage = .pruning k call rest') : P := by
  cases rest <;> cases h

/-- A turn at which the send to `k` stalls. -/
theorem Accounted.underway_turn (h₀ : w₀.IsNew) (hmoves : w₀.Permitted moves)
    (h : Accounted w₀ moves (w₀.run moves) t b) (hadvances : Advances w₀ moves (w₀.run moves) t b)
    (hb : (w₀.run moves).broadcast? t = some b) {k : PeerKey} {state : SendState}
    {stage : SendStage} {rest : List PeerKey} {p q : Peer}
    (hstage : b.stage = .sending k state rest)
    (hp : (w₀.run moves).peer? k = some p)
    (hsend : p.SendStep t (w₀.run moves).shutdown state q (.writing stage))
    (hq : w'.peer? k = some q) :
    Underway w₀ (moves ++ [.turn t]) w' t b.serial k b.line.toWire stage := by
  obtain ⟨pre, mid, p₀, rfl, htenure, hreceived, hflushed⟩ :=
    h.exists_tenure h₀ hmoves hadvances hb hstage hsend.not_ended hp
  have hsending := World.send?_eq_some.2 (.inr ⟨b, rest, hb, hstage⟩)
  cases (World.locks_run h₀.locks hmoves).carried hsending hp hsend with
  | @stalled _ part _ hpart htogo hflushed' =>
      refine ⟨pre, mid ++ [.turn t], p₀, q, List.append_assoc _ _ _, htenure, hq, ?_,
        hflushed'.trans hflushed⟩
      rw [hpart, List.append_assoc, ← htogo, hreceived]

/-- A turn at which the send to `k` goes through. -/
theorem Accounted.took_turn (h₀ : w₀.IsNew) (hmoves : w₀.Permitted moves)
    (h : Accounted w₀ moves (w₀.run moves) t b) (hadvances : Advances w₀ moves (w₀.run moves) t b)
    (hb : (w₀.run moves).broadcast? t = some b) {k : PeerKey} {state : SendState}
    {rest : List PeerKey} {p q : Peer} (hstage : b.stage = .sending k state rest)
    (hp : (w₀.run moves).peer? k = some p)
    (hsend : p.SendStep t (w₀.run moves).shutdown state q (.ended .sent))
    (hq : (w₀.run (moves ++ [.turn t])).peer? k = some q) :
    Took w₀ (moves ++ [.turn t]) t b.serial k b.line.toWire := by
  obtain ⟨pre, mid, p₀, rfl, htenure, hreceived, hflushed⟩ :=
    h.exists_tenure h₀ hmoves hadvances hb hstage hsend.not_ended hp
  have hsending := World.send?_eq_some.2 (.inr ⟨b, rest, hb, hstage⟩)
  cases (World.locks_run h₀.locks hmoves).carried hsending hp hsend with
  | sent _ hpart hbuffer hflushed' hall =>
      refine ⟨pre, mid, [], p₀, q, rfl, htenure, ?_, ?_, hbuffer, by rw [hflushed', hflushed], hall⟩
      · rw [← List.append_assoc]
        exact hq
      · rw [hpart, hreceived]

/-- A broadcast that took a turn. -/
theorem Accounted.turn (h₀ : w₀.IsNew) (hmoves : w₀.Permitted moves)
    (h : Accounted w₀ moves (w₀.run moves) t b) (hadvances : Advances w₀ moves (w₀.run moves) t b)
    (hb : (w₀.run moves).broadcast? t = some b)
    (hstep : MoveStep (w₀.run moves) (.turn t) (w₀.run (moves ++ [.turn t])))
    (hturn : BroadcastStep (w₀.run moves) t b w₁ b')
    (hw₁ : ∃ task, w₀.run (moves ++ [.turn t]) = w₁.setTask t task) :
    Accounted w₀ (moves ++ [.turn t]) (w₀.run (moves ++ [.turn t])) t b' := by
  have hw := World.requests_run h₀.requests hmoves
  obtain ⟨hpeers, hregistry⟩ : (∀ k, (w₀.run (moves ++ [.turn t])).peer? k = w₁.peer? k)
      ∧ (w₀.run (moves ++ [.turn t])).registry = w₁.registry := by
    obtain ⟨task, hw₁⟩ := hw₁
    rw [hw₁]
    exact ⟨fun _ => rfl, rfl⟩
  -- the attempts so far stay settled, unless the broadcast is done with a removal
  have hsettled : (∀ k call rest, b.stage ≠ .pruning k call rest) → b'.serial = b.serial →
      b'.line = b.line → ∀ a ∈ b.attempts,
        Settled w₀ (moves ++ [.turn t]) (w₀.run (moves ++ [.turn t])) t b' a := by
    intro hstage hserial hline a ha
    exact (h.settled a ha).step hstep hserial hline
      fun _ _ _ hpruning => absurd hpruning (hstage _ _ _)
  cases hturn with
  | asks hstage _ =>
      exact ⟨hsettled (by simp [hstage]) rfl rfl, BroadcastStage.noConfusion,
        BroadcastStage.noConfusion, BroadcastStage.noConfusion⟩
  | skips hstage _ =>
      exact ⟨hsettled (by simp [hstage]) rfl rfl, BroadcastStage.noConfusion,
        BroadcastStage.noConfusion, BroadcastStage.noConfusion⟩
  | learns hstage _ =>
      refine ⟨?_, onward_ne_writing, onward_ne_pruning, onward_ne_pruning⟩
      rw [Broadcast.attempts_onward]
      exact hsettled (by simp [hstage]) (Broadcast.serial_onward _ _) (Broadcast.line_onward _ _)
  | misses hstage _ =>
      refine ⟨?_, onward_ne_writing, onward_ne_pruning, onward_ne_pruning⟩
      rw [Broadcast.attempts_onward]
      exact hsettled (by simp [hstage]) (Broadcast.serial_onward _ _) (Broadcast.line_onward _ _)
  | @sends k state state' rest p q hstage hpeer hsend hopen =>
      refine ⟨hsettled (by simp [hstage]) rfl rfl, ?_,
        BroadcastStage.noConfusion, BroadcastStage.noConfusion⟩
      intro k' stage rest' hstage'
      cases hstage'
      exact h.underway_turn h₀ hmoves hadvances hb hstage hpeer hsend
        ((hpeers k).trans (World.peer?_setPeer_self hpeer q))
  | @settles k state rest p q outcome hstage hpeer hsend hfine =>
      refine ⟨?_, onward_ne_writing, onward_ne_pruning, onward_ne_pruning⟩
      rw [Broadcast.attempts_onward]
      intro a ha
      rcases List.mem_append.1 ha with ha | ha
      · exact hsettled (by simp [hstage]) (Broadcast.serial_onward _ _) (Broadcast.line_onward _ _)
          a ha
      · obtain rfl := List.mem_singleton.1 ha
        cases outcome with
        | sent =>
            show Took _ _ _ _ _ _
            rw [Broadcast.serial_onward, Broadcast.line_onward]
            exact h.took_turn h₀ hmoves hadvances hb hstage hpeer hsend
              ((hpeers k).trans (World.peer?_setPeer_self hpeer q))
        | closed =>
            have hsending := World.send?_eq_some.2 (.inr ⟨b, rest, hb, hstage⟩)
            cases (World.locks_run h₀.locks hmoves).carried hsending hpeer hsend with
            | closed hclosed _ =>
                obtain ⟨q', hq', hlasts⟩ := hstep.lasts hpeer
                exact ⟨q', hq', hlasts.isClosed hstep.shutdown hclosed⟩
        | failed f => exact absurd rfl (hfine f)
  | @fails k state rest p q f closedIt hstage hpeer hsend =>
      refine ⟨?_, BroadcastStage.noConfusion, ?_, ?_⟩
      · intro a ha
        rcases List.mem_append.1 ha with ha | ha
        · exact hsettled (by simp [hstage]) rfl rfl a ha
        · obtain rfl := List.mem_singleton.1 ha
          refine ⟨q.close.1, (hpeers k).trans ?_, Peer.closed_close q, fun _ => .inr ⟨_, _, rfl⟩⟩
          exact World.peer?_closePeer_self (World.peer?_setPeer_self hpeer q)
      · intro k' call rest' hstage'
        cases hstage'
        simp [Broadcast.attempted]
      · intro k' tk rest' hstage'
        cases hstage'
  | @prunes k c rest hstage hadmits =>
      refine ⟨?_, BroadcastStage.noConfusion, ?_, ?_⟩
      · intro a ha
        refine (h.settled a ha).step hstep rfl rfl fun _ call rest' hpruning => .inr ?_
        cases hstage.symm.trans hpruning
        exact ⟨_, _, rfl⟩
      · intro k' call rest' hstage'
        cases hstage'
        exact h.pruning hstage
      · intro k' tk rest' hstage' s hs hticket
        -- the ticket is new, so nothing was served under it
        cases hstage'
        rw [hregistry] at hs
        have := hw.ordered.below _ (List.mem_append_right _ (List.mem_map.2 ⟨s, hs, hticket⟩))
        exact absurd this (Nat.lt_irrefl _)
  | @pruned k tk rest answer hstage hanswer =>
      refine ⟨?_, onward_ne_writing, onward_ne_pruning, onward_ne_pruning⟩
      rw [Broadcast.attempts_onward]
      intro a ha
      refine (h.settled a ha).step hstep (Broadcast.serial_onward _ _) (Broadcast.line_onward _ _)
        fun hserving call rest' hpruning => .inl ?_
      have hk : k = a.peer := (BroadcastStage.pruning.inj (hstage.symm.trans hpruning)).1
      obtain ⟨c, hmeans, hholds⟩ := hw.waiting
        ((World.call?_of_broadcast? hb).trans (Broadcast.call?_pruning hstage))
      rcases hholds.answer hanswer with ⟨reply, -, hmem⟩ | ⟨hservice, -⟩
      · obtain ⟨p, hp, hgone⟩ := h.removed hstage _ hmem rfl
        obtain ⟨q, hq, hlasts⟩ := hstep.lasts hp
        exact ⟨q, hk ▸ hq, hlasts.info ▸ hgone.step hstep.registry⟩
      · exact absurd (Registry.serving_of_step hstep.registry hserving) hservice

end Accounted

/-- In every world of a run, what came of every broadcast so far is what
its attempts say. -/
theorem accounted_run {w₀ : World} (h₀ : w₀.IsNew) {moves : List Move}
    (hmoves : w₀.Permitted moves) {t : TaskKey} {b : Broadcast}
    (hb : (w₀.run moves).broadcast? t = some b) : Accounted w₀ moves (w₀.run moves) t b := by
  refine World.broadcast_induction h₀
    (P := fun moves t b => Accounted w₀ moves (w₀.run moves) t b) .begin ?_ ?_ hmoves hb
  · intro moves m t b hmoves hstep hidle hb h
    exact h.stay h₀ hmoves (advances_run h₀ hmoves hb) hb hstep hidle
  · intro moves t b b' w₁ task' hmoves hstep hb hturn hw₁ h
    exact h.turn h₀ hmoves (advances_run h₀ hmoves hb) hb hstep hturn ⟨task', hw₁⟩

/-! ## The report -/

/-- The peers of the attempts that ended in a certain way. -/
def Broadcast.peersOf (b : Broadcast) (ended : Attempt → Bool) : List PeerKey :=
  (b.attempts.filter ended).map (·.peer)

/-- Whether an attempt found its peer closed. -/
def Broadcast.isRefusal (a : Attempt) : Bool := a.outcome = .closed

/-- Every attempt is a delivery, a prune or a refusal, and one of them only. -/
theorem Broadcast.perm_peersOf (b : Broadcast) :
    (b.peersOf isDelivery ++ b.peersOf isPrune ++ b.peersOf isRefusal).Perm
      (b.attempts.map (·.peer)) := by
  unfold peersOf
  rw [← List.map_append, ← List.map_append]
  refine List.Perm.map _ ?_
  induction b.attempts with
  | nil => exact .refl _
  | cons a attempts ih =>
      cases houtcome : a.outcome with
      | sent =>
          simp only [isDelivery, isPrune, isRefusal, houtcome, List.filter_cons, decide_true,
            if_true, reduceCtorEq, decide_false, Bool.false_eq_true, if_false, List.cons_append]
          exact ih.cons a
      | failed f =>
          simp only [isDelivery, isPrune, isRefusal, houtcome, List.filter_cons,
            if_true, reduceCtorEq, decide_false, Bool.false_eq_true, if_false, List.append_assoc]
          exact List.perm_middle.trans ((List.append_assoc _ _ _ ▸ ih).cons a)
      | closed =>
          simp only [isDelivery, isPrune, isRefusal, houtcome, List.filter_cons, decide_true,
            if_true, reduceCtorEq, decide_false, Bool.false_eq_true, if_false]
          exact List.perm_middle.trans (ih.cons a)

theorem Broadcast.report_eq (b : Broadcast) :
    b.report = ⟨(b.peersOf isDelivery).length, (b.peersOf isPrune).length⟩ := by
  simp [report, peersOf, List.countP_eq_length_filter]

/-- How the targets of the broadcast `b` of the task `t` split after a run. -/
structure Splits (w₀ : World) (moves : List Move) (t : TaskKey) (b : Broadcast)
    (delivered pruned refused : List PeerKey) : Prop where
  perm : (delivered ++ pruned ++ refused).Perm b.targets
  took : ∀ k ∈ delivered, Took w₀ moves t b.serial k b.line.toWire
  gone : ∀ k ∈ pruned, (∃ f closedIt, ⟨k, .failed f, closedIt⟩ ∈ b.attempts)
    ∧ ∃ p, (w₀.run moves).peer? k = some p ∧ p.closed = true
      ∧ (w₀.run moves).registry.membership.contains p.info.id = false
  closed : ∀ k ∈ refused, (∃ closedIt, ⟨k, .closed, closedIt⟩ ∈ b.attempts)
    ∧ ∃ p, (w₀.run moves).peer? k = some p ∧ p.isClosed (w₀.run moves).shutdown = true

section Splits

variable {w₀ : World} {moves : List Move} {t : TaskKey} {b : Broadcast}
  {delivered pruned refused : List PeerKey} {k : PeerKey} {p : Peer}

theorem Broadcast.mem_peersOf {ended : Attempt → Bool} :
    k ∈ b.peersOf ended ↔ ∃ a ∈ b.attempts, ended a = true ∧ a.peer = k := by
  simp only [peersOf, List.mem_map, List.mem_filter, and_assoc]

/-- The targets of a broadcast that is over split by how its attempts ended. -/
theorem Accounted.splits (h : Accounted w₀ moves (w₀.run moves) t b) (hstage : b.stage = .finished)
    (htargets : b.attempts.map (·.peer) = b.targets)
    (hserving : (w₀.run moves).registry.service = .serving)
    (hdistinct : ∀ id, (w₀.run moves).registry.arrivals id ≤ 1) :
    Splits w₀ moves t b (b.peersOf Broadcast.isDelivery) (b.peersOf Broadcast.isPrune)
      (b.peersOf Broadcast.isRefusal) where
  perm := htargets ▸ b.perm_peersOf
  took := by
    intro k hk
    obtain ⟨⟨_, outcome, closedIt⟩, ha, hended, rfl⟩ := Broadcast.mem_peersOf.1 hk
    obtain rfl : outcome = .sent := by simpa [Broadcast.isDelivery] using hended
    exact h.settled _ ha
  gone := by
    intro k hk
    obtain ⟨⟨_, outcome, closedIt⟩, ha, hended, rfl⟩ := Broadcast.mem_peersOf.1 hk
    cases outcome with
    | sent | closed => cases hended
    | failed f =>
        obtain ⟨p, hp, hclosed, hgone⟩ := h.settled _ ha
        refine ⟨⟨f, closedIt, ha⟩, p, hp, hclosed, ?_⟩
        rcases hgone hserving with (⟨habsent, -⟩ | htwice) | ⟨call, rest, hpruning⟩
        · exact habsent
        · exact absurd htwice (Nat.not_le.2 (Nat.lt_succ_of_le (hdistinct p.info.id)))
        · cases hstage.symm.trans hpruning
  closed := by
    intro k hk
    obtain ⟨⟨_, outcome, closedIt⟩, ha, hended, rfl⟩ := Broadcast.mem_peersOf.1 hk
    obtain rfl : outcome = .closed := by simpa [Broadcast.isRefusal] using hended
    exact ⟨⟨closedIt, ha⟩, h.settled _ ha⟩

/-- A target that is open took the wire. -/
theorem Splits.delivered_of_isClosed (h : Splits w₀ moves t b delivered pruned refused)
    (hk : k ∈ b.targets) (hp : (w₀.run moves).peer? k = some p)
    (hopen : p.isClosed (w₀.run moves).shutdown = false) : k ∈ delivered := by
  rcases List.mem_append.1 (h.perm.mem_iff.2 hk) with hk | hk
  · rcases List.mem_append.1 hk with hk | hk
    · exact hk
    · obtain ⟨-, q, hq, hclosed, -⟩ := h.gone k hk
      cases hq.symm.trans hp
      simp [Peer.isClosed, hclosed] at hopen
  · obtain ⟨-, q, hq, hclosed⟩ := h.closed k hk
    cases hq.symm.trans hp
    cases hclosed.symm.trans hopen

end Splits

/-- The turn of a broadcast is the turn of its task. -/
theorem World.exists_setTask_of_broadcastTurn {w w₁ : World} {me : TaskKey} {b b' : Broadcast}
    (hw : w.Requests) (hb : w.broadcast? me = some b)
    (hturn : w.broadcastTurn me b = some (w₁, b')) :
    ∃ task, w.move (.turn me) = w₁.setTask me task := by
  obtain ⟨task, hmove, -⟩ := hw.turn_of_broadcastTurn hb hturn
  exact ⟨task, by rw [World.move, hmove, Option.getD_some]⟩

/-- When a broadcast is over, on a registry that serves and that never
registered an id twice, the peers other than the sender that were members
when it asked were each attempted once, and they are the peers that took
the wire, those whose send failed, which are closed and absent now, and
those whose send found them closed, which are closed now; the first two
are as many as it reports.  So a target that is still open took the wire. -/
theorem broadcast_accounts {moves : List Move} (hmoves : ({} : World).Permitted moves)
    {me : TaskKey} {b b' : Broadcast} {w₁ : World}
    (hb : (World.run {} moves).broadcast? me = some b)
    (hturn : (World.run {} moves).broadcastTurn me b = some (w₁, b')) (hover : b'.isOver = true)
    (hserving : (World.run {} (moves ++ [.turn me])).registry.service = .serving)
    (hdistinct : ∀ id, (World.run {} (moves ++ [.turn me])).registry.arrivals id ≤ 1) :
    (∃ pre rank post, moves ++ [.turn me] = pre ++ .serve rank :: post
      ∧ (World.run {} pre).Surveys rank me b'
      ∧ ∀ k, k ∈ b'.targets ↔ ∃ a ∈ (World.run {} pre).registry.membership.members,
          a.info.id ≠ b'.sender ∧ a.handle = k)
    ∧ b'.targets.Nodup ∧ b'.attempts.map (·.peer) = b'.targets
    ∧ ∃ delivered pruned refused, Splits {} (moves ++ [.turn me]) me b' delivered pruned refused
      ∧ b'.report = ⟨delivered.length, pruned.length⟩
      ∧ ∀ k ∈ b'.targets, ∀ p, (World.run {} (moves ++ [.turn me])).peer? k = some p →
          p.isClosed (World.run {} (moves ++ [.turn me])).shutdown = false → k ∈ delivered := by
  have h₀ : World.IsNew {} := ⟨rfl, rfl, fun h => by cases h⟩
  have hw := World.requests_run h₀.requests hmoves
  obtain ⟨task, hw₁⟩ := World.exists_setTask_of_broadcastTurn hw hb hturn
  rw [← World.run_concat] at hw₁
  have hmoves' : World.Permitted {} (moves ++ [.turn me]) :=
    World.permitted_concat.2 ⟨hmoves, trivial⟩
  have hstep : MoveStep (World.run {} moves) (.turn me) (World.run {} (moves ++ [.turn me])) := by
    rw [World.run_concat]
    exact World.moveStep_move trivial
  have hadvances := advances_run h₀ hmoves hb
  have hadvances' := hadvances.turn hb hw hstep (broadcastStep_of_broadcastTurn hturn)
    (by rw [hw₁]; rfl)
  have haccounted' := (accounted_run h₀ hmoves hb).turn h₀ hmoves hadvances hb hstep
    (broadcastStep_of_broadcastTurn hturn) ⟨task, hw₁⟩
  have hstage : b'.stage = .finished := by simpa [Broadcast.isOver] using hover
  have htargets : b'.attempts.map (·.peer) = b'.targets := by
    rw [hadvances'.split]
    simp [Broadcast.ahead, hstage]
  obtain ⟨⟨pre, rank, post, hsplit, hsurveys⟩, -⟩ :=
    (hadvances'.surveyed (by simp [hstage])).resolve_right fun h => h.2 hserving
  have hpre := World.requests_run h₀.requests (World.Permitted.of_append (hsplit ▸ hmoves'))
  have hsplits := haccounted'.splits hstage htargets hserving hdistinct
  exact ⟨⟨pre, rank, post, hsplit, hsurveys, fun k => hsurveys.mem_targets⟩,
    hsurveys.nodup_targets hpre, htargets, _, _, _, hsplits, b'.report_eq,
    fun k hk p hp hopen => hsplits.delivered_of_isClosed hk hp hopen⟩

/-- A connection of someone with this id, whose writes come to these answers. -/
def connectionOf (id : UInt64) (writes : List WriteAnswer) : Connection :=
  ⟨{ info := ⟨⟨id⟩, ⟨"peer"⟩, 0⟩, outlet := { transport := { writes } } }, ⟨[], false⟩⟩

/-- Four peers are registered, and one says hi: the write to the third
fails, and the fourth is closed before its turn comes. -/
def fanout : List Move :=
  let member (k : PeerKey) (id : UInt64) : Move := .request (.register ⟨⟨⟨id⟩, ⟨"peer"⟩, 0⟩, k⟩)
  [.connect (connectionOf 1 []), .connect (connectionOf 2 []),
    .connect (connectionOf 3 [.fails ⟨.brokenPipe, none⟩]), .connect (connectionOf 4 []),
    member 0 1, member 1 2, member 2 3, member 3 4,
    .serve World.byId, .serve World.byId, .serve World.byId, .serve World.byId,
    .spawn (.broadcast (.begin 0 ⟨1⟩ (Line.ofBytes [104, 105]))),
    .turn 0, .serve World.byId, .turn 0, .turn 0, .turn 0, .close 3, .turn 0, .serve World.byId,
    .turn 0]

set_option maxRecDepth 4000 in
/-- The run of `fanout` ends in a broadcast that delivered once and pruned once. -/
theorem broadcast_accounts_fanout : ∃ b b' w₁,
    (World.run {} fanout).broadcast? 0 = some b
      ∧ (World.run {} fanout).broadcastTurn 0 b = some (w₁, b')
      ∧ b'.targets = [1, 2, 3] ∧ b'.report = ⟨1, 1⟩
      ∧ ∃ delivered pruned refused,
          Splits {} (fanout ++ [.turn 0]) 0 b' delivered pruned refused
            ∧ b'.report = ⟨delivered.length, pruned.length⟩ := by
  have hmoves : World.Permitted {} fanout := by decide +kernel
  obtain ⟨b, hb, ⟨w₁, b'⟩, hturn, hover, htargets, hreport⟩ : ∃ b,
      (World.run {} fanout).broadcast? 0 = some b
        ∧ ∃ x, (World.run {} fanout).broadcastTurn 0 b = some x ∧ x.2.isOver = true
          ∧ x.2.targets = [1, 2, 3] ∧ x.2.report = ⟨1, 1⟩ := by
    refine ⟨((World.run {} fanout).broadcast? 0).get (by decide +kernel),
      Option.some_get _ |>.symm, ((World.run {} fanout).broadcastTurn 0 _).get (by decide +kernel),
      Option.some_get _ |>.symm, ?_⟩
    decide +kernel
  refine ⟨b, b', w₁, hb, hturn, htargets, hreport, ?_⟩
  obtain ⟨-, -, -, delivered, pruned, refused, hsplits, hreport', -⟩ :=
    broadcast_accounts hmoves hb hturn hover (by decide +kernel)
      (Registry.arrivals_le_one (by decide +kernel))
  exact ⟨delivered, pruned, refused, hsplits, hreport'⟩

end LineRelay
