/-
# Where the targets of a broadcast come from

A broadcast asks once who is registered and then works through the reply.
That reply was made at one moment of the run, at which the registry served
the snapshot while the broadcast waited for it: `World.Surveys` describes
the world at that moment, and `Surveyed` says that there was one.

`Advances` is what holds of every broadcast in every world of a run: the
targets are the peers attempted so far and then those still ahead, in this
order.
-/
import LineRelay.Proofs.Relay.Requests

namespace LineRelay

/-! ## The first world of a run -/

/-- A world in which there are servers at most. -/
structure World.IsNew (w : World) : Prop where
  connections : w.connections = []
  registry : w.registry = {}
  tasks : ∀ {t : TaskKey} {task : Task}, w.tasks[t]? = some task → ∃ s, task = .server s

namespace World

variable {w w' : World}

theorem isNew_empty : IsNew {} := ⟨rfl, rfl, fun h => by cases h⟩

theorem IsNew.broadcast? (h : w.IsNew) (t : TaskKey) : w.broadcast? t = none := by
  unfold World.broadcast?
  cases htask : w.tasks[t]? with
  | none => rfl
  | some task =>
      obtain ⟨s, rfl⟩ := h.tasks htask
      rfl

theorem IsNew.peer? (h : w.IsNew) (k : PeerKey) : w.peer? k = none := by
  rw [World.peer?, h.connections]
  rfl

theorem IsNew.locks (h : w.IsNew) : w.Locks where
  known := by
    intro t k state ht
    unfold World.at? at ht
    cases htask : w.tasks[t]? with
    | none => simp [htask] at ht
    | some task =>
        obtain ⟨s, rfl⟩ := h.tasks htask
        simp [htask, Task.at?, Task.broadcast?] at ht
  queued := fun hp => by simp [h.peer?] at hp

theorem IsNew.call? (h : w.IsNew) (t : TaskKey) : w.call? t = none := by
  unfold World.call?
  cases htask : w.tasks[t]? with
  | none => rfl
  | some task =>
      obtain ⟨s, rfl⟩ := h.tasks htask
      rfl

theorem IsNew.requests (h : w.IsNew) : w.Requests := by
  refine ⟨?_, fun _ => ?_, ?_, ?_, ?_, ?_, ?_⟩
  · rw [h.registry]
    exact ⟨fun _ htk => absurd htk List.not_mem_nil, List.nodup_nil, List.nodup_nil⟩
  · rw [h.registry]
    exact fun _ => rfl
  · intro t u c ht
    cases (h.call? t).symm.trans ht
  · intro t u tk ht
    cases (h.call? t).symm.trans ht
  · intro tk c hmem
    rw [h.registry] at hmem
    cases hmem
  · intro a ha
    rw [h.registry] at ha
    cases ha
  · intro t wk ht
    obtain ⟨s, hs⟩ := h.tasks ht
    cases hs

/-- What holds of a broadcast that begins, and of one that does not take a turn
or takes one if it held of it before, holds of every broadcast in every world
of a run. -/
theorem broadcast_induction {w₀ : World} (h₀ : w₀.IsNew)
    {P : List Move → TaskKey → Broadcast → Prop}
    (begins : ∀ {moves m t b}, b = .begin b.serial b.sender b.line → P (moves ++ [m]) t b)
    (stays : ∀ {moves m t b}, w₀.Permitted moves →
      MoveStep (w₀.run moves) m (w₀.run (moves ++ [m])) →
      (m = .turn t → w₀.run (moves ++ [m]) = w₀.run moves) →
      (w₀.run moves).broadcast? t = some b → P moves t b → P (moves ++ [m]) t b)
    (steps : ∀ {moves t b b' w₁ task'}, w₀.Permitted moves →
      MoveStep (w₀.run moves) (.turn t) (w₀.run (moves ++ [.turn t])) →
      (w₀.run moves).broadcast? t = some b → BroadcastStep (w₀.run moves) t b w₁ b' →
      w₀.run (moves ++ [.turn t]) = w₁.setTask t task' → P moves t b → P (moves ++ [.turn t]) t b')
    {moves : List Move} (hmoves : w₀.Permitted moves) {t : TaskKey} {b : Broadcast}
    (hb : (w₀.run moves).broadcast? t = some b) : P moves t b := by
  revert t b
  refine run_induction
    (P := fun moves => ∀ {t b}, (w₀.run moves).broadcast? t = some b → P moves t b)
    (fun hb => ?_) (fun {moves m} hmoves h hstep t b hb => ?_) hmoves
  · cases (h₀.broadcast? _).symm.trans hb
  · cases hstep.broadcast hb with
    | stays hidle hbefore => exact stays hmoves hstep hidle hbefore (h hbefore)
    | begins hb => exact begins hb
    | steps hm hbefore hturn hw' =>
        subst hm
        exact steps hmoves hstep hbefore hturn hw' (h hbefore)

/-- What holds of a peer that comes, and of one that is there if it held of it
before, holds of every peer in every world of a run.  It may speak of the
peer `first` that came. -/
theorem peer_induction {w₀ : World} (h₀ : w₀.IsNew) {k : PeerKey}
    {P : List Move → Peer → Peer → Prop}
    (comes : ∀ {moves m q}, w₀.Permitted moves → MoveStep (w₀.run moves) m (w₀.run (moves ++ [m])) →
      (w₀.run moves).peer? k = none → (w₀.run (moves ++ [m])).peer? k = some q →
      P (moves ++ [m]) q q)
    (stays : ∀ {moves m first p q}, w₀.Permitted moves →
      MoveStep (w₀.run moves) m (w₀.run (moves ++ [m])) → (w₀.run moves).peer? k = some p →
      (w₀.run (moves ++ [m])).peer? k = some q → P moves first p → P (moves ++ [m]) first q)
    {moves : List Move} (hmoves : w₀.Permitted moves) {p : Peer}
    (hp : (w₀.run moves).peer? k = some p) :
    ∃ n first, (w₀.after moves n).peer? k = none ∧ (w₀.after moves (n + 1)).peer? k = some first
      ∧ n < moves.length ∧ P moves first p := by
  revert p
  refine run_induction (P := fun moves => ∀ {p}, (w₀.run moves).peer? k = some p →
      ∃ n first, (w₀.after moves n).peer? k = none
        ∧ (w₀.after moves (n + 1)).peer? k = some first ∧ n < moves.length ∧ P moves first p)
    (fun hp => ?_) (fun {moves m} hmoves h hstep q hq => ?_) hmoves
  · cases (h₀.peer? _).symm.trans hp
  · have hlength : moves.length < (moves ++ [m]).length := by simp
    cases hp : (w₀.run moves).peer? k with
    | none =>
        refine ⟨moves.length, q, ?_, ?_, hlength, comes hmoves hstep hp hq⟩
        · rw [w₀.after_concat, hp]
        · rw [w₀.after_concat_succ, hq]
    | some p =>
        obtain ⟨n, first, hnone, hfirst, hn, hkept⟩ := h hp
        refine ⟨n, first, ?_, ?_, hn.trans hlength, stays hmoves hstep hp hq hkept⟩
        · rw [w₀.after_append [m] hn.le, hnone]
        · rw [w₀.after_append [m] hn, hfirst]

end World

/-! ## The moment of a survey -/

/-- A broadcast that waits for its targets. -/
def Broadcast.waitingFor (b : Broadcast) (tk : Ticket) : Broadcast :=
  { Broadcast.begin b.serial b.sender b.line with stage := .asking (.waiting tk) }

/-- At the front of the queue stands the snapshot for which the task `t`
waits with its broadcast `b`, and served now, with this rank, it lists the
targets of `b`. -/
structure World.Surveys (w : World) (rank : PeerId → Nat) (t : TaskKey) (b : Broadcast) : Prop where
  serving : w.registry.service = .serving
  asking : ∃ tk, w.broadcast? t = some (b.waitingFor tk)
    ∧ w.registry.queue.head? = some (tk, .snapshot (some b.sender))
  targets : b.targets = (w.registry.membership.list rank (some b.sender)).map (·.handle)

/-- The run has a moment at which the targets of a broadcast were listed. -/
def Surveyed (w₀ : World) (moves : List Move) (t : TaskKey) (b : Broadcast) : Prop :=
  ∃ pre rank post, moves = pre ++ .serve rank :: post ∧ (w₀.run pre).Surveys rank t b

section Surveyed

variable {w₀ : World} {moves : List Move} {t : TaskKey} {b b' : Broadcast}

theorem Surveyed.extend (h : Surveyed w₀ moves t b) (m : Move) :
    Surveyed w₀ (moves ++ [m]) t b := by
  obtain ⟨pre, rank, post, rfl, hsurvey⟩ := h
  exact ⟨pre, rank, post ++ [m], by simp, hsurvey⟩

theorem Surveyed.congr (h : Surveyed w₀ moves t b) (hserial : b'.serial = b.serial)
    (hsender : b'.sender = b.sender) (hline : b'.line = b.line)
    (htargets : b'.targets = b.targets) :
    Surveyed w₀ moves t b' := by
  obtain ⟨pre, rank, post, hmoves, hserving, ⟨tk, hb, hhead⟩, hlist⟩ := h
  refine ⟨pre, rank, post, hmoves, hserving, ⟨tk, ?_, hsender ▸ hhead⟩, ?_⟩
  · rw [hb, Broadcast.waitingFor, Broadcast.waitingFor, hserial, hsender, hline]
  · rw [htargets, hlist, hsender]

/-- Every target of a broadcast was a member when the targets were listed. -/
theorem World.Surveys.mem_targets {w : World} {rank : PeerId → Nat} (h : w.Surveys rank t b)
    {k : PeerKey} :
    k ∈ b.targets ↔ ∃ a ∈ w.registry.membership.members, a.info.id ≠ b.sender ∧ a.handle = k := by
  rw [h.targets, List.mem_map]
  simp only [Membership.list, (perm_ranked _ _).mem_iff, List.mem_filter]
  constructor
  · rintro ⟨a, ⟨ha, hne⟩, rfl⟩
    exact ⟨a, ha, by simpa using hne, rfl⟩
  · rintro ⟨a, ha, hne, rfl⟩
    exact ⟨a, ⟨ha, by simpa using hne⟩, rfl⟩

/-- No peer is listed twice. -/
theorem World.Surveys.nodup_targets {w : World} {rank : PeerId → Nat} (h : w.Surveys rank t b)
    (hw : w.Requests) : b.targets.Nodup := by
  rw [h.targets]
  exact ((perm_ranked _ _).map _).nodup_iff.2 (hw.handles_nodup.sublist (List.filter_sublist.map _))

end Surveyed

/-! ## The course of a broadcast -/

/-- The targets that a broadcast has not done with. -/
def Broadcast.ahead (b : Broadcast) : List PeerKey :=
  match b.stage with
  | .sending k _ rest => k :: rest
  | .pruning _ _ rest => rest
  | .asking _ | .finished => []

theorem Broadcast.ahead_sending {b : Broadcast} {k : PeerKey} {state : SendState}
    {rest : List PeerKey} (h : b.stage = .sending k state rest) : b.ahead = k :: rest := by
  simp only [ahead, h]

theorem Broadcast.ahead_pruning {b : Broadcast} {k : PeerKey} {call : Call}
    {rest : List PeerKey} (h : b.stage = .pruning k call rest) : b.ahead = rest := by
  simp only [ahead, h]

@[simp] theorem Broadcast.ahead_onward (b : Broadcast) (rest : List PeerKey) :
    (b.onward rest).ahead = rest := by
  cases rest <;> rfl

@[simp] theorem Broadcast.targets_onward (b : Broadcast) (rest : List PeerKey) :
    (b.onward rest).targets = b.targets := by
  cases rest <;> rfl

@[simp] theorem Broadcast.attempts_onward (b : Broadcast) (rest : List PeerKey) :
    (b.onward rest).attempts = b.attempts := by
  cases rest <;> rfl

@[simp] theorem Broadcast.serial_onward (b : Broadcast) (rest : List PeerKey) :
    (b.onward rest).serial = b.serial := by
  cases rest <;> rfl

@[simp] theorem Broadcast.sender_onward (b : Broadcast) (rest : List PeerKey) :
    (b.onward rest).sender = b.sender := by
  cases rest <;> rfl

@[simp] theorem Broadcast.line_onward (b : Broadcast) (rest : List PeerKey) :
    (b.onward rest).line = b.line := by
  cases rest <;> rfl

theorem Broadcast.onward_ne_asking (b : Broadcast) (rest : List PeerKey) (call : Call) :
    (b.onward rest).stage ≠ .asking call := by
  cases rest <;> exact BroadcastStage.noConfusion

/-- What holds of the broadcast `b` of the task `t` when a run from `w₀`
has come to the world `w`. -/
structure Advances (w₀ : World) (moves : List Move) (w : World) (t : TaskKey) (b : Broadcast) :
    Prop where
  split : b.targets = b.attempts.map (·.peer) ++ b.ahead
  asking : ∀ {call}, b.stage = .asking call →
    b = { Broadcast.begin b.serial b.sender b.line with stage := .asking call }
  served : ∀ {tk reply}, b.stage = .asking (.waiting tk) →
    ⟨tk, .snapshot (some b.sender), reply⟩ ∈ w.registry.served →
    Surveyed w₀ moves t { b with targets := World.targetsOf reply }
      ∧ ∀ k ∈ World.targetsOf reply, ∃ p, w.peer? k = some p
  surveyed : (∀ call, b.stage ≠ .asking call) →
    Surveyed w₀ moves t b ∧ (∀ k ∈ b.targets, ∃ p, w.peer? k = some p)
      ∨ b.stage = .finished ∧ w.registry.service ≠ .serving
  wire : ∀ {k state rest wire}, b.stage = .sending k state rest →
    state = .fresh wire ∨ state = .queued wire → wire = b.line.toWire

namespace Advances

variable {w₀ w w' : World} {moves : List Move} {m : Move} {t : TaskKey} {b b' : Broadcast}

theorem begin (hb : b = .begin b.serial b.sender b.line) : Advances w₀ moves w t b := by
  rw [hb]
  refine ⟨rfl, ?_, ?_, fun h => absurd rfl (h _), ?_⟩
  · intro call h
    cases h
    rfl
  · intro tk reply h
    cases h
  · intro k state rest wire h
    cases h

theorem peers_stay (hstep : MoveStep w m w') {ks : List PeerKey}
    (h : ∀ k ∈ ks, ∃ p, w.peer? k = some p) : ∀ k ∈ ks, ∃ p, w'.peer? k = some p := by
  intro k hk
  obtain ⟨p, hp⟩ := h k hk
  obtain ⟨q, hq, -⟩ := hstep.lasts hp
  exact ⟨q, hq⟩

/-- A broadcast that took no turn. -/
theorem stay (h : Advances w₀ moves (w₀.run moves) t b) (hb : (w₀.run moves).broadcast? t = some b)
    (hw : (w₀.run moves).Requests) (hstep : MoveStep (w₀.run moves) m w') :
    Advances w₀ (moves ++ [m]) w' t b where
  split := h.split
  asking := h.asking
  served := by
    intro tk reply hstage hmem
    rcases hstep.registryChange.served hmem with hmem | ⟨rank, rfl, hserving, hhead, hreply⟩
    · obtain ⟨hsurveyed, hknown⟩ := h.served hstage hmem
      exact ⟨hsurveyed.extend m, peers_stay hstep hknown⟩
    · -- this is the moment
      have hform := h.asking hstage
      have hsurveys :
          (w₀.run moves).Surveys rank t { b with targets := World.targetsOf reply } := by
        refine ⟨hserving, ⟨tk, ?_, hhead⟩, ?_⟩
        · rw [hb, hform]
          rfl
        · rw [show reply = _ from hreply]
          rfl
      refine ⟨⟨moves, rank, [], rfl, hsurveys⟩, peers_stay hstep ?_⟩
      intro k hk
      obtain ⟨a, ha, -, rfl⟩ := hsurveys.mem_targets.1 hk
      obtain ⟨p, hp, -⟩ := Option.map_eq_some_iff.1 (hw.names_member ha)
      exact ⟨p, hp⟩
  surveyed := by
    intro hstage
    rcases h.surveyed hstage with ⟨hsurveyed, hknown⟩ | ⟨hover, hservice⟩
    · exact .inl ⟨hsurveyed.extend m, peers_stay hstep hknown⟩
    · exact .inr ⟨hover, fun h => hservice (Registry.serving_of_step hstep.registry h)⟩
  wire := h.wire

/-- A broadcast that has its targets and goes on with them. -/
theorem follow (h : Advances w₀ moves w t b) (hstage : ∀ call, b.stage ≠ .asking call)
    (hopen : b.stage ≠ .finished) (hstage' : ∀ call, b'.stage ≠ .asking call)
    (hsame : b'.serial = b.serial ∧ b'.sender = b.sender ∧ b'.line = b.line
      ∧ b'.targets = b.targets)
    (hsplit : b'.attempts.map (·.peer) ++ b'.ahead = b.attempts.map (·.peer) ++ b.ahead)
    (hwire : ∀ {k state rest wire}, b'.stage = .sending k state rest →
      state = .fresh wire ∨ state = .queued wire → wire = b'.line.toWire) :
    Advances w₀ moves w t b' := by
  obtain ⟨hserial, hsender, hline, htargets⟩ := hsame
  refine ⟨by rw [htargets, hsplit, h.split], fun h => absurd h (hstage' _),
    fun h => absurd h (hstage' _), fun _ => ?_, hwire⟩
  rcases h.surveyed hstage with ⟨hsurveyed, hknown⟩ | ⟨hover, -⟩
  · exact .inl ⟨hsurveyed.congr hserial hsender hline htargets, htargets ▸ hknown⟩
  · exact absurd hover hopen

theorem onward_wire {rest : List PeerKey} {k : PeerKey} {state : SendState}
    {rest' : List PeerKey} {wire : Bytes} (h : (b.onward rest).stage = .sending k state rest')
    (hwire : state = .fresh wire ∨ state = .queued wire) : wire = (b.onward rest).line.toWire := by
  cases rest with
  | nil => cases h
  | cons k rest =>
      cases h
      rcases hwire with e | e <;> cases e
      rfl

end Advances

/-- A task that makes a broadcast makes the request of the broadcast. -/
theorem World.call?_of_broadcast? {w : World} {t : TaskKey} {b : Broadcast}
    (h : w.broadcast? t = some b) : w.call? t = b.call? := by
  unfold World.broadcast? at h
  unfold World.call?
  cases htask : w.tasks[t]? with
  | none => simp [htask] at h
  | some task =>
      simp only [htask, Option.bind_some] at h ⊢
      match task with
      | .broadcast b' =>
          cases h
          rfl
      | .worker wk =>
          cases hstage : wk.stage with
          | relaying b' =>
              simp only [Task.broadcast?, hstage] at h
              cases h
              simp only [Task.call?, hstage]
          | registering _ | reading | leaving _ _ | finished _ =>
              simp [Task.broadcast?, hstage] at h

namespace Advances

variable {w₀ w w' : World} {moves : List Move} {m : Move} {t : TaskKey} {b b' : Broadcast}

/-- A broadcast that took a turn. -/
theorem turn {w₁ : World} (h : Advances w₀ moves (w₀.run moves) t b)
    (hb : (w₀.run moves).broadcast? t = some b) (hw : (w₀.run moves).Requests)
    (hstep : MoveStep (w₀.run moves) m w') (hturn : BroadcastStep (w₀.run moves) t b w₁ b')
    (hregistry : w'.registry = w₁.registry) : Advances w₀ (moves ++ [m]) w' t b' := by
  have hstay := h.stay hb hw hstep
  have hcall := World.call?_of_broadcast? hb
  cases hturn with
  | @asks c hstage hadmits =>
      have hform := h.asking hstage
      refine ⟨?_, ?_, ?_, fun hstage' => absurd rfl (hstage' _), ?_⟩
      · simpa [Broadcast.ahead, hstage] using h.split
      · intro call hstage'
        cases hstage'
        rw [hform]
        rfl
      · intro tk reply hstage' hmem
        -- the ticket is new, so nothing was served under it
        cases hstage'
        rw [hregistry] at hmem
        have := hw.ordered.below _ (List.mem_append_right _ (List.mem_map.2 ⟨_, hmem, rfl⟩))
        exact absurd this (Nat.lt_irrefl _)
      · intro k state rest wire hstage'
        cases hstage'
  | @skips tk e hstage hanswer =>
      have hform := h.asking hstage
      obtain ⟨c, -, hholds⟩ := hw.waiting (hcall.trans (Broadcast.call?_asking hstage))
      have hservice : (w₀.run moves).registry.service ≠ .serving := by
        rcases hholds.answer hanswer with ⟨reply, hreply, -⟩ | ⟨hservice, -⟩
        · cases hreply
        · exact hservice
      refine ⟨?_, ?_, ?_, fun _ => .inr ⟨rfl, fun h => hservice ?_⟩, ?_⟩
      · rw [hform]
        rfl
      · intro call h
        cases h
      · intro tk reply h
        cases h
      · exact Registry.serving_of_step hstep.registry h
      · intro k state rest wire h
        cases h
  | @learns tk reply hstage hanswer =>
      have hform := h.asking hstage
      obtain ⟨c, hmeans, hholds⟩ := hw.waiting (hcall.trans (Broadcast.call?_asking hstage))
      obtain rfl := World.Means.survey.unique hmeans
      have hserved : ⟨tk, .snapshot (some b.sender), reply⟩ ∈ (w₀.run moves).registry.served := by
        rcases hholds.answer hanswer with ⟨reply', hreply, hmem⟩ | ⟨-, e, he⟩
        · cases hreply
          exact hmem
        · cases he
      have hserved' : ⟨tk, .snapshot (some b.sender), reply⟩ ∈ w'.registry.served := by
        rw [hregistry]
        exact hserved
      obtain ⟨hsurveyed, hknown⟩ := hstay.served hstage hserved'
      refine ⟨?_, fun h => absurd h (Broadcast.onward_ne_asking _ _ _),
        fun h => absurd h (Broadcast.onward_ne_asking _ _ _), fun _ => .inl ⟨?_, ?_⟩, onward_wire⟩
      · rw [Broadcast.targets_onward, Broadcast.attempts_onward, Broadcast.ahead_onward, hform]
        rfl
      · exact hsurveyed.congr (by simp) (by simp) (by simp) (by simp)
      · rwa [Broadcast.targets_onward]
  | @misses k state rest hstage hpeer =>
      have hk : k ∈ b.targets := by
        rw [h.split]
        simp [Broadcast.ahead, hstage]
      rcases h.surveyed (by simp [hstage]) with ⟨-, hknown⟩ | ⟨hover, -⟩
      · obtain ⟨p, hp⟩ := hknown k hk
        simp [hpeer] at hp
      · simp [hstage] at hover
  | @sends k state state' rest p q hstage hpeer hsend hopen =>
      refine hstay.follow (by simp [hstage]) (by simp [hstage])
        (fun _ => BroadcastStage.noConfusion) ⟨rfl, rfl, rfl, rfl⟩
        (by simp [Broadcast.ahead, hstage]) ?_
      intro k' state'' rest' wire hstage' hwire
      cases hstage'
      exact h.wire hstage (hsend.wire hwire)
  | @settles k state rest p q outcome hstage hpeer hsend hfine =>
      exact hstay.follow (by simp [hstage]) (by simp [hstage]) (Broadcast.onward_ne_asking _ _)
        ⟨Broadcast.serial_onward _ _, Broadcast.sender_onward _ _, Broadcast.line_onward _ _,
          Broadcast.targets_onward _ _⟩
        (by simp [Broadcast.ahead_sending hstage, Broadcast.attempted]) onward_wire
  | @fails k state rest p q f closedIt hstage hpeer hsend =>
      exact hstay.follow (by simp [hstage]) (by simp [hstage]) (fun _ => BroadcastStage.noConfusion)
        ⟨rfl, rfl, rfl, rfl⟩ (by simp [Broadcast.ahead, hstage, Broadcast.attempted])
        fun hstage' _ => by cases hstage'
  | @prunes k c rest hstage hadmits =>
      exact hstay.follow (by simp [hstage]) (by simp [hstage]) (fun _ => BroadcastStage.noConfusion)
        ⟨rfl, rfl, rfl, rfl⟩ (by simp [Broadcast.ahead, hstage]) fun hstage' _ => by cases hstage'
  | @pruned k tk rest answer hstage hanswer =>
      exact hstay.follow (by simp [hstage]) (by simp [hstage]) (Broadcast.onward_ne_asking _ _)
        ⟨by simp, by simp, by simp, by simp⟩ (by simp [Broadcast.ahead_pruning hstage]) onward_wire

end Advances

/-- In every world of a run, every broadcast has advanced like this. -/
theorem advances_run {w₀ : World} (h₀ : w₀.IsNew) {moves : List Move}
    (hmoves : w₀.Permitted moves) {t : TaskKey} {b : Broadcast}
    (hb : (w₀.run moves).broadcast? t = some b) : Advances w₀ moves (w₀.run moves) t b := by
  refine World.broadcast_induction h₀
    (P := fun moves t b => Advances w₀ moves (w₀.run moves) t b) .begin ?_ ?_ hmoves hb
  · intro moves m t b hmoves hstep _ hb h
    exact h.stay hb (World.requests_run h₀.requests hmoves) hstep
  · intro moves t b b' w₁ task' hmoves hstep hb hturn hw₁ h
    exact h.turn hb (World.requests_run h₀.requests hmoves) hstep hturn (by rw [hw₁]; rfl)

end LineRelay
