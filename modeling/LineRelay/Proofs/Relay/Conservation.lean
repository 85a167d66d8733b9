/-
# Short wires are kept whole

As long as a peer is open and the wires sent to it are shorter than the buffer,
failures lose nothing: what the transport received and what stands in the
buffer behind it are the wires of the calls that got the outlet, in the order
in which they got it.  All of them are there as a whole but for those that
stood before their wire, with older bytes to be written out first (`Conserved`).

| the call | its share |
| :-- | :-- |
| came back, and older bytes did not go out | nothing; it failed |
| came back otherwise | its wire |
| waits for older bytes to go out | nothing yet |
| waits for its own | its wire |

So a call that failed may find its wire sent later, with the next call or the
one after that, but never a part of it.  And a call that was sent has brought
the transport whatever stood in the buffer when the call got the outlet, then
its wire, and flushed it behind the last byte (`Share.Delivered`).

## What this is not

It is not said which wires were received: a call that failed is not told
whether its wire stands in the buffer.  And it is not so for longer wires,
which are written directly, nor for a peer that is closed, whose buffer is let
go as it is; what holds of all wires and of all peers is in `Shares`.
-/
import LineRelay.Proofs.Peer.Placing
import LineRelay.Proofs.Relay.Closing
import LineRelay.Proofs.Relay.Shares

namespace LineRelay

/-! ## Turns that take place -/

section

variable {w w' w₁ : World} {m : Move} {t : TaskKey} {k : PeerKey} {p q r : Peer}
  {state state' : SendState}

/-- A task whose send can take a turn can take one. -/
theorem World.Requests.exists_turn (hw : w.Requests) (hsend : w.send? t = some (k, state))
    (hp : w.peer? k = some p) {next : Peer × SendState}
    (hturn : p.sendTurn t w.shutdown state = some next) : ∃ w', w.turn t = some w' := by
  rcases World.send?_eq_some.1 hsend with ht | ⟨b, rest, hb, hstage⟩
  · refine ⟨(w.setPeer k next.1).setTask t (.send k next.2), ?_⟩
    simp only [World.turn, ht, Option.bind_some, World.taskTurn, World.sendTaskTurn, hp, hturn,
      Option.map_some]
  · obtain ⟨⟨w₁, b'⟩, hb'⟩ : ∃ next, w.broadcastTurn t b = some next := by
      simp only [World.broadcastTurn, hstage, hp, hturn, Option.map_some]
      exact ⟨_, rfl⟩
    obtain ⟨task, hmove, -⟩ := hw.turn_of_broadcastTurn hb hb'
    exact ⟨_, hmove⟩

/-- After a turn of its send to the peer `k`, which was `p` before it, a task is
`here`, in the world `w₁`.  If the send has failed, the peer may be closed by
then. -/
structure SendsTo (w : World) (t : TaskKey) (k : PeerKey) (p : Peer) (state : SendState)
    (w₁ : World) (here : Option (PeerKey × SendState)) (r : Peer) (state' : SendState) : Prop where
  step : p.SendStep t w.shutdown state r state'
  after : here = state'.at? k
  came : ∃ q, w₁.peer? k = some q ∧ (q = r ∨ q = r.close.1)

theorem BroadcastStep.sendsTo {b b' : Broadcast} {rest : List PeerKey}
    (h : BroadcastStep w t b w₁ b') (hstage : b.stage = .sending k state rest)
    (hp : w.peer? k = some p) : ∃ r state', SendsTo w t k p state w₁ b'.at? r state' := by
  cases h with
  | sends hstage' hpeer hstep _ =>
      cases hstage'.symm.trans hstage
      cases hpeer.symm.trans hp
      exact ⟨_, _, hstep, rfl, _, World.peer?_setPeer_self hp _, .inl rfl⟩
  | settles hstage' hpeer hstep _ =>
      cases hstage'.symm.trans hstage
      cases hpeer.symm.trans hp
      exact ⟨_, _, hstep, Broadcast.at?_onward _ _, _, World.peer?_setPeer_self hp _, .inl rfl⟩
  | fails hstage' hpeer hstep =>
      cases hstage'.symm.trans hstage
      cases hpeer.symm.trans hp
      refine ⟨_, _, hstep, rfl, _, World.peer?_closePeer_self ?_, .inr rfl⟩
      rw [World.peer?_noted, World.peer?_setPeer_self hp]
  | misses hstage' hnone =>
      cases hstage'.symm.trans hstage
      cases hnone.symm.trans hp
  | asks hstage' _ | skips hstage' _ | learns hstage' _ | prunes hstage' _ | pruned hstage' _ =>
      cases hstage'.symm.trans hstage

theorem TaskStep.sendsTo {task task' : Task} (h : TaskStep w t task w₁ task')
    (hsend : task.send? = some (k, state)) (hp : w.peer? k = some p) :
    ∃ r state', SendsTo w t k p state w₁ task'.at? r state' := by
  have hsending : ∀ {b : Broadcast}, b.send? = some (k, state) →
      ∃ rest, b.stage = .sending k state rest := by
    intro b hb
    cases hstage : b.stage with
    | sending j state' rest =>
        rw [Broadcast.send?, hstage] at hb
        cases hb
        exact ⟨rest, rfl⟩
    | asking _ | pruning _ _ _ | finished => simp [Broadcast.send?, hstage] at hb
  cases h with
  | send hpeer hstep =>
      cases hsend
      cases hpeer.symm.trans hp
      exact ⟨_, _, hstep, rfl, _, World.peer?_setPeer_self hp _, .inl rfl⟩
  | broadcast hstep =>
      obtain ⟨rest, hstage⟩ := hsending hsend
      exact hstep.sendsTo hstage hp
  | worker _ hstep =>
      cases hstep with
      | relays hstage hstep =>
          obtain ⟨rest, hstage⟩ := hsending
            (by simpa [Task.send?, Task.broadcast?, hstage] using hsend)
          rw [Task.at?_relayed]
          exact hstep.sendsTo hstage hp
      | registers hstage _ | starts hstage _ | drops hstage _ | quits hstage _
      | reads hstage _ _ _ | stops hstage _ _ _ _ | pauses hstage _ _ _ | unregisters hstage _
      | leaves hstage _ => simp [Task.send?, Task.broadcast?, hstage] at hsend
  | awaited _ _ | monitor _ | server _ => cases hsend

/-- A send that can take a turn takes it when it is its task's turn. -/
theorem World.Requests.sendsTo (hw : w.Requests) (hsend : w.send? t = some (k, state))
    (hp : w.peer? k = some p) (hturn : p.sendTurn t w.shutdown state = some (r, state')) :
    SendsTo w t k p state (w.move (.turn t)) ((w.move (.turn t)).at? t) r state' := by
  obtain ⟨w', hw'⟩ := hw.exists_turn hsend hp hturn
  obtain ⟨task, w₁, task', htask, hstep, rfl⟩ := taskStep_of_turn hw'
  have hmove : w.move (.turn t) = w₁.setTask t task' := by rw [World.move, hw', Option.getD_some]
  have htaskSend : task.send? = some (k, state) := by
    rwa [World.send?, htask, Option.bind_some] at hsend
  obtain ⟨r', state'', hsendStep, hafter, q, hq, hsame⟩ := hstep.sendsTo htaskSend hp
  cases hturn.symm.trans hsendStep.sendTurn
  rw [hmove]
  refine ⟨hsendStep, ?_, q, hq, hsame⟩
  rw [World.at?, hstep.setTask_self htask, Option.bind_some, hafter]

/-- What a move means for the outlet of a peer that is open after it, with
whether a send to it takes a turn. -/
inductive OpenStep (w : World) (m : Move) (w' : World) (k : PeerKey) (p q : Peer) : Prop
  | rests : (∀ t outcome, ¬ w.Returns t k m outcome) → p.Drifts q →
      (∀ t state, w'.at? t = some (k, state) ↔ w.at? t = some (k, state)) →
      OpenStep w m w' k p q
  | acts {t : TaskKey} {state state' : SendState} : m = .turn t → w.send? t = some (k, state) →
      p.SendStep t w.shutdown state q state' → w.at? t = state.at? k → w'.at? t = state'.at? k →
      (∀ t', t' ≠ t → w'.at? t' = w.at? t') → OpenStep w m w' k p q

theorem MoveStep.openStep (h : MoveStep w m w') (hmove : w' = w.move m) (hw : w.Requests)
    (hp : w.peer? k = some p) (hq : w'.peer? k = some q) (hopen : q.closed = false) :
    OpenStep w m w' k p q := by
  by_cases hturn : ∃ t state next, m = .turn t ∧ w.send? t = some (k, state)
      ∧ p.sendTurn t w.shutdown state = some next
  · obtain ⟨t, state, next, rfl, hsend, hnext⟩ := hturn
    obtain ⟨hsendStep, hafter, q', hq', hsame⟩ := hw.sendsTo hsend hp hnext
    rw [← hmove] at hafter hq'
    cases hq'.symm.trans hq
    -- an open peer was not closed by the turn
    obtain rfl := hsame.resolve_right fun hclosed => by
      rw [hclosed, Peer.closed_close] at hopen
      cases hopen
    refine .acts rfl hsend hsendStep (World.at?_of_send? hsend) hafter ?_
    intro t' hne
    exact h.at? fun e => hne (Move.turn.inj e).symm
  · cases h.outlet hp hq with
    | drifts hdrift hat =>
        refine .rests ?_ hdrift hat
        rintro t outcome ⟨state, p', q', hm, hsend, hp', hnext⟩
        cases hp'.symm.trans hp
        exact hturn ⟨t, state, _, hm, hsend, hnext⟩
    | acts hm hsend hstep _ _ _ _ => exact absurd ⟨_, _, _, hm, hsend, hstep.sendTurn⟩ hturn

end

/-! ## Calls -/

/-- The send of the task `t` to the peer `k` has older bytes to write out
first, and they do not go out. -/
def World.Jams (w : World) (t : TaskKey) (k : PeerKey) : Prop :=
  ∃ state p, w.send? t = some (k, state) ∧ w.peer? k = some p ∧ p.jams state = true

namespace Share

variable (w₀ : World) (moves : List Move) (k : PeerKey)

/-- With the move `n` the call comes back to its caller. -/
structure Returned (s : Share) (n : Nat) (outcome : SendOutcome) : Prop where
  start : s.start ≤ n
  writes : s.Writes w₀ moves k n
  turn : moves[n]? = some (.turn s.task)
  returns : (w₀.after moves n).Returns s.task k (.turn s.task) outcome

/-- The call is over: it failed before it could put its wire in, or it came
back, sent or failed, when its wire had been put in. -/
inductive Done (s : Share) : Prop
  | jammed {n : Nat} {f : Failure} : s.Returned w₀ moves k n (.failed f) →
      (w₀.after moves n).Jams s.task k → s.taken = [] → Done s
  | placed {n : Nat} {outcome : SendOutcome} : s.Returned w₀ moves k n outcome →
      outcome ≠ .closed → ¬ (w₀.after moves n).Jams s.task k → s.taken = s.wire → Done s

/-- Before the move `n` the call has the outlet.  What stood in the buffer when
it got the outlet, and its wire behind that, has come to the transport since or
is still to go, and nothing was flushed. -/
def Carrying (s : Share) (n : Nat) : Prop :=
  ∃ p q state, (w₀.after moves s.start).peer? k = some p ∧ (w₀.after moves n).peer? k = some q
    ∧ (w₀.after moves n).send? s.task = some (k, state)
    ∧ q.received ++ q.toGo state = p.received ++ (p.outlet.buffer ++ s.wire)
    ∧ q.flushed = p.flushed

/-- Between the move with which the call got the outlet and the move `n`, both
of them included, what stood in the buffer and the wire behind it have come to
the transport and nothing else has, and the transport was flushed, once and
behind the last byte. -/
def Delivered (s : Share) (n : Nat) : Prop :=
  ∃ p q, (w₀.after moves s.start).peer? k = some p ∧ (w₀.after moves (n + 1)).peer? k = some q
    ∧ q.received = p.received ++ (p.outlet.buffer ++ s.wire) ∧ q.outlet.buffer = []
    ∧ q.flushed = p.flushed + 1 ∧ q.AllFlushed

/-- What was taken of the wire of a call that stands like this. -/
def Stands (s : Share) (state : SendState) : Prop :=
  state.IsBefore s.wire ∧ s.taken = [] ∨ state.IsBehind ∧ s.taken = s.wire

variable {w₀ moves k} {s : Share} {n : Nat} {outcome : SendOutcome}

theorem Returned.extend (h : s.Returned w₀ moves k n outcome) (m : Move) :
    s.Returned w₀ (moves ++ [m]) k n outcome := by
  have hn := (List.getElem?_eq_some_iff.1 h.turn).1
  refine ⟨h.start, h.writes.extend hn.le m, ?_, ?_⟩
  · rw [List.getElem?_append_left hn, h.turn]
  · rw [World.after_append w₀ [m] hn.le]
    exact h.returns

theorem Done.extend (h : s.Done w₀ moves k) (m : Move) : s.Done w₀ (moves ++ [m]) k := by
  have hsame : ∀ {n outcome}, s.Returned w₀ moves k n outcome →
      w₀.after (moves ++ [m]) n = w₀.after moves n := fun h =>
    World.after_append w₀ [m] (List.getElem?_eq_some_iff.1 h.turn).1.le
  cases h with
  | jammed hreturned hjams htaken =>
      exact .jammed (hreturned.extend m) (by rwa [hsame hreturned]) htaken
  | placed hreturned hopen hjams htaken =>
      exact .placed (hreturned.extend m) hopen (by rwa [hsame hreturned]) htaken

end Share

/-! ## What a call that was sent has done -/

section Delivered

variable {w₀ : World} {moves : List Move} {k : PeerKey} {s : Share} {n : Nat} {m : Move} {p : Peer}

namespace Share

/-- A call that was waiting when it got the outlet has all of its bytes to go. -/
theorem Began.carrying (h : s.Began w₀ moves k) (hp : (w₀.after moves s.start).peer? k = some p) :
    s.Carrying w₀ moves k s.start := by
  rcases h.waited with hsend | hsend <;> exact ⟨p, p, _, hp, hp, hsend, rfl, rfl⟩

/-- A call that is writing after one more move carries on what it had to go. -/
theorem Carrying.succ (h : s.Carrying w₀ moves k n) (h₀ : w₀.IsNew) (hmoves : w₀.Permitted moves)
    (hm : moves[n]? = some m) {stage : SendStage}
    (hat : (w₀.after moves (n + 1)).at? s.task = some (k, .writing stage)) :
    s.Carrying w₀ moves k (n + 1) := by
  obtain ⟨p, q, state, hp, hq, hsend, hgo, hflushed⟩ := h
  have hlocks : (w₀.after moves n).Locks := World.locks_run h₀.locks (hmoves.take n)
  obtain ⟨r, hr, hgo', hflushed'⟩ := hlocks.keeps_toGo (hmoves.moveStep hm) hsend hq hat
  exact ⟨p, r, _, hp, hr, (World.at?_eq_some.1 hat).1, hgo'.trans hgo, hflushed'.trans hflushed⟩

/-- The peer was there when the call got its outlet. -/
theorem Returned.exists_peer {outcome : SendOutcome} (h : s.Returned w₀ moves k n outcome)
    (hbegan : s.Began w₀ moves k) (h₀ : w₀.IsNew) (hmoves : w₀.Permitted moves) :
    ∃ p, (w₀.after moves s.start).peer? k = some p := by
  obtain ⟨-, p, -, -, -, hp, -⟩ := h.returns
  rcases Nat.lt_or_eq_of_le h.start with hlt | heq
  · obtain ⟨stage, hat⟩ := h.writes (s.start + 1) (Nat.lt_succ_self _) hlt
    have hlocks : (w₀.after moves (s.start + 1)).Locks :=
      World.locks_run h₀.locks (hmoves.take (s.start + 1))
    obtain ⟨q, hq⟩ := hlocks.known hat
    exact Option.ne_none_iff_exists'.1 fun hnone =>
      hlocks.at?_of_comes (hmoves.moveStep hbegan.turn) hnone hq _ _ hat
  · exact ⟨p, heq ▸ hp⟩

/-- Until it comes back, a call carries what it has to go. -/
theorem Returned.carrying {outcome : SendOutcome} (h : s.Returned w₀ moves k n outcome)
    (hbegan : s.Began w₀ moves k) (h₀ : w₀.IsNew) (hmoves : w₀.Permitted moves) :
    s.Carrying w₀ moves k n := by
  obtain ⟨p, hp⟩ := h.exists_peer hbegan h₀ hmoves
  have hn := (List.getElem?_eq_some_iff.1 h.turn).1
  have hcarrying : ∀ j, s.start ≤ j → j ≤ n → s.Carrying w₀ moves k j := by
    intro j hj
    induction j, hj using Nat.le_induction with
    | base => exact fun _ => hbegan.carrying hp
    | succ j hj ih =>
        intro hle
        obtain ⟨stage, hat⟩ := h.writes (j + 1) (Nat.lt_succ_of_le hj) hle
        have hm : moves[j]? = some moves[j] := List.getElem?_eq_getElem (by omega)
        exact (ih (Nat.le_of_succ_le hle)).succ h₀ hmoves hm hat
  exact hcarrying n h.start le_rfl

/-- A call that was sent in a run that leaves the peer open has delivered. -/
theorem Returned.delivered (h : s.Returned w₀ moves k n .sent) (hbegan : s.Began w₀ moves k)
    (h₀ : w₀.IsNew) (hmoves : w₀.Permitted moves) (hp : (w₀.run moves).peer? k = some p)
    (hopen : p.closed = false) : s.Delivered w₀ moves k n := by
  obtain ⟨first, before, state, hfirst, hbefore, hsend, hgo, hflushed⟩ :=
    h.carrying hbegan h₀ hmoves
  obtain ⟨state₁, q₁, q, -, hsend₁, hq₁, hnext⟩ := h.returns
  cases hsend₁.symm.trans hsend
  cases hq₁.symm.trans hbefore
  have hfront := hmoves.take n
  have hlocks : (w₀.after moves n).Locks := World.locks_run h₀.locks hfront
  have hrequests : (w₀.after moves n).Requests := World.requests_run h₀.requests hfront
  obtain ⟨hsent, -, q', hq', hsame⟩ := hrequests.sendsTo hsend hbefore hnext
  rw [← World.after_succ w₀ h.turn] at hq'
  -- the peer is open in the end, so the turn has not closed it
  obtain rfl := hsame.resolve_right fun hclosed => by
    have hn := (List.getElem?_eq_some_iff.1 h.turn).1
    obtain ⟨r, hr, hlasts, -⟩ := (World.ages_run hmoves hn).peer hq'
    rw [World.after_length, hp] at hr
    cases hr
    rw [hlasts.closed (hclosed ▸ Peer.closed_close q)] at hopen
    cases hopen
  cases hlocks.carried hsend hbefore hsent with
  | sent _ hreceived hbuffer hcount hall =>
      refine ⟨first, q', hfirst, hq', hreceived.trans hgo, hbuffer, ?_, hall⟩
      rw [hcount, hflushed]

end Share

end Delivered

/-! ## The shares after each move -/

/-- How the last of the calls with these shares stands: it is over and nobody
writes, or it is writing.  The calls before it are over. -/
inductive LastShortCall (w₀ : World) (moves : List Move) (k : PeerKey) : List Share → Prop
  | free {shares : List Share} : (∀ s ∈ shares, s.Done w₀ moves k) →
      (∀ t stage, (w₀.run moves).at? t ≠ some (k, .writing stage)) → LastShortCall w₀ moves k shares
  | busy {init : List Share} {s : Share} {stage : SendStage} :
      (∀ s ∈ init, s.Done w₀ moves k) → (w₀.run moves).at? s.task = some (k, .writing stage) →
      s.Writes w₀ moves k moves.length → s.Stands (.writing stage) →
      LastShortCall w₀ moves k (init ++ [s])

/-- What the outlet of the peer `k`, which is `p`, has taken after a run of
short wires: what it came with, and then the shares.

* `returned`: every call that came back is among them;
* `queued`: whoever waits for the outlet waits with a short wire.
-/
structure TakenWhole (w₀ : World) (moves : List Move) (k : PeerKey) (p : Peer) (base : Bytes)
    (shares : List Share) : Prop where
  taken : p.outlet.taken = base ++ shares.flatMap Share.taken
  inTurn : InTurn w₀ moves k shares
  lastCall : LastShortCall w₀ moves k shares
  returned : ∀ {n t outcome}, moves[n]? = some (.turn t) →
    (w₀.after moves n).Returns t k (.turn t) outcome →
    ∃ s ∈ shares, s.task = t ∧ s.Returned w₀ moves k n outcome
  short : ∀ s ∈ shares, s.wire.length < capacity
  queued : ∀ {t wire}, (w₀.run moves).at? t = some (k, .queued wire) → wire.length < capacity

section TakenWhole

variable {w₀ : World} {moves : List Move} {m : Move} {k : PeerKey} {p q : Peer} {base : Bytes}
  {shares init : List Share} {s : Share} {t : TaskKey} {state state' : SendState} {wire : Bytes}

theorem done_extend (h : ∀ s ∈ shares, s.Done w₀ moves k) (m : Move) :
    ∀ s ∈ shares, s.Done w₀ (moves ++ [m]) k := fun s hs => (h s hs).extend m

/-- After a move with which nobody begins to write or stops, the last call
stands as it stood. -/
theorem LastShortCall.stay (h : LastShortCall w₀ moves k shares)
    (hat : ∀ t stage, (w₀.run (moves ++ [m])).at? t = some (k, .writing stage)
      ↔ (w₀.run moves).at? t = some (k, .writing stage)) :
    LastShortCall w₀ (moves ++ [m]) k shares := by
  cases h with
  | free hdone hnobody =>
      refine .free (done_extend hdone m) ?_
      intro t stage ht
      exact hnobody t stage ((hat t stage).1 ht)
  | busy hdone hbusy hwrites hstands =>
      have hbusy' := (hat _ _).2 hbusy
      exact .busy (done_extend hdone m) hbusy' (hwrites.concat hbusy') hstands

/-- A move with which no send to the peer takes a turn. -/
theorem TakenWhole.rest (h : TakenWhole w₀ moves k p base shares)
    (hnone : ∀ t outcome, ¬ (w₀.run moves).Returns t k m outcome) (hdrift : p.Drifts q)
    (hat : ∀ t state, (w₀.run (moves ++ [m])).at? t = some (k, state)
      ↔ (w₀.run moves).at? t = some (k, state)) : TakenWhole w₀ (moves ++ [m]) k q base shares where
  taken := hdrift.taken.trans h.taken
  inTurn := h.inTurn.extend m
  lastCall := h.lastCall.stay fun t _ => hat t _
  returned := by
    intro n t outcome hturn hreturns
    rcases World.move_concat_cases w₀ hturn with ⟨hturn, hbefore⟩ | ⟨-, rfl, hlast⟩
    · rw [hbefore] at hreturns
      obtain ⟨s, hs, htask, hreturned⟩ := h.returned hturn hreturns
      exact ⟨s, hs, htask, hreturned.extend m⟩
    · exact absurd (hlast ▸ hreturns) (hnone t outcome)
  short := h.short
  queued := fun ht => h.queued ((hat _ _).1 ht)

namespace Sends

/-- The only call that can come back with a turn of a send is that send. -/
theorem eq_of_returns (h : Sends w₀ moves m k t state state' p q q) {t' : TaskKey}
    {outcome : SendOutcome} (hreturns : (w₀.run moves).Returns t' k m outcome) :
    t' = t ∧ state' = .ended outcome := by
  obtain ⟨state₁, p₁, q₁, hm, hsend, hp, hturn⟩ := hreturns
  obtain rfl := Move.turn.inj (hm.symm.trans h.turn)
  cases hsend.symm.trans h.send
  cases hp.symm.trans h.came
  cases hturn.symm.trans h.step.sendTurn
  exact ⟨rfl, rfl⟩

/-- A call whose send comes back with the turn has come back with it. -/
theorem returned (h : Sends w₀ moves m k t state state' p q q) (htask : s.task = t)
    (hstart : s.start ≤ moves.length) (hwrites : s.Writes w₀ moves k moves.length)
    {outcome : SendOutcome} (hended : state' = .ended outcome) :
    s.Returned w₀ (moves ++ [m]) k moves.length outcome := by
  subst htask hended
  refine ⟨hstart, hwrites.extend (Nat.le_refl _) m, ?_, ?_⟩
  · rw [List.getElem?_concat_length, h.turn]
  · rw [World.after_concat]
    exact ⟨state, p, q, rfl, h.send, h.came, h.step.sendTurn⟩

theorem jams_iff (h : Sends w₀ moves m k t state state' p q q) :
    (w₀.after (moves ++ [m]) moves.length).Jams t k ↔ p.jams state = true := by
  rw [World.after_concat]
  constructor
  · rintro ⟨state₁, p₁, hsend, hp, hjams⟩
    cases hsend.symm.trans h.send
    cases hp.symm.trans h.came
    exact hjams
  · exact fun hjams => ⟨state, p, h.send, h.came, hjams⟩

/-- The last call after a turn of its own: it goes on writing, or it is over and
nobody writes. -/
theorem lastShortCall (h : Sends w₀ moves m k t state state' p q q)
    (hdone : ∀ s ∈ init, s.Done w₀ moves k) (htask : s.task = t)
    (hwrites : s.Writes w₀ moves k moves.length) (hopen : state' ≠ .ended .closed)
    (hruns : ∀ rest, state' ≠ .queued rest)
    (hwriting : ∀ stage, state' = .writing stage → s.Stands state')
    (hended : ∀ outcome, state' = .ended outcome → s.Done w₀ (moves ++ [m]) k) :
    LastShortCall w₀ (moves ++ [m]) k (init ++ [s]) := by
  match state' with
  | .fresh rest => exact absurd rfl (h.step.ne_fresh rest)
  | .queued rest => exact absurd rfl (hruns rest)
  | .writing stage =>
      have hat : (w₀.run (moves ++ [m])).at? s.task = some (k, .writing stage) := by
        rw [htask, h.after]
        rfl
      exact .busy (done_extend hdone m) hat (hwrites.concat hat) (hwriting stage rfl)
  | .ended outcome =>
      refine .free ?_ ?_
      · intro s' hs'
        rcases List.mem_append.1 hs' with hs' | hs'
        · exact (hdone s' hs').extend m
        · exact List.mem_singleton.1 hs' ▸ hended outcome rfl
      · intro t' stage ht'
        rcases eq_or_ne t' t with rfl | hne
        · rw [h.after] at ht'
          cases ht'
        · rw [h.others t' hne] at ht'
          exact hne (h.queued.alone h.step h.before hopen hruns ht')

/-- The last call after a turn from behind its wire. -/
theorem lastShortCall_of_behind (h : Sends w₀ moves m k t state state' p q q)
    (hdone : ∀ s ∈ init, s.Done w₀ moves k) (htask : s.task = t)
    (hstart : s.start ≤ moves.length) (hwrites : s.Writes w₀ moves k moves.length)
    (hjams : p.jams state = false) (htaken : s.taken = s.wire) (hbehind : state'.IsBehind) :
    LastShortCall w₀ (moves ++ [m]) k (init ++ [s]) := by
  have hopen : state' ≠ .ended .closed := by
    rintro rfl
    exact hbehind
  have hruns : ∀ rest, state' ≠ .queued rest := by
    rintro rest rfl
    exact hbehind
  refine h.lastShortCall hdone htask hwrites hopen hruns (fun _ _ => .inr ⟨hbehind, htaken⟩) ?_
  rintro outcome rfl
  refine .placed (h.returned htask hstart hwrites rfl) (fun e => hopen (by rw [e])) ?_ htaken
  rw [htask, h.jams_iff, hjams]
  exact Bool.false_ne_true

/-- The last call after a turn that had its wire before it. -/
theorem lastShortCall_of_before (h : Sends w₀ moves m k t state state' p q q)
    (hdone : ∀ s ∈ init, s.Done w₀ moves k) (htask : s.task = t)
    (hstart : s.start ≤ moves.length) (hwrites : s.Writes w₀ moves k moves.length)
    (hputs : p.Puts q s.wire state state') :
    ∃ part, q.outlet.taken = p.outlet.taken ++ part
      ∧ LastShortCall w₀ (moves ++ [m]) k (init ++ [{ s with taken := part }]) := by
  -- whatever was put in, the share is the same call
  have hwrites' : ∀ part, Share.Writes w₀ moves k { s with taken := part } moves.length :=
    fun _ => hwrites
  cases hputs with
  | waits _ htaken =>
      refine ⟨[], by rw [htaken, List.append_nil], ?_⟩
      exact h.lastShortCall hdone htask (hwrites' []) SendState.noConfusion
        (fun _ => SendState.noConfusion) (fun _ _ => .inl ⟨rfl, rfl⟩)
        fun _ => SendState.noConfusion
  | fails hjams htaken =>
      refine ⟨[], by rw [htaken, List.append_nil], ?_⟩
      refine h.lastShortCall hdone htask (hwrites' []) (by simp) (fun _ => SendState.noConfusion)
        (fun _ => SendState.noConfusion) ?_
      intro outcome hended
      cases hended
      refine .jammed (h.returned (s := { s with taken := [] }) htask hstart hwrites rfl) ?_ rfl
      rw [show Share.task { s with taken := [] } = t from htask]
      exact h.jams_iff.2 hjams
  | goes hjams htaken hbehind =>
      exact ⟨s.wire, htaken,
        h.lastShortCall_of_behind hdone htask hstart (hwrites' s.wire) hjams rfl hbehind⟩

/-- What a turn has done, if these are the shares after it. -/
theorem takenWhole (h : Sends w₀ moves m k t state state' p q q) {shares' : List Share}
    (hwhole : TakenWhole w₀ moves k p base shares)
    (htaken : q.outlet.taken = base ++ shares'.flatMap Share.taken)
    (hinTurn : InTurn w₀ (moves ++ [m]) k shares')
    (hshort : ∀ s ∈ shares', s.wire.length < capacity)
    (hcall : LastShortCall w₀ (moves ++ [m]) k shares')
    (hkeep : ∀ s ∈ shares, ∃ s' ∈ shares', s'.task = s.task ∧ s'.start = s.start)
    (hlast : ∀ outcome, state' = .ended outcome →
      ∃ s ∈ shares', s.task = t ∧ s.Returned w₀ (moves ++ [m]) k moves.length outcome)
    (hqueued : ∀ wire, state' = .queued wire → wire.length < capacity) :
    TakenWhole w₀ (moves ++ [m]) k q base shares' where
  taken := htaken
  inTurn := hinTurn
  lastCall := hcall
  returned := by
    intro n t' outcome hturn hreturns
    rcases World.move_concat_cases w₀ hturn with ⟨hturn, hbefore⟩ | ⟨rfl, rfl, hnow⟩
    · rw [hbefore] at hreturns
      obtain ⟨s, hs, htask, hreturned⟩ := hwhole.returned hturn hreturns
      obtain ⟨s', hs', htask', hstart'⟩ := hkeep s hs
      refine ⟨s', hs', htask'.trans htask, ?_⟩
      obtain ⟨hstart, hwrites, hmove, hback⟩ := hreturned.extend m
      rw [← hstart'] at hstart
      rw [← htask'] at hmove hback
      refine ⟨hstart, ?_, hmove, hback⟩
      intro j hj hle
      rw [htask']
      exact hwrites j (hstart' ▸ hj) hle
    · obtain ⟨rfl, hended⟩ := h.eq_of_returns (hnow ▸ hreturns)
      exact hlast outcome hended
  short := hshort
  queued := by
    intro t' wire ht'
    rcases eq_or_ne t' t with rfl | hne
    · rw [h.after] at ht'
      exact hqueued wire (SendState.at?_eq_some.1 ht').2.2
    · rw [h.others t' hne] at ht'
      exact hwhole.queued ht'

/-- A call that gets the outlet with the turn has a new share. -/
theorem opens (h : Sends w₀ moves m k t state state' p q q)
    (hwhole : TakenWhole w₀ moves k p base shares)
    (hwire : state = .fresh wire ∨ state = .queued wire) (hshort : wire.length < capacity)
    (hopen : state' ≠ .ended .closed) (hruns : ∀ rest, state' ≠ .queued rest) :
    ∃ shares', TakenWhole w₀ (moves ++ [m]) k q base shares' := by
  have hbefore : state.IsBefore wire := by
    rcases hwire with rfl | rfl <;> exact rfl
  have hnot : ∀ stage, state ≠ .writing stage := by
    rintro stage rfl
    rcases hwire with e | e <;> cases e
  -- nobody was writing, so the calls before this one are over
  have hdone : ∀ s ∈ shares, s.Done w₀ moves k := by
    cases hwhole.lastCall with
    | free hdone _ => exact hdone
    | @busy init s stage _ hbusy _ _ =>
        rw [h.queued.alone h.step h.before hopen hruns hbusy, h.before,
          SendState.at?_eq_some] at hbusy
        exact absurd hbusy.2.2 (hnot stage)
  obtain ⟨part, htaken, hcall⟩ := h.lastShortCall_of_before
    (s := ⟨t, moves.length, wire, []⟩) hdone rfl (Nat.le_refl _)
    (fun j hlt hle => absurd hlt (Nat.not_lt.2 hle)) (h.step.puts hopen hruns hbefore hshort)
  refine ⟨_, h.takenWhole hwhole ?_ (hwhole.inTurn.join rfl (h.began hwire)) ?_ hcall ?_ ?_
    fun rest e => absurd e (hruns rest)⟩
  · rw [htaken, hwhole.taken]
    simp
  · intro s hs
    rcases List.mem_append.1 hs with hs | hs
    · exact hwhole.short s hs
    · exact List.mem_singleton.1 hs ▸ hshort
  · exact fun s hs => ⟨s, List.mem_append_left _ hs, rfl, rfl⟩
  · intro outcome hended
    refine ⟨_, List.mem_append_right _ (List.mem_singleton_self _), rfl, ?_⟩
    exact h.returned rfl (Nat.le_refl _) (fun j hlt hle => absurd hlt (Nat.not_lt.2 hle)) hended

/-- A call that was writing has the last share, and goes on with it. -/
theorem continues (h : Sends w₀ moves m k t state state' p q q)
    (hwhole : TakenWhole w₀ moves k p base shares) {stage : SendStage}
    (hstate : state = .writing stage)
    (hopen : state' ≠ .ended .closed) (hruns : ∀ rest, state' ≠ .queued rest) :
    ∃ shares', TakenWhole w₀ (moves ++ [m]) k q base shares' := by
  subst hstate
  have hcall := hwhole.lastCall
  generalize hshares : shares = all at hcall
  cases hcall with
  | free _ hnobody => exact absurd h.before (hnobody t stage)
  | @busy init s stage' hdone hbusy hwrites hstands =>
      subst hshares
      obtain htask : s.task = t := h.queued.alone h.step h.before hopen hruns hbusy
      rw [htask] at hbusy
      cases hbusy.symm.trans h.before
      have hmem : s ∈ init ++ [s] := List.mem_append_right _ (List.mem_singleton_self s)
      have hstart := (hwhole.inTurn.began s hmem).lt.le
      obtain ⟨part, htaken, hcall⟩ : ∃ part, q.outlet.taken = p.outlet.taken ++ part
          ∧ LastShortCall w₀ (moves ++ [m]) k (init ++ [{ s with taken := s.taken ++ part }]) := by
        rcases hstands with ⟨hbefore, hnone⟩ | ⟨hbehind, hall⟩
        · rw [hnone]
          exact h.lastShortCall_of_before hdone htask hstart hwrites
            (h.step.puts hopen hruns hbefore (hwhole.short s hmem))
        · obtain ⟨htaken, hbehind'⟩ := h.step.follows hopen hbehind
          refine ⟨[], by rw [htaken, List.append_nil], ?_⟩
          rw [List.append_nil]
          refine h.lastShortCall_of_behind hdone htask hstart hwrites ?_ hall hbehind'
          match stage with
          | .makingRoom _ | .passing _ => exact absurd hbehind id
          | .emptying | .flushing => rfl
      refine ⟨_, h.takenWhole hwhole ?_ ((hwhole.inTurn.replace _).extend m) ?_ hcall ?_ ?_
        fun rest e => absurd e (hruns rest)⟩
      · rw [htaken, hwhole.taken]
        simp
      · intro s₁ hs₁
        rcases List.mem_append.1 hs₁ with hs₁ | hs₁
        · exact hwhole.short s₁ (List.mem_append_left _ hs₁)
        · rw [List.mem_singleton.1 hs₁]
          exact hwhole.short s hmem
      · intro s₁ hs₁
        rcases List.mem_append.1 hs₁ with hs₁ | hs₁
        · exact ⟨s₁, List.mem_append_left _ hs₁, rfl, rfl⟩
        · obtain rfl := List.mem_singleton.1 hs₁
          exact ⟨_, List.mem_append_right _ (List.mem_singleton_self _), rfl, rfl⟩
      · intro outcome hended
        refine ⟨_, List.mem_append_right _ (List.mem_singleton_self _), htask, ?_⟩
        exact h.returned (s := { s with taken := s.taken ++ part }) htask hstart hwrites hended

/-- A call that begins to wait has no share yet. -/
theorem waits (h : Sends w₀ moves m k t state state' p q q)
    (hwhole : TakenWhole w₀ moves k p base shares) (hwire : state' = .queued wire)
    (hnot : ∀ stage, state ≠ .writing stage) (hshort : wire.length < capacity) :
    TakenWhole w₀ (moves ++ [m]) k q base shares := by
  subst hwire
  refine h.takenWhole hwhole ?_ (hwhole.inTurn.extend m) hwhole.short ?_
    (fun s hs => ⟨s, hs, rfl, rfl⟩) (fun _ => SendState.noConfusion) ?_
  · rw [h.step.outlet_of_idle (.inr ⟨wire, rfl⟩), hwhole.taken]
  · exact hwhole.lastCall.stay (h.same hnot fun _ => SendState.noConfusion)
  · rintro rest e
    cases e
    exact hshort

end Sends

/-- Of a peer that has just come with nothing in its buffer, nobody has taken
the outlet yet. -/
theorem takenWhole_of_comes (hmoves : w₀.Permitted moves) (hlocks : (w₀.run moves).Locks)
    (hstep : MoveStep (w₀.run moves) m (w₀.run (moves ++ [m])))
    (hp : (w₀.run moves).peer? k = none) (hq : (w₀.run (moves ++ [m])).peer? k = some q)
    (hempty : q.outlet.buffer = []) : TakenWhole w₀ (moves ++ [m]) k q q.received [] := by
  have hnobody := (hlocks.step hstep).at?_of_comes hstep hp hq
  refine ⟨?_, ⟨.nil, fun s hs => absurd hs List.not_mem_nil⟩,
    .free (fun s hs => absurd hs List.not_mem_nil) fun t stage => hnobody t _, ?_,
    fun s hs => absurd hs List.not_mem_nil, fun ht => absurd ht (hnobody _ _)⟩
  · rw [Outlet.taken, hempty]
    rfl
  · rintro n t outcome hturn ⟨state, p, -, -, -, hp', -⟩
    rcases World.move_concat_cases w₀ hturn with ⟨hturn, hbefore⟩ | ⟨-, -, hbefore⟩
    · have hn := (List.getElem?_eq_some_iff.1 hturn).1
      obtain ⟨q', hq', -⟩ := (World.ages_run hmoves hn.le).peer (hbefore ▸ hp')
      rw [World.after_length, hp] at hq'
      cases hq'
    · rw [hbefore, hp] at hp'
      cases hp'

/-- With every permitted move that leaves the peer open, short wires are taken
whole. -/
theorem TakenWhole.step (h : TakenWhole w₀ moves k p base shares) (hw : (w₀.run moves).Requests)
    (hlocks : (w₀.run moves).Locks)
    (hstep : MoveStep (w₀.run moves) m (w₀.run (moves ++ [m])))
    (hp : (w₀.run moves).peer? k = some p) (hq : (w₀.run (moves ++ [m])).peer? k = some q)
    (hopen : q.isClosed (w₀.run (moves ++ [m])).shutdown = false)
    (hshort : ∀ {t wire}, (w₀.run moves).send? t = some (k, .fresh wire) → wire.length < capacity) :
    ∃ shares', TakenWhole w₀ (moves ++ [m]) k q base shares' := by
  have hunclosed : q.closed = false := (Bool.or_eq_false_iff.1 hopen).1
  cases hstep.openStep (World.run_concat _ _ _) hw hp hq hunclosed with
  | rests hnone hdrift hat => exact ⟨shares, h.rest hnone hdrift hat⟩
  | @acts t state state' hm hsend hsendStep hbefore hafter hothers =>
      have hsends : Sends w₀ moves m k t state state' p q q :=
        ⟨hm, hsend, hp, hlocks.queued hp, hsendStep, .refl q, hbefore, hafter, hothers,
          hstep.shutdown⟩
      have hnot : state' ≠ .ended .closed := hsendStep.ne_closed <| by
        refine Bool.eq_false_iff.2 fun hclosed => ?_
        cases ((Peer.Lasts.refl q).isClosed hstep.shutdown hclosed).symm.trans hopen
      -- a wire that waits is as short as when it came
      have hwire : ∀ {wire}, state = .fresh wire ∨ state = .queued wire →
          wire.length < capacity := by
        rintro wire (rfl | rfl)
        · exact hshort hsend
        · exact h.queued hbefore
      by_cases hruns : ∃ rest, state' = .queued rest
      · obtain ⟨rest, hrest⟩ := hruns
        have hstate := hsendStep.wire (.inr hrest)
        refine ⟨shares, hsends.waits h hrest ?_ (hwire hstate)⟩
        rintro stage rfl
        rcases hstate with e | e <;> cases e
      · have hruns : ∀ rest, state' ≠ .queued rest := fun rest e => hruns ⟨rest, e⟩
        cases hstate : state with
        | fresh wire => exact hsends.opens h (.inl hstate) (hwire (.inl hstate)) hnot hruns
        | queued wire => exact hsends.opens h (.inr hstate) (hwire (.inr hstate)) hnot hruns
        | writing stage => exact hsends.continues h hstate hnot hruns
        | ended outcome => exact absurd hstate (hsendStep.not_ended outcome)

end TakenWhole

/-! ## Runs -/

/-- In a run in which all peers come with a buffer that holds no more than it
may, no buffer ever does. -/
theorem fits_run {w₀ : World} (h₀ : w₀.IsNew) {moves : List Move} (hmoves : w₀.Permitted moves)
    (hfits : ∀ c, .connect c ∈ moves → c.peer.outlet.buffer.length ≤ capacity) {k : PeerKey}
    {p : Peer} (hp : (w₀.run moves).peer? k = some p) : p.outlet.buffer.length ≤ capacity := by
  obtain ⟨-, -, -, -, -, hrun⟩ := World.peer_induction h₀ (k := k)
    (P := fun moves _ p => (∀ c, .connect c ∈ moves → c.peer.outlet.buffer.length ≤ capacity) →
      p.outlet.buffer.length ≤ capacity)
    (fun {moves m q} _ hstep hnone hq hfits => by
      rcases hstep.newcomer hnone hq with ⟨c, rfl, rfl⟩ | ⟨_, _, _, rfl⟩
      · exact hfits c (by simp)
      · exact Nat.zero_le _)
    (fun {moves m _ p q} hmoves hstep hp hq hkept hfits => by
      have hbefore := hkept fun c hc => hfits c (List.mem_append_left _ hc)
      cases hstep.outlet hp hq with
      | drifts hdrift _ => exact hdrift.buffer ▸ hbefore
      | acts _ _ hsend hdrift hat _ _ =>
          rw [hdrift.buffer]
          refine hsend.fits hbefore ?_
          rintro stage rfl
          exact (((World.locks_run h₀.locks hmoves).queued hp).first hat).2)
    hmoves hp
  exact hrun hfits

/-- All wires that are sent to the peer `k` in the run are shorter than the
buffer. -/
def ShortTo (w₀ : World) (moves : List Move) (k : PeerKey) : Prop :=
  ∀ n t wire, (w₀.after moves n).send? t = some (k, .fresh wire) → wire.length < capacity

theorem ShortTo.front {w₀ : World} {moves : List Move} {m : Move} {k : PeerKey}
    (h : ShortTo w₀ (moves ++ [m]) k) : ShortTo w₀ moves k := by
  intro n t wire hsend
  rcases le_total n moves.length with hn | hn
  · exact h n t wire (by rwa [World.after_append w₀ [m] hn])
  · rw [World.after_of_length_le w₀ hn] at hsend
    exact h moves.length t wire (by rwa [World.after_concat])

/-- Whether a send that the task has not begun has a wire shorter than the
buffer. -/
def Task.isShort (task : Task) : Bool :=
  match task.send? with
  | some (_, .fresh wire) => wire.length < capacity
  | _ => true

/-- Of a given run it can be checked whether all wires are short. -/
theorem shortTo_of_tasks {w₀ : World} {moves : List Move} {k : PeerKey}
    (h : ∀ n ≤ moves.length, (w₀.after moves n).tasks.all Task.isShort = true) :
    ShortTo w₀ moves k := by
  intro n t wire hsend
  have hshort : (w₀.after moves n).tasks.all Task.isShort = true := by
    rcases le_total n moves.length with hn | hn
    · exact h n hn
    · rw [World.after_of_length_le w₀ hn, ← w₀.after_length]
      exact h moves.length le_rfl
  obtain ⟨task, htask, hsend⟩ := Option.bind_eq_some_iff.1 hsend
  have hwire := List.all_eq_true.1 hshort task (List.mem_of_getElem? htask)
  simpa [Task.isShort, hsend] using hwire

/-- In a run of short wires to an open peer, they are taken whole. -/
theorem takenWhole_run {w₀ : World} (h₀ : w₀.IsNew) {moves : List Move}
    (hmoves : w₀.Permitted moves) (hempty : ∀ c, .connect c ∈ moves → c.peer.outlet.buffer = [])
    {k : PeerKey} {p : Peer} (hshort : ShortTo w₀ moves k)
    (hp : (w₀.run moves).peer? k = some p) (hopen : p.isClosed (w₀.run moves).shutdown = false) :
    ∃ n first shares, (w₀.after moves n).peer? k = none
      ∧ (w₀.after moves (n + 1)).peer? k = some first ∧ n < moves.length
      ∧ TakenWhole w₀ moves k p first.received shares := by
  obtain ⟨n, first, hnone, hfirst, hn, hrun⟩ := World.peer_induction h₀
    (P := fun moves first p => (∀ c, .connect c ∈ moves → c.peer.outlet.buffer = []) →
      ShortTo w₀ moves k → p.isClosed (w₀.run moves).shutdown = false →
      ∃ shares, TakenWhole w₀ moves k p first.received shares)
    (fun {moves m q} hmoves hstep hnone hq hempty _ _ => by
      refine ⟨[], takenWhole_of_comes hmoves (World.locks_run h₀.locks hmoves) hstep hnone hq ?_⟩
      rcases hstep.newcomer hnone hq with ⟨c, rfl, rfl⟩ | ⟨_, _, _, rfl⟩
      · exact hempty c (by simp)
      · rfl)
    (fun {moves m first p q} hmoves hstep hp hq hkept hempty hshort hopen => by
      obtain ⟨q', hq', hlasts⟩ := hstep.lasts hp
      cases hq'.symm.trans hq
      have hopen₀ : p.isClosed (w₀.run moves).shutdown = false := by
        refine Bool.eq_false_iff.2 fun hclosed => ?_
        cases (hlasts.isClosed hstep.shutdown hclosed).symm.trans hopen
      obtain ⟨shares, hwhole⟩ :=
        hkept (fun c hc => hempty c (List.mem_append_left _ hc)) hshort.front hopen₀
      refine hwhole.step (World.requests_run h₀.requests hmoves) (World.locks_run h₀.locks hmoves)
        hstep hp hq hopen fun {t wire} hsend => hshort moves.length t wire ?_
      rwa [w₀.after_concat moves m])
    hmoves hp
  obtain ⟨shares, hwhole⟩ := hrun hempty hshort hopen
  exact ⟨n, first, shares, hnone, hfirst, hn, hwhole⟩

/-- What became of the wires sent to the peer `k`, which is `p` after the run
and had received `base` when it came.

* `taken`: what was received, and what stands in the buffer behind it, are
  the shares;
* `ordered`: they stand in the order in which their calls got the outlet;
* `fates`: each call is over, with its wire taken or none of it, or is
  writing;
* `returned`: every call that came back has a share;
* `fits`: the buffer is not overfull;
* `sent`: a call that was sent has brought the transport all of its wire, left
  nothing in the buffer, and flushed the transport behind the last byte.
-/
structure Conserved (w₀ : World) (moves : List Move) (k : PeerKey) (p : Peer) (base : Bytes)
    (shares : List Share) : Prop where
  taken : p.received ++ p.outlet.buffer = base ++ shares.flatMap Share.taken
  ordered : shares.Pairwise fun s s' => s.start < s'.start
  began : ∀ s ∈ shares, s.Began w₀ moves k
  fates : ∀ s ∈ shares, s.Done w₀ moves k ∨ ∃ stage,
    (w₀.run moves).at? s.task = some (k, .writing stage) ∧ s.Writes w₀ moves k moves.length
      ∧ s.Stands (.writing stage)
  returned : ∀ {n t outcome}, moves[n]? = some (.turn t) →
    (w₀.after moves n).Returns t k (.turn t) outcome →
    ∃ s ∈ shares, s.task = t ∧ s.Returned w₀ moves k n outcome
  fits : p.outlet.buffer.length ≤ capacity
  sent : ∀ {s n}, s ∈ shares → s.Returned w₀ moves k n .sent → s.Delivered w₀ moves k n

theorem LastShortCall.fates {w₀ : World} {moves : List Move} {k : PeerKey} {shares : List Share}
    (h : LastShortCall w₀ moves k shares) : ∀ s ∈ shares, s.Done w₀ moves k ∨ ∃ stage,
      (w₀.run moves).at? s.task = some (k, .writing stage) ∧ s.Writes w₀ moves k moves.length
        ∧ s.Stands (.writing stage) := by
  intro s hs
  cases h with
  | free hdone _ => exact .inl (hdone s hs)
  | busy hdone hbusy hwrites hstands =>
      rcases List.mem_append.1 hs with hs | hs
      · exact .inl (hdone s hs)
      · obtain rfl := List.mem_singleton.1 hs
        exact .inr ⟨_, hbusy, hwrites, hstands⟩

/-- However the transport answers, short wires to a peer that is open are kept
whole and in order. -/
theorem wires_conserved {moves : List Move} (hmoves : ({} : World).Permitted moves)
    (hempty : ∀ c, .connect c ∈ moves → c.peer.outlet.buffer = []) {k : PeerKey} {p : Peer}
    (hshort : ShortTo {} moves k) (hp : (World.run {} moves).peer? k = some p)
    (hopen : p.isClosed (World.run {} moves).shutdown = false) :
    ∃ n first shares, (World.after {} moves n).peer? k = none
      ∧ (World.after {} moves (n + 1)).peer? k = some first
      ∧ Conserved {} moves k p first.received shares := by
  have h₀ := World.isNew_empty
  obtain ⟨n, first, shares, hnone, hfirst, -, hwhole⟩ :=
    takenWhole_run h₀ hmoves hempty hshort hp hopen
  refine ⟨n, first, shares, hnone, hfirst, hwhole.taken, hwhole.inTurn.ordered,
    hwhole.inTurn.began, hwhole.lastCall.fates, hwhole.returned, ?_, ?_⟩
  · exact fits_run h₀ hmoves (fun c hc => by rw [hempty c hc]; exact Nat.zero_le _) hp
  · intro s n hs hreturned
    exact hreturned.delivered (hwhole.inTurn.began s hs) h₀ hmoves hp
      (Bool.or_eq_false_iff.1 hopen).1

/-- Three sends to one peer.  Of the first wire one byte goes out, and the rest
stands in the buffer; the second finds no room for its wire, and the transport
takes no byte; the third just fits, waits until the transport is ready again,
and then goes out. -/
def refilling : List Move :=
  [.connect ⟨{ info := ⟨⟨1⟩, ⟨"peer"⟩, 0⟩, outlet := { transport :=
        { writes := [.takes 1, .fails ⟨.brokenPipe, none⟩, .takes 0, .stalls] } } }, .silent⟩,
    .spawn (.send 0 (.fresh (List.replicate 8191 97))), .spawn (.send 0 (.fresh [98, 98, 10])),
    .spawn (.send 0 (.fresh [99, 10])), .turn 0, .turn 1, .turn 2, .wake 0, .turn 2]

/-- In `refilling` the wires of the first and of the third send are received,
though the first has failed; of the second there is nothing.  The third has
flushed them. -/
theorem wires_conserved_refilling : ({} : World).Permitted refilling ∧ ShortTo {} refilling 0
    ∧ ∃ p, (World.run {} refilling).peer? 0 = some p
      ∧ p.isClosed (World.run {} refilling).shutdown = false
      ∧ p.received.drop 8190 = [97, 99, 10] ∧ p.outlet.buffer = []
      ∧ (World.run {} refilling).tasks.map Task.value?
        = [some (.sent (.failed ⟨.brokenPipe, none⟩)), some (.sent (.failed Outlet.bufferRefused)),
          some (.sent .sent)]
      ∧ ∃ (first : Peer) (shares : List Share),
        Conserved {} refilling 0 p first.received shares
        ∧ ∃ s ∈ shares, s.task = 2 ∧ s.Returned {} refilling 0 8 .sent
          ∧ s.Delivered {} refilling 0 8 := by
  have hmoves : ({} : World).Permitted refilling := by decide +kernel
  have hempty : ∀ c, .connect c ∈ refilling → c.peer.outlet.buffer = [] :=
    forall_connections (by decide)
  have hshort : ShortTo {} refilling 0 := shortTo_of_tasks (by decide +kernel)
  obtain ⟨p, hp, hopen, hend⟩ : ∃ p, (World.run {} refilling).peer? 0 = some p
      ∧ p.isClosed (World.run {} refilling).shutdown = false
      ∧ p.received.drop 8190 = [97, 99, 10] ∧ p.outlet.buffer = [] := by
    refine ⟨((World.run {} refilling).peer? 0).get (by decide +kernel),
      Option.some_get _ |>.symm, ?_⟩
    decide +kernel
  obtain ⟨-, first, shares, -, -, hconserved⟩ :=
    wires_conserved hmoves hempty hshort hp hopen
  -- the last move is the turn with which the third send comes back
  have hreturns : (World.after {} refilling 8).Returns 2 0 (.turn 2) .sent := by
    have hsend : (World.after {} refilling 8).send? 2 = some (0, .writing .emptying) := by
      decide +kernel
    have hturn : (((World.after {} refilling 8).peer? 0).bind fun p =>
        (p.sendTurn 2 (World.after {} refilling 8).shutdown (.writing .emptying)).map Prod.snd)
          = some (.ended .sent) := by decide +kernel
    obtain ⟨p, hp, hturn⟩ := Option.bind_eq_some_iff.1 hturn
    obtain ⟨⟨q, _⟩, hnext, rfl⟩ := Option.map_eq_some_iff.1 hturn
    exact ⟨_, p, q, rfl, hsend, hp, hnext⟩
  obtain ⟨s, hs, htask, hreturned⟩ := hconserved.returned (n := 8) rfl hreturns
  exact ⟨hmoves, hshort, p, hp, hopen, hend.1, hend.2, by decide +kernel, first, shares,
    hconserved, s, hs, htask, hreturned, hconserved.sent hs hreturned⟩

end LineRelay
