/-
# What a move does to one handle

`OutletChange` says what a move means for the bytes of a peer.  Here is the
whole of it: a move leaves a peer as it is, or it is one of

| | the peer after it |
| :-- | :-- |
| `sends` | a send to it took a turn |
| `closes` | `close` was called on it |
| `fires` | its close signal fired |
| `scripts` | the network is ready to answer something else |

`CallsClose` lists who calls `close`: someone outside, a broadcast that could
not write, and a worker at its end.  `Returns` is the moment at which a send
comes back to its caller.
-/
import LineRelay.Proofs.Relay.Surveys

namespace LineRelay

/-! ## Calls -/

/-- With the move `m` someone calls `close` on the peer `k`, which is `r`
when the call looks at it: someone outside does, or a broadcast that could
not write to it, or its worker, which could not register it or has
unregistered it. -/
inductive World.CallsClose (w : World) (k : PeerKey) : Move → Peer → Prop
  | outside {r : Peer} : w.peer? k = some r → w.CallsClose k (.close k) r
  | prunes {t : TaskKey} {b : Broadcast} {state : SendState} {rest : List PeerKey} {p r : Peer}
      {f : Failure} : w.broadcast? t = some b → b.stage = .sending k state rest →
      w.peer? k = some p → p.sendTurn t w.shutdown state = some (r, .ended (.failed f)) →
      w.CallsClose k (.turn t) r
  | drops {t : TaskKey} {wk : Worker} {tk : Ticket} {e : RequestError} {r : Peer} :
      w.tasks[t]? = some (.worker wk) → wk.peer = k → wk.stage = .registering (.waiting tk) →
      w.registry.answer? tk = some (.error e) → w.peer? k = some r → w.CallsClose k (.turn t) r
  | leaves {t : TaskKey} {wk : Worker} {reason : Reason} {tk : Ticket}
      {answer : Except RequestError Reply} {r : Peer} :
      w.tasks[t]? = some (.worker wk) → wk.peer = k → wk.stage = .leaving reason (.waiting tk) →
      w.registry.answer? tk = some answer → w.peer? k = some r → w.CallsClose k (.turn t) r

/-- With the move `m` the send of the task `t` to the peer `k` ends. -/
def World.Returns (w : World) (t : TaskKey) (k : PeerKey) (m : Move) (outcome : SendOutcome) :
    Prop :=
  ∃ state p q, m = .turn t ∧ w.send? t = some (k, state) ∧ w.peer? k = some p
    ∧ p.sendTurn t w.shutdown state = some (q, .ended outcome)

/-! ## One move -/

/-- What a move does to the peer `k`, which is `p` before it. -/
inductive HandleStep (w : World) (m : Move) (k : PeerKey) (p : Peer) : Peer → Prop
  | keeps : HandleStep w m k p p
  | sends {t : TaskKey} {state state' : SendState} {q : Peer} : m = .turn t →
      w.send? t = some (k, state) → p.SendStep t w.shutdown state q state' →
      HandleStep w m k p q
  | closes {r : Peer} : w.CallsClose k m r → HandleStep w m k p r.close.1
  | fires : m = .fire k → HandleStep w m k p p.fire
  | scripts {f : Transport → Transport} :
      m = .wake k ∧ f = Transport.wake
        ∨ (∃ a, m = .answer k a ∧ f = fun t => { t with writes := t.writes ++ [a] }) →
      HandleStep w m k p { p with outlet := { p.outlet with transport := f p.outlet.transport } }

section

variable {w w' : World} {m : Move} {t : TaskKey} {k : PeerKey} {p : Peer}

theorem World.peer?_onPeer (w : World) (j : PeerKey) (f : Peer → Peer) (k : PeerKey) :
    (w.onPeer j f).peer? k = if k = j then (w.peer? k).map f else w.peer? k := by
  unfold onPeer
  cases hj : w.peer? j with
  | none =>
      split_ifs with hk
      · rw [hk, hj]
        rfl
      · rfl
  | some q =>
      rw [peer?_setPeer, hj]
      split_ifs with hk
      · rw [hk, hj]
        rfl
      · rfl

/-- A change of the peer `j` in a way that the move may change the peer `k`. -/
theorem HandleStep.onPeer {j : PeerKey} {f : Peer → Peer} (hp : w.peer? k = some p)
    (h : k = j → HandleStep w m k p (f p)) :
    ∃ q, (w.onPeer j f).peer? k = some q ∧ HandleStep w m k p q := by
  rw [World.peer?_onPeer, hp]
  split_ifs with hk
  · exact ⟨_, rfl, h hk⟩
  · exact ⟨_, rfl, .keeps⟩

/-- A turn of the send to the peer `j` is one of the send to the peer `k`, or
leaves it alone. -/
theorem HandleStep.setPeer {j : PeerKey} {r q : Peer} (hp : w.peer? k = some p)
    (hr : w.peer? j = some r) (h : k = j → r = p → HandleStep w m k p q) :
    ∃ q', (w.setPeer j q).peer? k = some q' ∧ HandleStep w m k p q' := by
  rw [World.peer?_setPeer, hr]
  split_ifs with hk
  · exact ⟨q, rfl, h hk (Option.some.inj (hr.symm.trans (hk ▸ hp)))⟩
  · exact ⟨p, hp, .keeps⟩

theorem BroadcastStep.handle {b b' : Broadcast} (h : BroadcastStep w t b w' b')
    (hb : w.broadcast? t = some b) (hp : w.peer? k = some p) :
    ∃ q, w'.peer? k = some q ∧ HandleStep w (.turn t) k p q := by
  cases h with
  | asks _ _ | skips _ _ | learns _ _ | misses _ _ | prunes _ _ | pruned _ _ =>
      exact ⟨p, hp, .keeps⟩
  | sends hstage hpeer hsend _ | settles hstage hpeer hsend _ =>
      refine HandleStep.setPeer hp hpeer ?_
      rintro rfl rfl
      exact .sends rfl (World.send?_eq_some.2 (.inr ⟨b, _, hb, hstage⟩)) hsend
  | @fails j state rest r q f closedIt hstage hpeer hsend =>
      rw [World.peer?_closePeer, World.peer?_noted, World.peer?_noted,
        World.peer?_setPeer_self hpeer, World.peer?_setPeer]
      split_ifs with hk
      · subst hk
        exact ⟨_, rfl, .closes (.prunes hb hstage hpeer hsend.sendTurn)⟩
      · exact ⟨p, hp, .keeps⟩

theorem WorkerStep.handle {wk wk' : Worker} {c : Connection} (h : WorkerStep w t wk c w' wk')
    (ht : w.tasks[t]? = some (.worker wk)) (hp : w.peer? k = some p) :
    ∃ q, w'.peer? k = some q ∧ HandleStep w (.turn t) k p q := by
  cases h with
  | registers _ _ | starts _ _ | quits _ _ | unregisters _ _ => exact ⟨p, hp, .keeps⟩
  | reads _ _ _ _ | stops _ _ _ _ _ | pauses _ _ _ _ =>
      exact ⟨p, by simpa using hp, .keeps⟩
  | drops hstage hanswer =>
      rw [World.peer?_closePeer, World.peer?_noted, World.peer?_noted]
      split_ifs with hk
      · subst hk
        rw [hp]
        exact ⟨_, rfl, .closes (.drops ht rfl hstage hanswer hp)⟩
      · exact ⟨p, hp, .keeps⟩
  | leaves hstage hanswer =>
      rw [World.closePeer_eq]
      refine HandleStep.onPeer hp ?_
      rintro rfl
      exact .closes (.leaves ht rfl hstage hanswer hp)
  | relays hstage hstep =>
      exact hstep.handle (World.broadcast?_eq_some.2 (.inr ⟨wk, ht, hstage⟩)) hp

theorem TaskStep.handle {task task' : Task} (h : TaskStep w t task w' task')
    (ht : w.tasks[t]? = some task) (hp : w.peer? k = some p) :
    ∃ q, w'.peer? k = some q ∧ HandleStep w (.turn t) k p q := by
  cases h with
  | awaited _ _ => exact ⟨p, hp, .keeps⟩
  | send hpeer hsend =>
      refine HandleStep.setPeer hp hpeer ?_
      rintro rfl rfl
      exact .sends rfl (World.send?_eq_some.2 (.inl ht)) hsend
  | broadcast hstep => exact hstep.handle (World.broadcast?_eq_some.2 (.inl ht)) hp
  | worker _ hstep => exact hstep.handle ht hp
  | monitor hstep => cases hstep <;> exact ⟨p, hp, .keeps⟩
  | server hstep =>
      cases hstep with
      | starts _ | ends _ _ | misses _ _ _ | joins _ _ => exact ⟨p, hp, .keeps⟩
      | accepts _ _ _ =>
          refine ⟨p, ?_, .keeps⟩
          rw [World.peer?_spawn, World.peer?_connect, if_neg (World.lt_length_of_peer? hp).ne, hp]

/-- Every move does one of these to a peer. -/
theorem World.handle_move (w : World) (m : Move) (hp : w.peer? k = some p) :
    ∃ q, (w.move m).peer? k = some q ∧ HandleStep w m k p q := by
  cases m with
  | serve rank =>
      refine ⟨p, ?_, .keeps⟩
      simp only [move, serve]
      cases w.registry.serve rank with
      | none => exact hp
      | some served =>
          obtain ⟨r, (_ | _ | _)⟩ := served <;> exact hp
  | turn t =>
      simp only [move]
      cases hturn : w.turn t with
      | none => exact ⟨p, hp, .keeps⟩
      | some w' =>
          obtain ⟨task, w₁, task', htask, hstep, rfl⟩ := taskStep_of_turn hturn
          exact hstep.handle htask hp
  | supply j d =>
      refine ⟨p, ?_, .keeps⟩
      simp only [move, supply]
      split
      · rw [peer?_setInlet, hp]
      · exact hp
  | wake j =>
      refine HandleStep.onPeer hp ?_
      rintro rfl
      exact .scripts (.inl ⟨rfl, rfl⟩)
  | answer j a =>
      refine HandleStep.onPeer hp ?_
      rintro rfl
      exact .scripts (.inr ⟨a, rfl, rfl⟩)
  | arrive server a =>
      refine ⟨p, ?_, .keeps⟩
      simp only [move, arrive]
      split <;> exact hp
  | connect c =>
      exact ⟨p, by rw [move, peer?_connect, if_neg (lt_length_of_peer? hp).ne, hp], .keeps⟩
  | close j =>
      rw [move, closePeer_eq]
      refine HandleStep.onPeer hp ?_
      rintro rfl
      exact .closes (.outside hp)
  | fire j =>
      refine HandleStep.onPeer hp ?_
      rintro rfl
      exact .fires rfl
  | request c =>
      refine ⟨p, ?_, .keeps⟩
      simp only [move, request]
      split_ifs <;> exact hp
  | shutdown | elapse _ | stopRegistry | spawn _ => exact ⟨p, hp, .keeps⟩

/-! ## Calls that close -/

/-- A broadcast that cannot write closes the peer in the same turn, and notes
what it was answered. -/
theorem World.broadcastTurn_fails {b : Broadcast} {state : SendState} {rest : List PeerKey}
    {r : Peer} {f : Failure} (hstage : b.stage = .sending k state rest)
    (hp : w.peer? k = some p)
    (hsend : p.sendTurn t w.shutdown state = some (r, .ended (.failed f))) :
    w.broadcastTurn t b
      = some ((((w.setPeer k r).noted [.sendFailed k r.info f]).closePeer k).1,
          { b.attempted ⟨k, .failed f, r.close.2⟩ with
            stage := .pruning k (.entering (.unregister r.info.id .writeFailed)) rest }) := by
  have hclose : (((w.setPeer k r).noted [.sendFailed k r.info f]).closePeer k).2 = r.close.2 := by
    rw [closePeer, peer?_noted, peer?_setPeer_self hp]
  simp only [broadcastTurn, hstage, hp, hsend, Option.map_some, afterSend, note_eq, hclose,
    Broadcast.attempted]

/-- A call that closes a peer does so. -/
theorem World.CallsClose.peer? {r : Peer} (h : w.CallsClose k m r) (hw : w.Requests) :
    (w.move m).peer? k = some r.close.1 := by
  have hworker : ∀ {wk : Worker} {r : Peer}, wk.peer = k → w.peer? k = some r →
      ∃ c, w.connections[wk.peer]? = some c := by
    rintro wk r rfl hr
    obtain ⟨c, hc, -⟩ := Option.map_eq_some_iff.1 hr
    exact ⟨c, hc⟩
  cases h with
  | outside hr => exact peer?_closePeer_self hr
  | prunes hb hstage hp hsend =>
      obtain ⟨task, hturn, -⟩ := hw.turn_of_broadcastTurn hb (broadcastTurn_fails hstage hp hsend)
      rw [move, hturn, Option.getD_some, peer?_setTask]
      exact peer?_closePeer_self (by rw [peer?_noted, peer?_setPeer_self hp])
  | drops ht hpeer hstage hanswer hr =>
      obtain ⟨c, hc⟩ := hworker hpeer hr
      subst hpeer
      simp only [move, turn, ht, Option.bind_some, taskTurn, workerTurn, hc, hstage, callTurn,
        hanswer, Option.map_some, Option.getD_some, peer?_setTask]
      exact peer?_closePeer_self hr
  | leaves ht hpeer hstage hanswer hr =>
      obtain ⟨c, hc⟩ := hworker hpeer hr
      subst hpeer
      simp only [move, turn, ht, Option.bind_some, taskTurn, workerTurn, hc, hstage, callTurn,
        hanswer, Option.map_some, Option.getD_some, peer?_setTask]
      exact peer?_closePeer_self hr

/-- The peer that a call finds is the one before the move, but for a send of
the caller that has failed. -/
theorem World.CallsClose.sends {r : Peer} (h : w.CallsClose k m r) (hp : w.peer? k = some p) :
    r = p ∨ ∃ t state f, m = .turn t ∧ w.send? t = some (k, state)
      ∧ p.SendStep t w.shutdown state r (.ended (.failed f)) := by
  cases h with
  | outside hr | drops _ _ _ _ hr | leaves _ _ _ _ hr =>
      exact .inl (Option.some.inj (hr.symm.trans hp))
  | prunes hb hstage hp' hsend =>
      cases hp'.symm.trans hp
      exact .inr ⟨_, _, _, rfl, send?_eq_some.2 (.inr ⟨_, _, hb, hstage⟩),
        Peer.sendStep_of_sendTurn hsend⟩

end

end LineRelay
