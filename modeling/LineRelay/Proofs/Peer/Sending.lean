/-
# What one turn of a sender does to a peer

`SendStep` lists the turns that a sender can take, each with all that was
the case before it:

| turn | before it | after it |
| :-- | :-- | :-- |
| refused | the peer is closed | over, and the peer is as it was |
| queued | someone has the outlet or wants it | last in the queue |
| left | the close signal has fired | over, out of the queue |
| wrote | the outlet is the sender's | what it had to go was carried on |

What others do to a peer leaves its queue and its bytes alone: `Drifts`.
-/
import LineRelay.Proofs.Peer.Carriage

namespace LineRelay

/-- Whether a send wants the outlet or has it. -/
def SendState.waits : SendState → Bool
  | .queued _ | .writing _ => true
  | .fresh _ | .ended _ => false

namespace Peer

/-- The bytes the transport has been given. -/
def received (p : Peer) : Bytes := p.outlet.transport.received

/-- How often the transport was flushed. -/
def flushed (p : Peer) : Nat := p.outlet.transport.flushed

/-- Nothing was received since the last flush. -/
def AllFlushed (p : Peer) : Prop := p.outlet.transport.flushedBytes = p.received

/-- How often the transport was shut down. -/
def shutdowns (p : Peer) : Nat := p.outlet.transport.shutdowns

/-- The bytes that a send has to go, those before its own included. -/
def toGo (p : Peer) : SendState → Bytes
  | .fresh wire | .queued wire => p.outlet.buffer ++ wire
  | .writing stage => p.outlet.toGo stage
  | .ended _ => []

variable {p q r : Peer} {me : TaskKey} {shutdown : Bool} {state : SendState}

theorem toGo_congr (h : q.outlet.buffer = p.outlet.buffer) (stage : SendStage) :
    q.toGo (.writing stage) = p.toGo (.writing stage) := by
  cases stage <;> simp only [Peer.toGo, Outlet.toGo, h]

/-- A sender that comes to write: the peer once the outlet is its own, and
the step that it takes there.  Nobody is before it, or the outlet is handed
to it, or it had the outlet already. -/
inductive Writes (p : Peer) (me : TaskKey) (shutdown : Bool) :
    SendState → Peer → Outlet × Progress → Prop
  | first {wire : Bytes} : p.isClosed shutdown = false → p.senders = [] →
      Writes p me shutdown (.fresh wire) { p with senders := [me] } (p.outlet.send wire)
  | handed {wire : Bytes} : p.signalled shutdown = false → p.senders.head? = some me →
      Writes p me shutdown (.queued wire) p (p.outlet.send wire)
  | again {stage : SendStage} : p.signalled shutdown = false → p.outlet.stalls stage = false →
      Writes p me shutdown (.writing stage) p (p.outlet.resume stage)

/-- One turn of a sender. -/
inductive SendStep (p : Peer) (me : TaskKey) (shutdown : Bool) :
    SendState → Peer → SendState → Prop
  | refused {wire : Bytes} : p.isClosed shutdown = true →
      SendStep p me shutdown (.fresh wire) p (.ended .closed)
  | queued {wire : Bytes} : p.isClosed shutdown = false → p.senders ≠ [] →
      SendStep p me shutdown (.fresh wire) { p with senders := p.senders ++ [me] } (.queued wire)
  | left {state : SendState} : state.waits = true → p.signalled shutdown = true →
      (∀ wire, state = .queued wire → p.senders.head? = some me) →
      SendStep p me shutdown state p.release (.ended .closed)
  | wrote {state : SendState} {q : Peer} {step : Outlet × Progress} :
      p.Writes me shutdown state q step →
      SendStep p me shutdown state (q.advanced step).1 (q.advanced step).2

theorem signalled_of_isClosed (h : p.isClosed shutdown = false) : p.signalled shutdown = false := by
  rw [isClosed, Bool.or_eq_false_iff] at h
  exact h.2

/-- Nobody writes once the close signal has fired. -/
theorem Writes.signalled {step : Outlet × Progress} (h : p.Writes me shutdown state q step) :
    p.signalled shutdown = false := by
  cases h with
  | first hclosed _ => exact signalled_of_isClosed hclosed
  | handed hsignalled _ | again hsignalled _ => exact hsignalled

/-- One who writes carries on what it has to go. -/
theorem Writes.carries {step : Outlet × Progress} (h : p.Writes me shutdown state q step)
    (horder : ∀ stage, state = .writing stage → p.outlet.InOrder stage) :
    p.outlet.Carries (p.toGo state) step := by
  cases h with
  | first _ _ | handed _ _ => exact Outlet.carries_send
  | again _ _ => exact Outlet.carries_resume (horder _ rfl)

/-- Every turn of a sender is one of the listed. -/
theorem sendStep_of_sendTurn {state' : SendState}
    (h : p.sendTurn me shutdown state = some (q, state')) :
    p.SendStep me shutdown state q state' := by
  unfold sendTurn at h
  match state with
  | .fresh wire =>
      simp only at h
      split_ifs at h with hclosed hfree
      · cases h
        exact .refused hclosed
      · obtain ⟨rfl, rfl⟩ := Prod.ext_iff.1 (Option.some.inj h)
        exact .wrote (.first (Bool.eq_false_iff.2 hclosed) (List.isEmpty_iff.1 hfree))
      · cases h
        exact .queued (Bool.eq_false_iff.2 hclosed) (by simpa using hfree)
  | .queued wire =>
      simp only [ne_eq, ite_not] at h
      split_ifs at h with hhead hsignalled
      · cases h
        exact .left rfl hsignalled fun _ _ => hhead
      · obtain ⟨rfl, rfl⟩ := Prod.ext_iff.1 (Option.some.inj h)
        exact .wrote (.handed (Bool.eq_false_iff.2 hsignalled) hhead)
  | .writing stage =>
      simp only at h
      split_ifs at h with hsignalled hstalls
      · cases h
        exact .left rfl hsignalled fun _ e => by cases e
      · obtain ⟨rfl, rfl⟩ := Prod.ext_iff.1 (Option.some.inj h)
        exact .wrote (.again (Bool.eq_false_iff.2 hsignalled) (Bool.eq_false_iff.2 hstalls))
  | .ended outcome => cases h

/-- What is listed is a turn of a sender. -/
theorem SendStep.sendTurn {state' : SendState} (h : p.SendStep me shutdown state q state') :
    p.sendTurn me shutdown state = some (q, state') := by
  cases h with
  | refused hclosed => simp [Peer.sendTurn, hclosed]
  | queued hopen hbusy => simp [Peer.sendTurn, hopen, hbusy]
  | left hwaits hsignalled hhead =>
      cases state with
      | queued wire => simp [Peer.sendTurn, hhead wire rfl, hsignalled]
      | writing stage => simp [Peer.sendTurn, hsignalled]
      | fresh _ | ended _ => cases hwaits
  | wrote hwrites =>
      cases hwrites with
      | first hopen hfree => simp [Peer.sendTurn, hopen, hfree]
      | handed hsignalled hhead => simp [Peer.sendTurn, hsignalled, hhead]
      | again hsignalled hgoes => simp [Peer.sendTurn, hsignalled, hgoes]

/-- The queue of a peer, when a turn finds the sender `me` in it exactly if
it waits, and first if it writes. -/
theorem SendStep.queue {state' : SendState} (h : p.SendStep me shutdown state q state')
    (hfirst : ∀ stage, state = .writing stage →
      p.senders.head? = some me ∧ p.outlet.InOrder stage) :
    (q = p ∧ state.waits = false ∧ state'.waits = false)
    ∨ ∃ queue, queue = (if state.waits then p.senders else p.senders ++ [me])
      ∧ (state'.waits = true ∧ q.senders = queue
          ∧ (∀ wire, state' = .queued wire → q.outlet = p.outlet)
          ∧ (∀ stage, state' = .writing stage →
              queue.head? = some me ∧ q.outlet.InOrder stage)
        ∨ state'.waits = false ∧ queue.head? = some me ∧ q.senders = queue.tail) := by
  cases h with
  | refused _ => exact .inl ⟨rfl, rfl, rfl⟩
  | queued _ _ => exact .inr ⟨_, rfl, .inl ⟨rfl, rfl, fun _ _ => rfl, fun _ e => by cases e⟩⟩
  | left hwaits _ hhead =>
      refine .inr ⟨p.senders, by rw [if_pos hwaits], .inr ⟨rfl, ?_, rfl⟩⟩
      cases state with
      | queued wire => exact hhead wire rfl
      | writing stage => exact (hfirst stage rfl).1
      | fresh _ | ended _ => cases hwaits
  | @wrote _ r step hwrites =>
      have hqueue : r.senders = (if state.waits then p.senders else p.senders ++ [me])
          ∧ r.senders.head? = some me := by
        cases hwrites with
        | first _ hempty => simp [SendState.waits, hempty]
        | handed _ hhead => exact ⟨rfl, hhead⟩
        | again _ _ => exact ⟨rfl, (hfirst _ rfl).1⟩
      obtain ⟨sent, -, hcame⟩ := hwrites.carries fun stage hstage => (hfirst stage hstage).2
      refine .inr ⟨r.senders, hqueue.1, ?_⟩
      unfold advanced
      cases hprogress : step.2 with
      | done => exact .inr ⟨rfl, hqueue.2, rfl⟩
      | failed f => exact .inr ⟨rfl, hqueue.2, rfl⟩
      | stalled stage =>
          rw [hprogress] at hcame
          refine .inl ⟨rfl, rfl, (fun _ e => by cases e), fun stage' hstage => ⟨hqueue.2, ?_⟩⟩
          cases hstage
          exact hcame.2.1

/-- What a turn of a sender means for the bytes, when it finds nothing in the
buffer that it would overtake.  Nothing goes out of a peer that is closed,
and nothing of a send that has to wait.  Otherwise all goes out, or a part,
and then the rest will follow or the send has failed. -/
inductive Carried (p q : Peer) (shutdown : Bool) (state : SendState) : SendState → Prop
  | closed : p.isClosed shutdown = true → q.outlet = p.outlet →
      Carried p q shutdown state (.ended .closed)
  | waits {wire : Bytes} : state = .fresh wire → q.outlet = p.outlet →
      Carried p q shutdown state (.queued wire)
  | sent : p.signalled shutdown = false → q.received = p.received ++ p.toGo state →
      q.outlet.buffer = [] → q.flushed = p.flushed + 1 → q.AllFlushed →
      Carried p q shutdown state (.ended .sent)
  | stalled {stage : SendStage} {part : Bytes} : p.signalled shutdown = false →
      q.received = p.received ++ part → p.toGo state = part ++ q.toGo (.writing stage) →
      q.flushed = p.flushed → Carried p q shutdown state (.writing stage)
  | failed {f : Failure} {part : Bytes} : p.signalled shutdown = false →
      q.received = p.received ++ part → part <+: p.toGo state →
      Carried p q shutdown state (.ended (.failed f))

theorem SendStep.carried {state' : SendState} (h : p.SendStep me shutdown state q state')
    (horder : ∀ stage, state = .writing stage → p.outlet.InOrder stage) :
    Carried p q shutdown state state' := by
  cases h with
  | refused hclosed => exact .closed hclosed rfl
  | queued _ _ => exact .waits rfl rfl
  | left _ hsignalled _ =>
      refine .closed ?_ rfl
      rw [isClosed, hsignalled, Bool.or_true]
  | @wrote _ r step hwrites =>
      have hquiet := hwrites.signalled
      obtain ⟨part, hreceived, hcame⟩ := hwrites.carries horder
      unfold advanced
      cases hprogress : step.2 with
      | done =>
          rw [hprogress] at hcame
          obtain ⟨rfl, hbuffer, hflushed, hbytes⟩ := hcame
          exact .sent hquiet hreceived hbuffer hflushed hbytes
      | failed f =>
          rw [hprogress] at hcame
          exact .failed hquiet hreceived hcame.1
      | stalled stage =>
          rw [hprogress] at hcame
          exact .stalled hquiet hreceived hcame.1 hcame.2.2

/-- Only the first sender touches the outlet. -/
theorem SendStep.outlet_of_ne {state' : SendState} (h : p.SendStep me shutdown state q state')
    {t : TaskKey} (hhead : p.senders.head? = some t) (hne : t ≠ me)
    (hfirst : ∀ stage, state = .writing stage → p.senders.head? = some me) :
    q.outlet = p.outlet := by
  cases h with
  | refused _ | queued _ _ | left _ _ _ => rfl
  | wrote hwrites =>
      have hme : p.senders.head? ≠ some me := fun e => hne (Option.some.inj (hhead.symm.trans e))
      cases hwrites with
      | first _ hempty => simp [hempty] at hhead
      | handed _ hhead' => exact absurd hhead' hme
      | again _ _ => exact absurd (hfirst _ rfl) hme

/-- Once the close signal has fired, a turn of a sender leaves the outlet alone. -/
theorem SendStep.outlet_of_signalled {state' : SendState}
    (h : p.SendStep me shutdown state q state') (hsignalled : p.signalled shutdown = true) :
    q.outlet = p.outlet := by
  cases h with
  | refused _ | queued _ _ | left _ _ _ => rfl
  | wrote hwrites => cases hsignalled.symm.trans hwrites.signalled

/-- A turn that neither gives up nor queues is the turn of the first sender. -/
theorem SendStep.first {state' : SendState} (h : p.SendStep me shutdown state q state')
    (hopen : state' ≠ .ended .closed) (hruns : ∀ wire, state' ≠ .queued wire)
    (hfirst : ∀ stage, state = .writing stage → p.senders.head? = some me) {t : TaskKey}
    (hhead : p.senders.head? = some t) : t = me := by
  cases h with
  | refused _ | left _ _ _ => exact absurd rfl hopen
  | queued _ _ => exact absurd rfl (hruns _)
  | wrote hwrites =>
      cases hwrites with
      | first _ hempty => simp [hempty] at hhead
      | handed _ hme => exact Option.some.inj (hhead.symm.trans hme)
      | again _ _ => exact Option.some.inj (hhead.symm.trans (hfirst _ rfl))

/-- A send that is over takes no turn. -/
theorem SendStep.not_ended {state' : SendState} (h : p.SendStep me shutdown state q state')
    (outcome : SendOutcome) : state ≠ .ended outcome := by
  rintro rfl
  cases h with
  | left hwaits _ _ => cases hwaits
  | wrote hwrites => cases hwrites

/-- A send looks at the peer once. -/
theorem SendStep.ne_fresh {state' : SendState} (h : p.SendStep me shutdown state q state')
    (wire : Bytes) : state' ≠ .fresh wire := by
  rintro rfl
  generalize hstate : SendState.fresh wire = state' at h
  cases h with
  | refused _ | queued _ _ | left _ _ _ => cases hstate
  | wrote _ =>
      unfold advanced at hstate
      split at hstate <;> cases hstate

/-- One that writes gives up only when the close signal has fired. -/
theorem SendStep.signalled_of_left {stage : SendStage}
    (h : p.SendStep me shutdown (.writing stage) q (.ended .closed)) :
    p.signalled shutdown = true := by
  generalize hstate : SendState.ended .closed = state' at h
  cases h with
  | left _ hsignalled _ => exact hsignalled
  | wrote _ =>
      unfold advanced at hstate
      split at hstate <;> cases hstate

/-- A turn that neither gives up nor queues finds the close signal silent. -/
theorem SendStep.quiet {state' : SendState} (h : p.SendStep me shutdown state q state')
    (hopen : state' ≠ .ended .closed) (hruns : ∀ wire, state' ≠ .queued wire) :
    p.signalled shutdown = false := by
  cases h with
  | refused _ | left _ _ _ => exact absurd rfl hopen
  | queued _ _ => exact absurd rfl (hruns _)
  | wrote hwrites => exact hwrites.signalled

/-- A send waits with the wire that it came with. -/
theorem SendStep.wire {state' : SendState} {wire : Bytes}
    (h : p.SendStep me shutdown state q state')
    (hwire : state' = .fresh wire ∨ state' = .queued wire) :
    state = .fresh wire ∨ state = .queued wire := by
  cases h with
  | refused _ | left _ _ _ => rcases hwire with e | e <;> cases e
  | queued _ _ =>
      rcases hwire with e | e
      · cases e
      · cases e
        exact .inl rfl
  | wrote _ =>
      unfold advanced at hwire
      split at hwire <;> rcases hwire with e | e <;> cases e

/-! ## What lasts -/

/-- What no turn and nobody changes of a peer: who it is, and that it is
closed, or its transport shut down, once that is so. -/
structure Lasts (p q : Peer) : Prop where
  info : q.info = p.info
  underShutdown : q.underShutdown = p.underShutdown
  closed : p.closed = true → q.closed = true
  fired : p.fired = true → q.fired = true
  shutdowns : p.shutdowns ≤ q.shutdowns

@[refl] theorem Lasts.refl (p : Peer) : p.Lasts p := ⟨rfl, rfl, id, id, Nat.le_refl _⟩

theorem Lasts.trans (h : p.Lasts q) (h' : q.Lasts r) : p.Lasts r where
  info := h'.info.trans h.info
  underShutdown := h'.underShutdown.trans h.underShutdown
  closed := h'.closed ∘ h.closed
  fired := h'.fired ∘ h.fired
  shutdowns := h.shutdowns.trans h'.shutdowns

theorem Lasts.signalled {shutdown' : Bool} (h : p.Lasts q)
    (hshutdown : shutdown = true → shutdown' = true) (hp : p.signalled shutdown = true) :
    q.signalled shutdown' = true := by
  simp only [Peer.signalled, Bool.or_eq_true, Bool.and_eq_true, h.underShutdown] at hp ⊢
  exact hp.imp h.fired (And.imp_right hshutdown)

theorem Lasts.isClosed {shutdown' : Bool} (h : p.Lasts q)
    (hshutdown : shutdown = true → shutdown' = true) (hp : p.isClosed shutdown = true) :
    q.isClosed shutdown' = true := by
  simp only [Peer.isClosed, Bool.or_eq_true] at hp ⊢
  exact hp.imp h.closed (h.signalled hshutdown)

theorem outlet_advanced (p : Peer) (step : Outlet × Progress) :
    (p.advanced step).1.outlet = step.1 := by
  unfold advanced
  split <;> rfl

/-- A turn of a sender concerns the queue and the outlet alone. -/
theorem SendStep.frame {state' : SendState} (h : p.SendStep me shutdown state q state') :
    q.info = p.info ∧ q.underShutdown = p.underShutdown ∧ q.closed = p.closed
      ∧ q.fired = p.fired := by
  cases h with
  | refused _ | queued _ _ | left _ _ _ => exact ⟨rfl, rfl, rfl, rfl⟩
  | wrote hwrites =>
      have hadvanced : ∀ (r : Peer) (step : Outlet × Progress),
          (r.advanced step).1.info = r.info
            ∧ (r.advanced step).1.underShutdown = r.underShutdown
            ∧ (r.advanced step).1.closed = r.closed ∧ (r.advanced step).1.fired = r.fired := by
        intro r step
        unfold advanced
        split <;> exact ⟨rfl, rfl, rfl, rfl⟩
      cases hwrites <;> exact hadvanced _ _

/-- A turn of a sender does not shut the transport down. -/
theorem SendStep.shutdowns {state' : SendState} (h : p.SendStep me shutdown state q state') :
    q.shutdowns = p.shutdowns := by
  cases h with
  | refused _ | queued _ _ | left _ _ _ => rfl
  | wrote hwrites =>
      rw [Peer.shutdowns, outlet_advanced]
      cases hwrites with
      | first _ _ | handed _ _ => exact Outlet.shutdowns_send _ _
      | again _ _ => exact Outlet.shutdowns_resume _ _

theorem SendStep.lasts {state' : SendState} (h : p.SendStep me shutdown state q state') :
    p.Lasts q := by
  obtain ⟨hinfo, hunder, hclosed, hfired⟩ := h.frame
  exact ⟨hinfo, hunder, fun hp => hclosed.trans hp, fun hp => hfired.trans hp, h.shutdowns.ge⟩

/-- What becomes of a peer while no sender takes a turn: it may close, and
if nobody is in its queue then, its transport is shut down. -/
structure Drifts (p q : Peer) : Prop extends Lasts p q where
  senders : q.senders = p.senders
  buffer : q.outlet.buffer = p.outlet.buffer
  received : q.received = p.received
  flushed : q.flushed = p.flushed
  closing : p.closed = false → q.closed = true →
    q.fired = true ∧ (q.senders = [] → 0 < q.shutdowns)

@[refl] theorem Drifts.refl (p : Peer) : p.Drifts p :=
  ⟨.refl p, rfl, rfl, rfl, rfl, fun hopen hclosed => by cases hopen.symm.trans hclosed⟩

theorem Drifts.trans (h : p.Drifts q) (h' : q.Drifts r) : p.Drifts r where
  toLasts := h.toLasts.trans h'.toLasts
  senders := h'.senders.trans h.senders
  buffer := h'.buffer.trans h.buffer
  received := h'.received.trans h.received
  flushed := h'.flushed.trans h.flushed
  closing := by
    intro hopen hclosed
    cases hq : q.closed with
    | false => exact h'.closing hq hclosed
    | true =>
        obtain ⟨hfired, hshut⟩ := h.closing hopen hq
        exact ⟨h'.fired hfired, fun hfree => (hshut (h'.senders ▸ hfree)).trans_le h'.shutdowns⟩

/-- A change to the outlet that closes nothing. -/
theorem drifts_of_outlet {o : Outlet} (hbuffer : o.buffer = p.outlet.buffer)
    (hreceived : o.transport.received = p.outlet.transport.received)
    (hflushed : o.transport.flushed = p.outlet.transport.flushed)
    (hshutdowns : o.transport.shutdowns = p.outlet.transport.shutdowns) :
    p.Drifts { p with outlet := o } :=
  ⟨⟨rfl, rfl, id, id, hshutdowns.ge⟩, rfl, hbuffer, hreceived, hflushed,
    fun hopen hclosed => by cases hopen.symm.trans hclosed⟩

theorem drifts_fire (p : Peer) : p.Drifts p.fire :=
  ⟨⟨rfl, rfl, id, fun _ => rfl, Nat.le_refl _⟩, rfl, rfl, rfl, rfl,
    fun hopen hclosed => by cases hopen.symm.trans hclosed⟩

theorem drifts_close (p : Peer) : p.Drifts p.close.1 := by
  unfold close
  split_ifs with hclosed hfree
  · exact .refl p
  · exact ⟨⟨rfl, rfl, fun _ => rfl, fun _ => rfl, Nat.le_succ _⟩, rfl, rfl, rfl, rfl,
      fun _ _ => ⟨rfl, fun _ => Nat.succ_pos _⟩⟩
  · exact ⟨⟨rfl, rfl, fun _ => rfl, fun _ => rfl, Nat.le_refl _⟩, rfl, rfl, rfl, rfl,
      fun _ _ => ⟨rfl, fun hnone => absurd (List.isEmpty_iff.2 hnone) hfree⟩⟩

theorem drifts_wake (p : Peer) :
    p.Drifts { p with outlet := { p.outlet with transport := p.outlet.transport.wake } } := by
  refine drifts_of_outlet rfl (Transport.received_wake _) ?_ ?_
  · show p.outlet.transport.wake.flushed = p.outlet.transport.flushed
    unfold Transport.wake
    split <;> rfl
  · show p.outlet.transport.wake.shutdowns = p.outlet.transport.shutdowns
    unfold Transport.wake
    split <;> rfl

theorem closed_close (p : Peer) : p.close.1.closed = true := by
  unfold close
  split_ifs with hclosed
  · exact hclosed
  · rfl
  · rfl

end Peer

end LineRelay
