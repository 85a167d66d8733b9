/-
# Closing a handle

A handle has two ways to be closed: a flag, which the first call of `close`
raises, and a close signal, which that call fires and which may have fired
before, by itself or with the shutdown of the relay.  The flag decides what
the call answers and who shuts the transport down; the signal is what senders
and waiters look at.  Whatever the order in which they come (`Fenced`):

| | |
| :-- | :-- |
| `once` | the first call answers true, the others false |
| `fires` | a call leaves the signal fired |
| `shut` | the transport is shut down at most once |
| `silent` | once the signal has fired, no byte is written and nothing is flushed |
| `untouched` | not even in vain: the transport is not asked again |
| `returns` | every send that comes back from then on answers that the peer is closed |
| `freed`, `answered` | when nobody can go on, nobody is at the handle any more |

The flag goes with one call because it is read and raised at once.  Senders
look at the signal whenever they are handed the outlet and whenever they go
on, so that one that comes after the signal writes nothing.

## What this is not

It is not said that the transport is shut down: whoever closes a handle whose
outlet is in use leaves that to whoever lets the handle go.
-/
import LineRelay.Proofs.Relay.Handles
import LineRelay.Proofs.Relay.Release

namespace LineRelay

/-! ## What a move leaves of a handle -/

namespace Peer

/-- How often a transport was shut down, or may still be. -/
def spent (p : Peer) : Nat := p.shutdowns + if p.closed then 0 else 1

theorem spent_close (p : Peer) : p.close.1.spent ≤ p.spent := by
  unfold close
  split_ifs with hclosed hfree
  · exact le_rfl
  · simp [spent, hclosed, shutdowns, Transport.shutdown]
  · simp [spent, hclosed, shutdowns]

/-- A call that closes leaves the outlet as it is, or shuts it down. -/
theorem outlet_close (p : Peer) : p.close.1.outlet = p.outlet
    ∨ p.close.1.outlet = { p.outlet with transport := p.outlet.transport.shutdown } := by
  unfold close
  split_ifs
  · exact .inl rfl
  · exact .inr rfl
  · exact .inl rfl

theorem shutdowns_le_of_spent_le (p : Peer) {q : Peer} (h : q.spent ≤ p.spent) :
    q.shutdowns ≤ p.shutdowns + 1 := by
  have hp : p.spent ≤ p.shutdowns + 1 := by
    unfold spent
    split_ifs <;> omega
  exact (Nat.le_add_right _ _).trans (h.trans hp)

theorem close_snd (p : Peer) : p.close.2 = !p.closed := by
  cases hclosed : p.closed <;> simp [close, hclosed]

/-- The transport was given nothing and flushed no more, and what waits in the
buffer waits. -/
structure Silent (p q : Peer) : Prop where
  received : q.received = p.received
  flushed : q.flushed = p.flushed
  buffer : q.outlet.buffer = p.outlet.buffer

@[refl] theorem Silent.refl (p : Peer) : p.Silent p := ⟨rfl, rfl, rfl⟩

theorem Silent.trans {p q r : Peer} (h : p.Silent q) (h' : q.Silent r) : p.Silent r :=
  ⟨h'.received.trans h.received, h'.flushed.trans h.flushed, h'.buffer.trans h.buffer⟩

theorem Drifts.silent {p q : Peer} (h : p.Drifts q) : p.Silent q :=
  ⟨h.received, h.flushed, h.buffer⟩

/-- A turn that ends a send to a peer whose signal has fired says so. -/
theorem SendStep.eq_closed {p q : Peer} {me : TaskKey} {shutdown : Bool} {state : SendState}
    {outcome : SendOutcome} (h : p.SendStep me shutdown state q (.ended outcome))
    (hsignalled : p.signalled shutdown = true) : outcome = .closed := by
  by_contra hopen
  have hquiet := h.quiet (fun e => hopen (SendState.ended.inj e)) fun _ => SendState.noConfusion
  cases hquiet.symm.trans hsignalled

end Peer

section

variable {w : World} {m : Move} {k : PeerKey} {p q : Peer}

/-- Nobody writes to a peer whose signal has fired, so a call that closes it
finds it as it was. -/
theorem World.CallsClose.eq_of_signalled {r : Peer} (h : w.CallsClose k m r)
    (hp : w.peer? k = some p) (hsignalled : p.signalled w.shutdown = true) : r = p := by
  rcases h.sends hp with rfl | ⟨t, state, f, -, -, hsend⟩
  · rfl
  · cases hsend.eq_closed hsignalled

theorem World.CallsClose.lasts {r : Peer} (h : w.CallsClose k m r) (hp : w.peer? k = some p) :
    p.Lasts r ∧ r.closed = p.closed ∧ r.shutdowns = p.shutdowns := by
  rcases h.sends hp with rfl | ⟨t, state, f, -, -, hsend⟩
  · exact ⟨.refl _, rfl, rfl⟩
  · exact ⟨hsend.lasts, hsend.frame.2.2.1, hsend.shutdowns⟩

theorem HandleStep.drifts_of_scripts {f : Transport → Transport}
    (h : m = .wake k ∧ f = Transport.wake
      ∨ (∃ a, m = .answer k a ∧ f = fun t => { t with writes := t.writes ++ [a] })) :
    p.Drifts { p with outlet := { p.outlet with transport := f p.outlet.transport } } := by
  rcases h with ⟨-, rfl⟩ | ⟨a, -, rfl⟩
  · exact Peer.drifts_wake p
  · exact Peer.drifts_of_outlet rfl rfl rfl rfl

theorem HandleStep.lasts (h : HandleStep w m k p q) (hp : w.peer? k = some p) : p.Lasts q := by
  cases h with
  | keeps => exact .refl p
  | sends _ _ hsend => exact hsend.lasts
  | closes hcall => exact (hcall.lasts hp).1.trans (Peer.drifts_close _).toLasts
  | fires _ => exact (Peer.drifts_fire p).toLasts
  | scripts hscript => exact (drifts_of_scripts hscript).toLasts

/-- Shutting the transport down is spent on the first call that closes. -/
theorem HandleStep.spent_le (h : HandleStep w m k p q) (hp : w.peer? k = some p) :
    q.spent ≤ p.spent := by
  cases h with
  | keeps | fires _ => exact le_rfl
  | sends _ _ hsend =>
      rw [Peer.spent, hsend.shutdowns, hsend.frame.2.2.1]
      exact le_rfl
  | closes hcall =>
      obtain ⟨-, hclosed, hshutdowns⟩ := hcall.lasts hp
      refine (Peer.spent_close _).trans ?_
      rw [Peer.spent, hclosed, hshutdowns]
      exact le_rfl
  | scripts hscript =>
      refine Nat.add_le_add_right ?_ _
      rcases hscript with ⟨-, rfl⟩ | ⟨a, -, rfl⟩
      · show p.outlet.transport.wake.shutdowns ≤ p.outlet.transport.shutdowns
        unfold Transport.wake
        split <;> exact le_rfl
      · exact le_rfl

/-- Once the signal has fired, the outlet is left alone but for shutting it
down, and for what the network does. -/
theorem HandleStep.untouched (h : HandleStep w m k p q) (hp : w.peer? k = some p)
    (hsignalled : p.signalled w.shutdown = true) :
    (m = .wake k ∨ ∃ a, m = .answer k a) ∨ q.outlet = p.outlet
      ∨ q.outlet = { p.outlet with transport := p.outlet.transport.shutdown } := by
  cases h with
  | keeps | fires _ => exact .inr (.inl rfl)
  | sends _ _ hsend => exact .inr (.inl (hsend.outlet_of_signalled hsignalled))
  | closes hcall =>
      obtain rfl := hcall.eq_of_signalled hp hsignalled
      exact .inr (Peer.outlet_close _)
  | scripts hscript =>
      exact .inl (hscript.imp And.left fun ⟨a, hm, _⟩ => ⟨a, hm⟩)

theorem HandleStep.silent (h : HandleStep w m k p q) (hp : w.peer? k = some p)
    (hsignalled : p.signalled w.shutdown = true) : p.Silent q := by
  cases h with
  | keeps => exact .refl p
  | sends _ _ hsend =>
      have hsame := hsend.outlet_of_signalled hsignalled
      exact ⟨by rw [Peer.received, hsame, Peer.received], by rw [Peer.flushed, hsame, Peer.flushed],
        by rw [hsame]⟩
  | closes hcall =>
      obtain rfl := hcall.eq_of_signalled hp hsignalled
      exact (Peer.drifts_close _).silent
  | fires _ => exact (Peer.drifts_fire p).silent
  | scripts hscript => exact (drifts_of_scripts hscript).silent

/-- Only a call of `close` raises the flag. -/
theorem HandleStep.exists_call (h : HandleStep w m k p q) (hopen : p.closed = false)
    (hclosed : q.closed = true) : ∃ r, w.CallsClose k m r := by
  cases h with
  | closes hcall => exact ⟨_, hcall⟩
  | sends _ _ hsend => cases hopen.symm.trans (hsend.frame.2.2.1.symm.trans hclosed)
  | keeps | fires _ | scripts _ => cases hopen.symm.trans hclosed

end

/-! ## What a move leaves of a send -/

/-- A send to a peer that there is goes on, or comes back. -/
theorem BroadcastStep.onOrBack {w w' : World} {t : TaskKey} {b b' : Broadcast} {k : PeerKey}
    {p : Peer} {state : SendState} {rest : List PeerKey} (h : BroadcastStep w t b w' b')
    (hb : w.broadcast? t = some b) (hstage : b.stage = .sending k state rest)
    (hp : w.peer? k = some p) :
    (∃ state', b'.stage = .sending k state' rest ∧ ∀ outcome, state' ≠ .ended outcome)
      ∨ ∃ outcome, w.Returns t k (.turn t) outcome := by
  have hsend : w.send? t = some (k, state) := World.send?_eq_some.2 (.inr ⟨b, rest, hb, hstage⟩)
  cases h with
  | sends hstage' hpeer hstep hopen =>
      cases hstage'.symm.trans hstage
      exact .inl ⟨_, rfl, hopen⟩
  | settles hstage' hpeer hstep _ | fails hstage' hpeer hstep =>
      cases hstage'.symm.trans hstage
      exact .inr ⟨_, state, _, _, rfl, hsend, hpeer, hstep.sendTurn⟩
  | misses hstage' hnone =>
      cases hstage'.symm.trans hstage
      cases hnone.symm.trans hp
  | asks hstage' _ | skips hstage' _ | learns hstage' _ | prunes hstage' _ | pruned hstage' _ =>
      cases hstage'.symm.trans hstage

theorem MoveStep.onOrBack {w w' : World} {m : Move} (h : MoveStep w m w') {t : TaskKey}
    {k : PeerKey} {p : Peer} {state : SendState} (hsend : w.send? t = some (k, state))
    (hopen : ∀ outcome, state ≠ .ended outcome) (hp : w.peer? k = some p) :
    (∃ state', w'.send? t = some (k, state') ∧ ∀ outcome, state' ≠ .ended outcome)
      ∨ ∃ outcome, w.Returns t k m outcome := by
  have hbroadcast : ∀ {b b' : Broadcast} {w₁ : World}, w.broadcast? t = some b →
      BroadcastStep w t b w₁ b' → (b'.isOver = false → w'.broadcast? t = some b') →
      (∃ state', w'.send? t = some (k, state') ∧ ∀ outcome, state' ≠ .ended outcome)
        ∨ ∃ outcome, w.Returns t k (.turn t) outcome := by
    intro b b' w₁ hb hstep hb'
    obtain ht | ⟨b₀, rest, hb₀, hstage⟩ := World.send?_eq_some.1 hsend
    · simp [World.broadcast?, ht, Task.broadcast?] at hb
    · cases hb₀.symm.trans hb
      refine (hstep.onOrBack hb hstage hp).imp_left ?_
      rintro ⟨state', hstage', hopen'⟩
      refine ⟨state', World.send?_eq_some.2 (.inr ⟨b', rest, hb' ?_, hstage'⟩), hopen'⟩
      simp [Broadcast.isOver, hstage']
  obtain ⟨task, htask, hsend₀⟩ := Option.bind_eq_some_iff.1 hsend
  cases h.becomes htask with
  | stays _ htask' =>
      refine .inl ⟨state, ?_, hopen⟩
      rw [World.send?, htask', Option.bind_some, hsend₀]
  | arrives _ _ => cases hsend₀
  | turns hm hstep _ htask' =>
      subst hm
      cases hstep with
      | @send j _ state' _ _ hpeer hturn =>
          cases hsend₀
          cases state' with
          | ended outcome =>
              exact .inr ⟨outcome, state, _, _, rfl, World.send?_eq_some.2 (.inl htask), hpeer,
                hturn.sendTurn⟩
          | fresh _ | queued _ | writing _ =>
              exact .inl ⟨_, World.send?_eq_some.2 (.inl htask'), fun _ => SendState.noConfusion⟩
      | broadcast hturn =>
          exact hbroadcast (World.broadcast?_eq_some.2 (.inl htask)) hturn fun _ =>
            World.broadcast?_eq_some.2 (.inl htask')
      | worker _ hturn =>
          cases hturn with
          | relays hstage hturn =>
              refine hbroadcast (World.broadcast?_eq_some.2 (.inr ⟨_, htask, hstage⟩)) hturn ?_
              intro hover
              exact World.broadcast?_eq_some.2 (.inr ⟨_, htask', by simp [hover]⟩)
          | registers hstage _ | starts hstage _ | drops hstage _ | quits hstage _
          | reads hstage _ _ _ | stops hstage _ _ _ _ | pauses hstage _ _ _
          | unregisters hstage _ | leaves hstage _ =>
              simp [Task.send?, Task.broadcast?, hstage] at hsend₀
      | awaited _ _ | monitor _ | server _ => cases hsend₀

/-! ## Runs -/

/-- What is kept of the peer `k` from one world to a later one. -/
structure World.Ages (k : PeerKey) (w w' : World) : Prop where
  shutdown : w.shutdown = true → w'.shutdown = true
  peer : ∀ {p}, w.peer? k = some p → ∃ q, w'.peer? k = some q ∧ p.Lasts q ∧ q.spent ≤ p.spent
    ∧ (p.signalled w.shutdown = true → p.Silent q)

section

variable {w₀ : World} {moves : List Move} {k : PeerKey} {i j n : Nat} {m : Move} {p : Peer}

theorem World.handle_after (hm : moves[n]? = some m) (hp : (w₀.after moves n).peer? k = some p) :
    ∃ q, (w₀.after moves (n + 1)).peer? k = some q
      ∧ HandleStep (w₀.after moves n) m k p q := by
  rw [after_succ w₀ hm]
  exact handle_move _ m hp

theorem World.ages_run (hmoves : w₀.Permitted moves) (h : i ≤ j) :
    Ages k (w₀.after moves i) (w₀.after moves j) := by
  refine after_extends (fun w => ⟨id, fun hp => ⟨_, hp, .refl _, le_rfl, fun _ => .refl _⟩⟩) ?_ ?_ h
  · intro w₁ w₂ w₃ h h'
    refine ⟨h'.shutdown ∘ h.shutdown, ?_⟩
    intro p hp
    obtain ⟨q, hq, hlasts, hspent, hsilent⟩ := h.peer hp
    obtain ⟨r, hr, hlasts', hspent', hsilent'⟩ := h'.peer hq
    exact ⟨r, hr, hlasts.trans hlasts', hspent'.trans hspent, fun hsignalled =>
      (hsilent hsignalled).trans (hsilent' (hlasts.signalled h.shutdown hsignalled))⟩
  · intro n m hm
    refine ⟨(hmoves.moveStep hm).shutdown, ?_⟩
    intro p hp
    obtain ⟨q, hq, hstep⟩ := World.handle_after hm hp
    exact ⟨q, hq, hstep.lasts hp, hstep.spent_le hp, hstep.silent hp⟩

theorem World.CallsClose.exists_peer {w : World} {r : Peer} (h : w.CallsClose k m r) :
    ∃ p, w.peer? k = some p := by
  cases h with
  | outside hp | prunes _ _ hp _ | drops _ _ _ _ hp | leaves _ _ _ _ hp => exact ⟨_, hp⟩

/-- Peers that come open have the flag exactly if a call has raised it. -/
theorem closed_iff_run (h₀ : w₀.IsNew) (hmoves : w₀.Permitted moves)
    (hopen : ∀ c, .connect c ∈ moves → c.peer.closed = false)
    (hp : (w₀.run moves).peer? k = some p) :
    p.closed = true
      ↔ ∃ n m, moves[n]? = some m ∧ ∃ r, (w₀.after moves n).CallsClose k m r := by
  obtain ⟨-, -, -, -, -, hrun⟩ := World.peer_induction h₀ (k := k)
    (P := fun moves _ p => (∀ c, .connect c ∈ moves → c.peer.closed = false) →
      (p.closed = true ↔ ∃ n m, moves[n]? = some m ∧ ∃ r, (w₀.after moves n).CallsClose k m r))
    (fun {moves m q} hmoves hstep hnone hq hopen => by
      -- the peer has only come, and nobody can have called anything on it
      have hclosed : q.closed = false := by
        rcases hstep.newcomer hnone hq with ⟨c, rfl, rfl⟩ | ⟨_, _, _, rfl⟩
        · exact hopen c (by simp)
        · rfl
      rw [World.exists_move_concat (P := fun w m => ∃ r, w.CallsClose k m r)]
      refine iff_of_false (by simp [hclosed]) ?_
      rintro (⟨n, m', hm', r, hcall⟩ | ⟨r, hcall⟩)
      · obtain ⟨p, hp⟩ := hcall.exists_peer
        have hn := (List.getElem?_eq_some_iff.1 hm').1
        obtain ⟨q', hq', -⟩ := (World.ages_run hmoves hn.le).peer hp
        rw [World.after_length, hnone] at hq'
        cases hq'
      · obtain ⟨p, hp⟩ := hcall.exists_peer
        cases hnone.symm.trans hp)
    (fun {moves m _ p q} hmoves _ hp hq ih hopen => by
      have hmove : (w₀.run (moves ++ [m])) = (w₀.run moves).move m := World.run_concat _ _ _
      obtain ⟨q', hq', hhandle⟩ := (w₀.run moves).handle_move m hp
      rw [← hmove] at hq'
      cases hq'.symm.trans hq
      rw [World.exists_move_concat (P := fun w m => ∃ r, w.CallsClose k m r),
        ← ih fun c hc => hopen c (List.mem_append_left _ hc)]
      constructor
      · intro hclosed
        cases hbefore : p.closed with
        | true => exact .inl rfl
        | false => exact .inr (hhandle.exists_call hbefore hclosed)
      · rintro (hbefore | ⟨r, hcall⟩)
        · exact (hhandle.lasts hp).closed hbefore
        · have hr := hcall.peer? (World.requests_run h₀.requests hmoves)
          rw [← hmove, hq] at hr
          rw [Option.some.inj hr]
          exact Peer.closed_close r)
    hmoves hp
  exact hrun hopen

/-- At every moment of the run. -/
theorem closed_iff_after (h₀ : w₀.IsNew) (hmoves : w₀.Permitted moves)
    (hopen : ∀ c, .connect c ∈ moves → c.peer.closed = false)
    (hp : (w₀.after moves n).peer? k = some p) :
    p.closed = true
      ↔ ∃ n' < n, ∃ m, moves[n']? = some m ∧ ∃ r, (w₀.after moves n').CallsClose k m r := by
  have hbefore : ∀ n' < n, w₀.after (moves.take n) n' = w₀.after moves n' := by
    intro n' hn'
    rw [World.after, List.take_take, Nat.min_eq_left hn'.le, World.after]
  rw [closed_iff_run h₀ (hmoves.take n) (fun c hc => hopen c (List.mem_of_mem_take hc)) hp]
  constructor
  · rintro ⟨n', m, hm, hcall⟩
    rw [List.getElem?_take] at hm
    split_ifs at hm with hn'
    exact ⟨n', hn', m, hm, by rwa [hbefore n' hn'] at hcall⟩
  · rintro ⟨n', hn', m, hm, hcall⟩
    exact ⟨n', m, by rwa [List.getElem?_take, if_pos hn'], by rwa [hbefore n' hn']⟩

theorem fired_of_closed (h₀ : w₀.IsNew) (hmoves : w₀.Permitted moves)
    (hopen : ∀ c, .connect c ∈ moves → c.peer.closed = false)
    (hp : (w₀.after moves n).peer? k = some p) (hclosed : p.closed = true) : p.fired = true :=
  have hfront := closings_run h₀ (hmoves.take n) fun c hc => hopen c (List.mem_of_mem_take hc)
  (hfront.closed hp hclosed).1

/-- After a call that closes a peer its signal has fired. -/
theorem signalled_of_call (h₀ : w₀.IsNew) (hmoves : w₀.Permitted moves)
    (hopen : ∀ c, .connect c ∈ moves → c.peer.closed = false) {r : Peer} (hm : moves[n]? = some m)
    (hcall : (w₀.after moves n).CallsClose k m r) :
    ∃ q, (w₀.after moves (n + 1)).peer? k = some q
      ∧ q.signalled (w₀.after moves (n + 1)).shutdown = true := by
  have hrequests : (w₀.after moves n).Requests := World.requests_run h₀.requests (hmoves.take n)
  have hq := hcall.peer? hrequests
  rw [← World.after_succ w₀ hm] at hq
  have hfired := fired_of_closed h₀ hmoves hopen hq (Peer.closed_close r)
  exact ⟨_, hq, by rw [Peer.signalled, hfired, Bool.true_or]⟩

/-- A send to a peer that there is goes on until it comes back. -/
theorem sending_run (hmoves : w₀.Permitted moves) (hp : (w₀.after moves i).peer? k = some p)
    {t : TaskKey} {state : SendState} (hsend : (w₀.after moves i).send? t = some (k, state))
    (hopen : ∀ outcome, state ≠ .ended outcome) (h : i ≤ j) :
    (∃ state', (w₀.after moves j).send? t = some (k, state')
        ∧ ∀ outcome, state' ≠ .ended outcome)
      ∨ ∃ n m outcome, i ≤ n ∧ moves[n]? = some m
        ∧ (w₀.after moves n).Returns t k m outcome := by
  induction j, h using Nat.le_induction with
  | base => exact .inl ⟨state, hsend, hopen⟩
  | succ n hn ih =>
      obtain ⟨state', hsend', hopen'⟩ | hreturned := ih
      · cases hm : moves[n]? with
        | none =>
            have hlength := List.getElem?_eq_none_iff.1 hm
            rw [World.after_of_length_le w₀ hlength] at hsend'
            rw [World.after_of_length_le w₀ (hlength.trans (Nat.le_succ n))]
            exact .inl ⟨state', hsend', hopen'⟩
        | some m =>
            obtain ⟨q, hq, -⟩ := (World.ages_run hmoves hn).peer hp
            refine ((hmoves.moveStep hm).onOrBack hsend' hopen' hq).imp_right ?_
            rintro ⟨outcome, hreturns⟩
            exact ⟨n, m, outcome, hn, hm, hreturns⟩
      · exact .inr hreturned

end

/-- Nobody is at the peer `k` any more, which is `p`.

* `senders`: nobody has its outlet or wants it;
* `sends`: no send to it is under way;
* `waiters`: nobody waits until it closes;
* `workers`: no worker of it is at its read point, where it would wait for
  that too.
-/
structure World.Freed (w : World) (k : PeerKey) (p : Peer) : Prop where
  senders : p.senders = []
  sends : ∀ {t : TaskKey} {state : SendState}, w.send? t = some (k, state) →
    ∃ outcome, state = .ended outcome
  waiters : ∀ {t : TaskKey} {finished : Bool}, w.tasks[t]? = some (.awaitClose k finished) →
    finished = true
  workers : ∀ {t : TaskKey} {wk : Worker}, w.tasks[t]? = some (.worker wk) → wk.peer = k →
    wk.stage ≠ .reading

/-- When nobody can go on, nobody is at a peer whose signal has fired. -/
theorem World.Quiet.freed {w : World} (h : w.Quiet) (hw : w.Requests) (hlocks : w.Locks)
    {k : PeerKey} {p : Peer} (hp : w.peer? k = some p)
    (hsignalled : p.signalled w.shutdown = true) :
    w.Freed k p where
  senders := h.senders_eq_nil hw hlocks hp hsignalled
  sends := by
    intro t state hsend
    by_contra hopen
    push Not at hopen
    have hwaits := Peer.waits_of_idle hopen (h.sendTurn hw hsend hp)
    have hat := World.at?_eq_some.2 ⟨hsend, hwaits⟩
    cases hsignalled.symm.trans (h.signalled_of_at? hw hlocks hat hp)
  waiters := by
    intro t finished ht
    have hidle := h.idle ht
    simpa [taskTurn, hp, hsignalled] using hidle
  workers := by
    rintro t wk ht rfl hreading
    obtain ⟨c, hc, rfl⟩ := Option.map_eq_some_iff.1 hp
    have hidle := h.idle ht
    simp only [taskTurn, workerTurn, hc, hreading, readTurn, hsignalled, if_true] at hidle
    split_ifs at hidle <;> cases hidle

/-- What closing the peer `k` comes to in a run.  By `answered` no send is
left over: one that was under way when the signal had fired, or began later,
has come back when nobody can go on. -/
structure Fenced (w₀ : World) (moves : List Move) (k : PeerKey) : Prop where
  once : ∀ {n : Nat} {m : Move} {r : Peer}, moves[n]? = some m →
    (w₀.after moves n).CallsClose k m r →
    (r.close.2 = true
      ↔ ¬ ∃ n' < n, ∃ m', moves[n']? = some m' ∧ ∃ r', (w₀.after moves n').CallsClose k m' r')
  fires : ∀ {n : Nat} {m : Move} {r : Peer}, moves[n]? = some m →
    (w₀.after moves n).CallsClose k m r →
    ∃ q, (w₀.after moves (n + 1)).peer? k = some q
      ∧ q.signalled (w₀.after moves (n + 1)).shutdown = true
  shut : ∀ {i j : Nat} {p : Peer}, i ≤ j → (w₀.after moves i).peer? k = some p →
    ∃ q, (w₀.after moves j).peer? k = some q ∧ q.shutdowns ≤ p.shutdowns + 1
  silent : ∀ {i j : Nat} {p : Peer}, i ≤ j → (w₀.after moves i).peer? k = some p →
    p.signalled (w₀.after moves i).shutdown = true →
    ∃ q, (w₀.after moves j).peer? k = some q
      ∧ q.signalled (w₀.after moves j).shutdown = true ∧ p.Silent q
  untouched : ∀ {n : Nat} {m : Move} {p : Peer}, moves[n]? = some m →
    (w₀.after moves n).peer? k = some p →
    p.signalled (w₀.after moves n).shutdown = true →
    ∃ q, (w₀.after moves (n + 1)).peer? k = some q
      ∧ ((m = .wake k ∨ ∃ a, m = .answer k a) ∨ q.outlet = p.outlet
        ∨ q.outlet = { p.outlet with transport := p.outlet.transport.shutdown })
  returns : ∀ {n : Nat} {m : Move} {t : TaskKey} {outcome : SendOutcome} {p : Peer},
    moves[n]? = some m → (w₀.after moves n).peer? k = some p →
    p.signalled (w₀.after moves n).shutdown = true →
    (w₀.after moves n).Returns t k m outcome → outcome = .closed
  freed : ∀ {p : Peer}, (w₀.run moves).isQuiet = true → (w₀.run moves).peer? k = some p →
    p.signalled (w₀.run moves).shutdown = true → (w₀.run moves).Freed k p
  answered : ∀ {i : Nat} {p : Peer} {t : TaskKey} {state : SendState}, i ≤ moves.length →
    (w₀.after moves i).peer? k = some p →
    p.signalled (w₀.after moves i).shutdown = true →
    (w₀.after moves i).send? t = some (k, state) → (∀ outcome, state ≠ .ended outcome) →
    (w₀.run moves).isQuiet = true →
    ∃ n m, i ≤ n ∧ moves[n]? = some m ∧ (w₀.after moves n).Returns t k m .closed

/-- Whatever the order of sends, calls of `close` and signals, closing happens
once, and what comes after the signal is fenced off. -/
theorem close_fences {moves : List Move} (hmoves : ({} : World).Permitted moves)
    (hopen : ∀ c, .connect c ∈ moves → c.peer.closed = false) (k : PeerKey) :
    Fenced {} moves k := by
  have h₀ := World.isNew_empty
  have hreturns : ∀ {n m t outcome p}, (World.after {} moves n).peer? k = some p →
      p.signalled (World.after {} moves n).shutdown = true →
      (World.after {} moves n).Returns t k m outcome → outcome = .closed := by
    rintro n m t outcome p hp hsignalled ⟨state, p', q, -, -, hp', hturn⟩
    cases hp'.symm.trans hp
    exact (Peer.sendStep_of_sendTurn hturn).eq_closed hsignalled
  have hsilent : ∀ {i j p}, i ≤ j → (World.after {} moves i).peer? k = some p →
      p.signalled (World.after {} moves i).shutdown = true →
      ∃ q, (World.after {} moves j).peer? k = some q
        ∧ q.signalled (World.after {} moves j).shutdown = true ∧ p.Silent q := by
    intro i j p hij hp hsignalled
    have hages := World.ages_run (k := k) hmoves hij
    obtain ⟨q, hq, hlasts, -, hsilent⟩ := hages.peer hp
    exact ⟨q, hq, hlasts.signalled hages.shutdown hsignalled, hsilent hsignalled⟩
  have hfreed : ∀ {p}, (World.run {} moves).isQuiet = true →
      (World.run {} moves).peer? k = some p →
      p.signalled (World.run {} moves).shutdown = true → (World.run {} moves).Freed k p :=
    fun hquiet => (World.quiet_of_isQuiet hquiet).freed (World.requests_run h₀.requests hmoves)
      (World.locks_run h₀.locks hmoves)
  refine ⟨?_, signalled_of_call h₀ hmoves hopen, ?_, hsilent, ?_, fun _ => hreturns, hfreed, ?_⟩
  · intro n m r hm hcall
    obtain ⟨p, hp⟩ := hcall.exists_peer
    rw [← closed_iff_after h₀ hmoves hopen hp, Peer.close_snd, (hcall.lasts hp).2.1]
    simp
  · intro i j p hij hp
    obtain ⟨q, hq, -, hspent, -⟩ := (World.ages_run (k := k) hmoves hij).peer hp
    exact ⟨q, hq, p.shutdowns_le_of_spent_le hspent⟩
  · intro n m p hm hp hsignalled
    obtain ⟨q, hq, hstep⟩ := World.handle_after hm hp
    exact ⟨q, hq, hstep.untouched hp hsignalled⟩
  · intro i p t state hi hp hsignalled hsend hunder hquiet
    obtain ⟨q, hq, hsignalled', -⟩ := hsilent hi hp hsignalled
    rw [World.after_length] at hq hsignalled'
    rcases sending_run hmoves hp hsend hunder hi with ⟨state', hsend', hunder'⟩ | hreturned
    · rw [World.after_length] at hsend'
      obtain ⟨outcome, hended⟩ := (hfreed hquiet hq hsignalled').sends hsend'
      exact absurd hended (hunder' outcome)
    · obtain ⟨n, m, outcome, hn, hm, hreturned⟩ := hreturned
      obtain ⟨q', hq', hsignalled'', -⟩ := hsilent hn hp hsignalled
      obtain rfl := hreturns hq' hsignalled'' hreturned
      exact ⟨n, m, hn, hm, hreturned⟩

/-- The connection that someone makes a peer of with the move. -/
def Move.connection? : Move → Option Connection
  | .connect c => some c
  | _ => none

/-- Of a given run it can be checked what such connections are like. -/
theorem forall_connections {moves : List Move} {P : Connection → Prop}
    (h : ∀ c ∈ moves.filterMap Move.connection?, P c) : ∀ c, .connect c ∈ moves → P c :=
  fun c hc => h c (List.mem_filterMap.2 ⟨.connect c, hc, rfl⟩)

/-- A send stalls, another waits behind it, and someone waits for the end; then
the signal fires, the peer is closed twice, and one more comes to send. -/
def interrupted : List Move :=
  let stalling : Connection :=
    ⟨{ info := ⟨⟨1⟩, ⟨"peer"⟩, 0⟩, outlet := { transport := { writesAfter := .stalls } } }, .silent⟩
  [.connect stalling, .spawn (.send 0 (.fresh [104, 10])), .turn 0,
    .spawn (.send 0 (.fresh [105, 10])), .turn 1, .spawn (.awaitClose 0 false),
    .fire 0, .close 0, .close 0, .spawn (.send 0 (.fresh [106, 10])), .turn 3, .turn 0, .turn 1,
    .turn 2]

/-- In `interrupted` both calls come after the signal, the sends all come back
closed, and nobody is left. -/
theorem close_fences_interrupted : ({} : World).Permitted interrupted
    ∧ (∀ c, .connect c ∈ interrupted → c.peer.closed = false)
    ∧ Fenced {} interrupted 0
    ∧ ((World.after {} interrupted 7).closePeer 0).2 = true
    ∧ ((World.after {} interrupted 8).closePeer 0).2 = false
    ∧ (World.run {} interrupted).isQuiet = true
    ∧ (World.run {} interrupted).tasks.map Task.value?
        = [some (.sent .closed), some (.sent .closed), some .closed, some (.sent .closed)] := by
  have hmoves : ({} : World).Permitted interrupted := by decide +kernel
  have hopen : ∀ c, .connect c ∈ interrupted → c.peer.closed = false :=
    forall_connections (by decide)
  refine ⟨hmoves, hopen, close_fences hmoves hopen 0, ?_⟩
  decide +kernel

end LineRelay
