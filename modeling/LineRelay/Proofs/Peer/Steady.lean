/-
# What a peer makes of a line that nobody keeps waiting

A transport is steady if its script has no stall.  A send that begins with
such a transport, and with nobody before it, is over in its first turn, and
what comes of it is a matter of the peer and the wire alone:

| the peer | comes out | with the outcome |
| :-- | :-- | :-- |
| counts as closed | as it was | closed |
| takes the wire | with the wire written and flushed | sent |
| fails | with part of it written, and then closed | failed |

`Peer.receives` is this table.  The one who sends closes the peer that fails,
so its closing is part of it.
-/
import LineRelay.Proofs.Peer.Sending

namespace LineRelay

/-! ## Scripts without stalls -/

namespace Transport

/-- No write and no flush is kept waiting.  Writes that are interrupted every
time would be. -/
structure Steady (t : Transport) : Prop where
  writes : .stalls ∉ t.writes
  writesAfter : t.writesAfter ≠ .stalls
  settles : ∀ f, t.writesAfter = .fails f → f.kind ≠ .interrupted
  flushes : .stalls ∉ t.flushes

/-- Writes in a row find an answer, and use up answers. -/
theorem push_steady {after : WriteAnswer} (floor : Nat) (hafter : after ≠ .stalls)
    (hsettles : ∀ f, after = .fails f → f.kind ≠ .interrupted) (answers : List WriteAnswer) :
    ∀ left : Nat, .stalls ∉ answers →
      .stalls ∉ (push floor after answers left).1
        ∧ (push floor after answers left).2.2 ≠ .stalled := by
  induction answers with
  | nil =>
      intro left _
      unfold push
      split_ifs
      · exact ⟨List.not_mem_nil, Attempted.noConfusion⟩
      · cases after with
        | takesAll => exact ⟨List.not_mem_nil, Attempted.noConfusion⟩
        | takes most => cases most <;> exact ⟨List.not_mem_nil, Attempted.noConfusion⟩
        | stalls => exact absurd rfl hafter
        | fails f =>
            simp only [if_neg (hsettles f rfl)]
            exact ⟨List.not_mem_nil, Attempted.noConfusion⟩
  | cons answer answers ih =>
      intro left hanswers
      obtain ⟨hanswer, hrest⟩ := not_or.1 (mt List.mem_cons.2 hanswers)
      unfold push
      split_ifs
      · exact ⟨hanswers, Attempted.noConfusion⟩
      · cases answer with
        | takesAll => exact ih 0 hrest
        | takes most =>
            cases most with
            | zero => exact ⟨hrest, Attempted.noConfusion⟩
            | succ most => exact ih _ hrest
        | stalls => exact absurd rfl hanswer
        | fails f =>
            simp only
            split_ifs
            · exact ih left hrest
            · exact ⟨hrest, Attempted.noConfusion⟩

theorem Steady.offer {t : Transport} (h : t.Steady) (floor : Nat) (bs : Bytes) :
    (t.offer floor bs).1.Steady ∧ (t.offer floor bs).2.2 ≠ .stalled := by
  obtain ⟨hwrites, hended⟩ := push_steady floor h.writesAfter h.settles t.writes bs.length h.writes
  exact ⟨⟨hwrites, h.writesAfter, h.settles, h.flushes⟩, hended⟩

theorem Steady.flush {t : Transport} (h : t.Steady) : t.flush.1.Steady ∧ t.flush.2 ≠ .stalled := by
  obtain ⟨hwrites, hafter, hsettles, hflushes⟩ := h
  unfold Transport.flush
  split
  · exact ⟨⟨hwrites, hafter, hsettles, hflushes⟩, Attempted.noConfusion⟩
  · next heq =>
      rw [heq] at hflushes
      exact ⟨⟨hwrites, hafter, hsettles, mt (List.mem_cons_of_mem _) hflushes⟩,
        Attempted.noConfusion⟩
  · next heq =>
      rw [heq] at hflushes
      exact ⟨⟨hwrites, hafter, hsettles, mt (List.mem_cons_of_mem _) hflushes⟩,
        Attempted.noConfusion⟩
  · next heq =>
      rw [heq] at hflushes
      exact absurd List.mem_cons_self hflushes

theorem Steady.shutdown {t : Transport} (h : t.Steady) : t.shutdown.Steady :=
  ⟨h.writes, h.writesAfter, h.settles, h.flushes⟩

end Transport

/-! ## Sends that are over at once -/

namespace Outlet

variable {o : Outlet}

/-- A step of a send after which it is over, with a transport that is steady. -/
structure Lands (step : Outlet × Progress) : Prop where
  steady : step.1.transport.Steady
  ends : ∀ stage, step.2 ≠ .stalled stage

theorem lands_flush (h : o.transport.Steady) : Lands o.flush := by
  unfold Outlet.flush
  obtain ⟨hsteady, hended⟩ := h.flush
  rcases hflush : o.transport.flush with ⟨transport, ended⟩
  rw [hflush] at hsteady hended
  cases ended with
  | done | refused | failed _ => exact ⟨hsteady, fun _ => Progress.noConfusion⟩
  | stalled => exact absurd rfl hended

theorem lands_drain {stage : SendStage} {next : Outlet → Outlet × Progress}
    (h : o.transport.Steady) (hnext : ∀ o : Outlet, o.transport.Steady → Lands (next o)) :
    Lands (o.drain stage next) := by
  unfold drain
  obtain ⟨hsteady, hended⟩ := h.offer 0 o.buffer
  rcases hoffer : o.transport.offer 0 o.buffer with ⟨transport, left, ended⟩
  rw [hoffer] at hsteady hended
  cases ended with
  | done => exact hnext _ hsteady
  | refused | failed _ => exact ⟨hsteady, fun _ => Progress.noConfusion⟩
  | stalled => exact absurd rfl hended

theorem lands_empty (h : o.transport.Steady) : Lands o.empty :=
  lands_drain h fun _ => lands_flush

theorem lands_pass (h : o.transport.Steady) (rest : Bytes) : Lands (o.pass rest) := by
  unfold pass
  obtain ⟨hsteady, hended⟩ := h.offer (capacity - 1) rest
  rcases hoffer : o.transport.offer (capacity - 1) rest with ⟨transport, left, ended⟩
  rw [hoffer] at hsteady hended
  cases ended with
  | done => exact lands_empty hsteady
  | refused | failed _ => exact ⟨hsteady, fun _ => Progress.noConfusion⟩
  | stalled => exact absurd rfl hended

theorem lands_place (h : o.transport.Steady) (wire : Bytes) : Lands (o.place wire) := by
  unfold place
  split_ifs
  · exact lands_empty h
  · exact lands_pass h wire

theorem lands_send (h : o.transport.Steady) (wire : Bytes) : Lands (o.send wire) := by
  unfold send
  split_ifs
  · exact lands_drain h fun _ hsteady => lands_place hsteady wire
  · exact lands_place h wire

end Outlet

/-! ## A peer that nobody keeps waiting -/

/-- Whether a send ended in a failure of the transport. -/
def SendOutcome.isFailed : SendOutcome → Bool
  | .failed _ => true
  | .sent | .closed => false

namespace Peer

variable {p : Peer} {shutdown : Bool} {wire : Bytes}

/-- Nobody has the outlet of the peer, and its transport is steady. -/
structure Unhindered (p : Peer) : Prop where
  senders : p.senders = []
  steady : p.outlet.transport.Steady

/-- What a wire makes of a peer that is unhindered, if it is closed when it
fails. -/
def receives (p : Peer) (shutdown : Bool) (wire : Bytes) : Peer × SendOutcome :=
  if p.isClosed shutdown then (p, .closed)
  else
    let (outlet, progress) := p.outlet.send wire
    match progress with
    | .done => ({ p with outlet }, .sent)
    | .failed f => ({ p with outlet }.close.1, .failed f)
    -- a send with a steady transport does not come here
    | .stalled _ => ({ p with outlet }, .closed)

theorem info_close (p : Peer) : p.close.1.info = p.info := by
  unfold close
  split_ifs <;> rfl

theorem Unhindered.close (h : p.Unhindered) : p.close.1.Unhindered := by
  unfold Peer.close
  split_ifs with hclosed hfree
  · exact h
  · exact ⟨h.senders, h.steady.shutdown⟩
  · exact ⟨h.senders, h.steady⟩

/-- The one turn that a send takes: what it makes of the peer, before the
sender closes it. -/
theorem Unhindered.sendTurn (h : p.Unhindered) (me : TaskKey) (shutdown : Bool) (wire : Bytes) :
    ∃ q outcome, p.sendTurn me shutdown (.fresh wire) = some (q, .ended outcome)
      ∧ q.info = p.info ∧ q.Unhindered
      ∧ p.receives shutdown wire = (if outcome.isFailed then q.close.1 else q, outcome)
      ∧ (outcome.isFailed = true → q.closed = false) := by
  have hturn : p.sendTurn me shutdown (.fresh wire) = if p.isClosed shutdown then
      some (p, .ended .closed)
      else some ({ p with senders := [me] }.advanced (p.outlet.send wire)) := by
    simp [Peer.sendTurn, h.senders]
  rw [hturn, receives]
  by_cases hclosed : p.isClosed shutdown = true
  · rw [if_pos hclosed, if_pos hclosed]
    exact ⟨p, .closed, rfl, rfl, h, rfl, Bool.noConfusion⟩
  · have hopen : p.closed = false := by
      cases hc : p.closed with
      | false => rfl
      | true => exact absurd (by rw [isClosed, hc]; rfl) hclosed
    have hlands := Outlet.lands_send h.steady wire
    rw [if_neg hclosed, if_neg hclosed]
    rcases hsend : p.outlet.send wire with ⟨outlet, progress⟩
    rw [hsend] at hlands
    have hfree : ({ p with outlet, senders := [] } : Peer) = { p with outlet } := by
      rw [← h.senders]
    cases progress with
    | done =>
        refine ⟨{ p with outlet }, .sent, ?_, rfl, ⟨h.senders, hlands.steady⟩, rfl,
          Bool.noConfusion⟩
        rw [← hfree]
        rfl
    | failed f =>
        refine ⟨{ p with outlet }, .failed f, ?_, rfl, ⟨h.senders, hlands.steady⟩, rfl,
          fun _ => hopen⟩
        rw [← hfree]
        rfl
    | stalled stage => exact absurd rfl (hlands.ends stage)

/-- A peer that has got a wire is still unhindered. -/
theorem Unhindered.receives (h : p.Unhindered) (shutdown : Bool) (wire : Bytes) :
    (p.receives shutdown wire).1.Unhindered ∧ (p.receives shutdown wire).1.info = p.info := by
  obtain ⟨q, outcome, -, hinfo, hq, hreceives, -⟩ := h.sendTurn 0 shutdown wire
  rw [hreceives]
  cases outcome.isFailed with
  | true => exact ⟨hq.close, q.info_close.trans hinfo⟩
  | false => exact ⟨hq, hinfo⟩

end Peer

end LineRelay
