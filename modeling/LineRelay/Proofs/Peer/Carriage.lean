/-
# What an outlet carries

A send has so many bytes to go: what stands in the buffer, and its wire
or the rest of it.  One step of a send gives a stretch of them to the
transport, from the front, and then

| it is | and to go is |
| :-- | :-- |
| done | nothing: all went out, and then the transport was flushed |
| stalled | what the stretch left, at the stage where the send stands |
| failed | no matter to this send |

`Outlet.Carries` says so, and every stage of a send does it, so a send
does it as well.  Nothing here asks how the transport answers.
-/
import Mathlib
import LineRelay.Peer.Handle

namespace LineRelay

/-! ## Writes -/

namespace Transport

theorem push_le (floor : Nat) (after : WriteAnswer) (answers : List WriteAnswer) :
    ∀ left : Nat, (push floor after answers left).2.1 ≤ left := by
  induction answers with
  | nil =>
      intro left
      unfold push
      split_ifs
      · exact Nat.le_refl _
      · match after with
        | .takesAll | .takes (_ + 1) => exact Nat.zero_le _
        | .takes 0 | .fails _ | .stalls => exact Nat.le_refl _
  | cons answer answers ih =>
      intro left
      unfold push
      split_ifs
      · exact Nat.le_refl _
      · match answer with
        | .takesAll => exact (ih 0).trans (Nat.zero_le _)
        | .takes 0 | .stalls => exact Nat.le_refl _
        | .takes (most + 1) => exact (ih _).trans (Nat.sub_le _ _)
        | .fails f =>
            simp only
            split_ifs
            · exact ih left
            · exact Nat.le_refl _

/-- Writes that go through leave no more than they may. -/
theorem push_of_done (floor : Nat) (after : WriteAnswer) (answers : List WriteAnswer) :
    ∀ left : Nat, (push floor after answers left).2.2 = .done →
      (push floor after answers left).2.1 ≤ floor := by
  induction answers with
  | nil =>
      intro left h
      unfold push at h ⊢
      split_ifs at h ⊢ with hle
      · exact hle
      · match after with
        | .takesAll | .takes (_ + 1) => exact Nat.zero_le _
        | .takes 0 | .stalls => simp at h
        | .fails f =>
            simp only at h
            split_ifs at h
  | cons answer answers ih =>
      intro left h
      unfold push at h ⊢
      split_ifs at h ⊢ with hle
      · exact hle
      · match answer with
        | .takesAll => exact ih 0 h
        | .takes (most + 1) => exact ih _ h
        | .takes 0 | .stalls => simp at h
        | .fails f =>
            simp only at h ⊢
            split_ifs at h ⊢
            exact ih left h

/-- Writes that do not go through leave more than they may. -/
theorem push_of_not_done (floor : Nat) (after : WriteAnswer) (answers : List WriteAnswer) :
    ∀ left : Nat, (push floor after answers left).2.2 ≠ .done →
      floor < (push floor after answers left).2.1 := by
  induction answers with
  | nil =>
      intro left h
      unfold push at h ⊢
      split_ifs at h ⊢ with hle
      · exact absurd rfl h
      · match after with
        | .takesAll | .takes (_ + 1) => exact absurd rfl h
        | .takes 0 | .stalls | .fails _ => exact Nat.lt_of_not_le hle
  | cons answer answers ih =>
      intro left h
      unfold push at h ⊢
      split_ifs at h ⊢ with hle
      · exact absurd rfl h
      · match answer with
        | .takesAll => exact ih 0 h
        | .takes (most + 1) => exact ih _ h
        | .takes 0 | .stalls => exact Nat.lt_of_not_le hle
        | .fails f =>
            simp only at h ⊢
            split_ifs at h ⊢
            · exact ih left h
            · exact Nat.lt_of_not_le hle

/-- An offer gives the transport a stretch from the front, all but what
may be left if it goes through. -/
theorem exists_sent_of_offer {t after : Transport} {floor : Nat} {bs left : Bytes}
    {ended : Attempted} (h : t.offer floor bs = (after, left, ended)) :
    ∃ sent, after.received = t.received ++ sent ∧ bs = sent ++ left
      ∧ after.flushed = t.flushed ∧ (ended = .done → left.length ≤ floor) := by
  have hle := push_le floor t.writesAfter t.writes bs.length
  have hdone := push_of_done floor t.writesAfter t.writes bs.length
  rcases hpush : push floor t.writesAfter t.writes bs.length with ⟨writes, count, how⟩
  rw [hpush] at hle hdone
  simp only [offer, hpush, Prod.mk.injEq] at h
  obtain ⟨rfl, rfl, rfl⟩ := h
  refine ⟨bs.take (bs.length - count), rfl, (List.take_append_drop _ bs).symm, rfl, ?_⟩
  intro h
  have := hdone h
  simp only at this hle
  rw [List.length_drop]
  omega

/-- An offer that does not go through leaves more than it may. -/
theorem lt_length_of_offer {t after : Transport} {floor : Nat} {bs left : Bytes}
    {ended : Attempted} (h : t.offer floor bs = (after, left, ended)) (hended : ended ≠ .done) :
    floor < left.length := by
  have hle := push_le floor t.writesAfter t.writes bs.length
  have hmore := push_of_not_done floor t.writesAfter t.writes bs.length
  rcases hpush : push floor t.writesAfter t.writes bs.length with ⟨writes, count, how⟩
  rw [hpush] at hle hmore
  simp only [offer, hpush, Prod.mk.injEq] at h
  obtain ⟨-, rfl, rfl⟩ := h
  have := hmore hended
  simp only at this hle
  rw [List.length_drop]
  omega

end Transport

/-! ## Stages -/

namespace Outlet

/-- The bytes that a send at a stage has to go. -/
def toGo (o : Outlet) : SendStage → Bytes
  | .makingRoom wire => o.buffer ++ wire
  | .passing rest => o.buffer ++ rest
  | .emptying => o.buffer
  | .flushing => []

/-- Nothing stands in the buffer that the stage would overtake. -/
def InOrder (o : Outlet) : SendStage → Prop
  | .passing _ | .flushing => o.buffer = []
  | .makingRoom _ | .emptying => True

/-- What a step of a send made of the bytes it had to go. -/
def Came (o : Outlet) (sent togo : Bytes) (after : Outlet) : Progress → Prop
  | .done => sent = togo ∧ after.buffer = []
      ∧ after.transport.flushed = o.transport.flushed + 1
      ∧ after.transport.flushedBytes = after.transport.received
  | .stalled stage => togo = sent ++ after.toGo stage ∧ after.InOrder stage
      ∧ after.transport.flushed = o.transport.flushed
  | .failed _ => sent <+: togo ∧ after.transport.flushed = o.transport.flushed

/-- A step of a send that has `togo` to go. -/
def Carries (o : Outlet) (togo : Bytes) (step : Outlet × Progress) : Prop :=
  ∃ sent, step.1.transport.received = o.transport.received ++ sent
    ∧ o.Came sent togo step.1 step.2

variable {o : Outlet} {wire : Bytes}

/-- A stretch that went out before the step is part of what it carries. -/
theorem Carries.after {o' : Outlet} {first togo : Bytes} {step : Outlet × Progress}
    (hreceived : o'.transport.received = o.transport.received ++ first)
    (hflushed : o'.transport.flushed = o.transport.flushed) (h : Carries o' togo step) :
    Carries o (first ++ togo) step := by
  obtain ⟨sent, hsent, hcame⟩ := h
  refine ⟨first ++ sent, by rw [hsent, hreceived, List.append_assoc], ?_⟩
  cases hstep : step.2 with
  | done =>
      rw [hstep] at hcame
      obtain ⟨rfl, hbuffer, hflush, hbytes⟩ := hcame
      exact ⟨rfl, hbuffer, by rw [hflush, hflushed], hbytes⟩
  | stalled stage =>
      rw [hstep] at hcame
      obtain ⟨rfl, horder, hflush⟩ := hcame
      exact ⟨by rw [List.append_assoc], horder, by rw [hflush, hflushed]⟩
  | failed f =>
      rw [hstep] at hcame
      exact ⟨(List.prefix_append_right_inj first).2 hcame.1, by rw [hcame.2, hflushed]⟩

theorem carries_flush (h : o.buffer = []) : o.Carries [] o.flush := by
  unfold flush Transport.flush
  match o.transport.flushes with
  | [] | .succeeds :: _ => exact ⟨[], (List.append_nil _).symm, rfl, h, rfl, rfl⟩
  | .fails f :: _ => exact ⟨[], (List.append_nil _).symm, List.prefix_refl _, rfl⟩
  | .stalls :: _ => exact ⟨[], (List.append_nil _).symm, rfl, h, rfl⟩

/-- Writing the buffer out, and then whatever carries the rest. -/
theorem carries_drain {stage : SendStage} {next : Outlet → Outlet × Progress} {togo : Bytes}
    (hstage : ∀ o : Outlet, o.toGo stage = o.buffer ++ togo ∧ o.InOrder stage)
    (hnext : ∀ o : Outlet, o.buffer = [] → o.Carries togo (next o)) :
    o.Carries (o.buffer ++ togo) (o.drain stage next) := by
  unfold drain
  rcases hoffer : o.transport.offer 0 o.buffer with ⟨transport, left, ended⟩
  obtain ⟨sent, hreceived, hsplit, hflushed, hleft⟩ := Transport.exists_sent_of_offer hoffer
  rw [hsplit, List.append_assoc]
  cases ended with
  | done =>
      have hempty : left = [] := List.length_eq_zero_iff.1 (Nat.le_zero.1 (hleft rfl))
      subst hempty
      exact .after hreceived hflushed (hnext _ rfl)
  | refused => exact ⟨sent, hreceived, List.prefix_append _ _, hflushed⟩
  | failed f => exact ⟨sent, hreceived, List.prefix_append _ _, hflushed⟩
  | stalled => exact ⟨sent, hreceived, by rw [(hstage _).1], (hstage _).2, hflushed⟩

theorem carries_empty : o.Carries o.buffer o.empty := by
  have := @carries_drain o .emptying flush []
    (fun _ => ⟨(List.append_nil _).symm, trivial⟩) fun _ h => carries_flush h
  rwa [List.append_nil] at this

theorem carries_pass (h : o.buffer = []) (rest : Bytes) : o.Carries rest (o.pass rest) := by
  unfold pass
  rcases hoffer : o.transport.offer (capacity - 1) rest with ⟨transport, left, ended⟩
  obtain ⟨sent, hreceived, hsplit, hflushed, -⟩ := Transport.exists_sent_of_offer hoffer
  rw [hsplit]
  cases ended with
  | done =>
      simp only [h, List.nil_append]
      have hrest : Carries ⟨transport, left⟩ left (empty ⟨transport, left⟩) := carries_empty
      exact hrest.after hreceived hflushed
  | refused => exact ⟨sent, hreceived, List.prefix_append _ _, hflushed⟩
  | failed f => exact ⟨sent, hreceived, List.prefix_append _ _, hflushed⟩
  | stalled => exact ⟨sent, hreceived, by simp [toGo, h], h, hflushed⟩

theorem carries_place (h : o.buffer = [] ∨ wire.length < capacity) :
    o.Carries (o.buffer ++ wire) (o.place wire) := by
  unfold place
  split_ifs with hlt
  · obtain ⟨sent, hsent, hcame⟩ := carries_empty (o := { o with buffer := o.buffer ++ wire })
    exact ⟨sent, hsent, hcame⟩
  · have hempty := h.resolve_right hlt
    rw [hempty]
    exact carries_pass hempty wire

theorem carries_makeRoom : o.Carries (o.buffer ++ wire) (o.makeRoom wire) := by
  refine carries_drain (fun _ => ⟨rfl, trivial⟩) ?_
  intro o h
  have := @carries_place o wire (.inl h)
  rwa [h] at this

/-- A send begins with what is buffered and its wire to go. -/
theorem carries_send : o.Carries (o.buffer ++ wire) (o.send wire) := by
  unfold send
  split_ifs with hlt
  · exact carries_makeRoom
  · refine carries_place ?_
    by_cases hbuffer : o.buffer = []
    · exact .inl hbuffer
    · have := List.length_pos_iff.2 hbuffer
      exact .inr (by omega)

/-- A send goes on with what it still has to go. -/
theorem carries_resume {stage : SendStage} (h : o.InOrder stage) :
    o.Carries (o.toGo stage) (o.resume stage) := by
  cases stage with
  | makingRoom wire => exact carries_makeRoom
  | passing rest =>
      have hbuffer : o.buffer = [] := h
      simp only [toGo, hbuffer, List.nil_append]
      exact carries_pass hbuffer rest
  | emptying => exact carries_empty
  | flushing => exact carries_flush h

/-! ## The shutdown of the transport

A send never shuts the transport down. -/

theorem shutdowns_flush (o : Outlet) :
    o.flush.1.transport.shutdowns = o.transport.shutdowns := by
  unfold flush Transport.flush
  match o.transport.flushes with
  | [] | .succeeds :: _ | .fails _ :: _ | .stalls :: _ => rfl

theorem shutdowns_drain (o : Outlet) (stage : SendStage) {next : Outlet → Outlet × Progress}
    (hnext : ∀ o : Outlet, (next o).1.transport.shutdowns = o.transport.shutdowns) :
    (o.drain stage next).1.transport.shutdowns = o.transport.shutdowns := by
  unfold drain
  rcases hoffer : o.transport.offer 0 o.buffer with ⟨transport, left, ended⟩
  have hkept : transport.shutdowns = o.transport.shutdowns := by
    rw [← show (o.transport.offer 0 o.buffer).1 = transport by rw [hoffer]]
    rfl
  cases ended with
  | done => exact (hnext _).trans hkept
  | refused | failed _ | stalled => exact hkept

theorem shutdowns_empty (o : Outlet) : o.empty.1.transport.shutdowns = o.transport.shutdowns :=
  shutdowns_drain o _ shutdowns_flush

theorem shutdowns_pass (o : Outlet) (rest : Bytes) :
    (o.pass rest).1.transport.shutdowns = o.transport.shutdowns := by
  unfold pass
  rcases hoffer : o.transport.offer (capacity - 1) rest with ⟨transport, left, ended⟩
  have hkept : transport.shutdowns = o.transport.shutdowns := by
    rw [← show (o.transport.offer (capacity - 1) rest).1 = transport by rw [hoffer]]
    rfl
  cases ended with
  | done => exact (shutdowns_empty _).trans hkept
  | refused | failed _ | stalled => exact hkept

theorem shutdowns_place (o : Outlet) (wire : Bytes) :
    (o.place wire).1.transport.shutdowns = o.transport.shutdowns := by
  unfold place
  split_ifs
  · exact shutdowns_empty _
  · exact shutdowns_pass o wire

theorem shutdowns_makeRoom (o : Outlet) (wire : Bytes) :
    (o.makeRoom wire).1.transport.shutdowns = o.transport.shutdowns :=
  shutdowns_drain o _ fun o => shutdowns_place o wire

theorem shutdowns_send (o : Outlet) (wire : Bytes) :
    (o.send wire).1.transport.shutdowns = o.transport.shutdowns := by
  unfold send
  split_ifs
  · exact shutdowns_makeRoom o wire
  · exact shutdowns_place o wire

theorem shutdowns_resume (o : Outlet) (stage : SendStage) :
    (o.resume stage).1.transport.shutdowns = o.transport.shutdowns := by
  cases stage with
  | makingRoom wire => exact shutdowns_makeRoom o wire
  | passing rest => exact shutdowns_pass o rest
  | emptying => exact shutdowns_empty o
  | flushing => exact shutdowns_flush o

end Outlet

end LineRelay
