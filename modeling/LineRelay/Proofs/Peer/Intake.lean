/-
# What an outlet takes of a wire

The bytes that an outlet has *taken* are those that the transport was given
and those that wait in the buffer behind them.  Taking is not sending: a
stall or a failure may leave a wire in the buffer, and it still goes out
before whatever is taken later.

A step of a send takes a stretch of its wire, and then

| it is | and of the wire it has taken |
| :-- | :-- |
| done | all |
| stalled while room is made | nothing |
| stalled on the direct path | a part |
| stalled in the buffer | all |
| failed | nothing, or all, or a part behind which a buffer full is missing |

`Outlet.Takes` says so.  The last line is the one that matters to whoever
comes next: only a wire of more than `capacity` bytes is ever torn.
-/
import LineRelay.Proofs.Peer.Sending

namespace LineRelay

/-- The bytes that an outlet has taken. -/
def Outlet.taken (o : Outlet) : Bytes := o.transport.received ++ o.buffer

/-- A send of `wire` that stands at a stage has had `part` of it taken. -/
def SendStage.Stands (wire part : Bytes) : SendStage → Prop
  | .makingRoom rest => part = [] ∧ rest = wire
  | .passing rest => part ++ rest = wire
  | .emptying | .flushing => part = wire

/-- A wire of which `part` was taken when its send failed. -/
structure Torn (wire part : Bytes) : Prop where
  front : part <+: wire
  long : part ≠ [] → part ≠ wire → part.length + capacity ≤ wire.length

/-- A step of a send of `wire` that ended like this has had `part` of it taken. -/
def Progress.Leaves (wire part : Bytes) : Progress → Prop
  | .done => part = wire
  | .stalled stage => stage.Stands wire part
  | .failed _ => Torn wire part

theorem Torn.none (wire : Bytes) : Torn wire [] := ⟨List.nil_prefix, fun h => absurd rfl h⟩

theorem Torn.all (wire : Bytes) : Torn wire wire :=
  ⟨List.prefix_refl _, fun _ h => absurd rfl h⟩

namespace Outlet

/-- A step of a send of `wire` of which `before` was taken before it. -/
def Takes (o : Outlet) (wire before : Bytes) (step : Outlet × Progress) : Prop :=
  ∃ part, step.1.taken = o.taken ++ part ∧ step.2.Leaves wire (before ++ part)

variable {o : Outlet} {wire before : Bytes}

/-- A step that takes nothing more than what was taken before it. -/
theorem Takes.nothing {o' : Outlet} {p : Progress} (htaken : o'.taken = o.taken)
    (h : p.Leaves wire before) : o.Takes wire before (o', p) :=
  ⟨[], by rw [htaken, List.append_nil], by rwa [List.append_nil]⟩

/-- What a first stretch leaves is taken by the steps after it. -/
theorem Takes.after (o' : Outlet) (first : Bytes) {step : Outlet × Progress}
    (htaken : o'.taken = o.taken ++ first) (h : o'.Takes wire (before ++ first) step) :
    o.Takes wire before step := by
  obtain ⟨part, hpart, hleaves⟩ := h
  exact ⟨first ++ part, by rw [hpart, htaken, List.append_assoc],
    by rwa [List.append_assoc] at hleaves⟩

/-! ## Stages -/

theorem takes_flush : o.Takes wire wire o.flush := by
  unfold flush Transport.flush
  match o.transport.flushes with
  | [] | .succeeds :: _ => exact .nothing rfl rfl
  | .fails _ :: _ => exact .nothing rfl (Torn.all wire)
  | .stalls :: _ => exact .nothing rfl rfl

/-- Writing the buffer out takes nothing; whatever comes then may. -/
theorem takes_drain {stage : SendStage} {next : Outlet → Outlet × Progress}
    (hstage : stage.Stands wire before) (hfailed : Torn wire before)
    (hnext : ∀ o : Outlet, o.buffer = [] → o.Takes wire before (next o)) :
    o.Takes wire before (o.drain stage next) := by
  unfold drain
  rcases hoffer : o.transport.offer 0 o.buffer with ⟨transport, left, ended⟩
  have hsame : Outlet.taken { transport, buffer := left } = o.taken := by
    have := o.transport.received_offer 0 o.buffer
    rwa [hoffer] at this
  cases ended with
  | done =>
      obtain ⟨-, -, -, -, hleft⟩ := Transport.exists_sent_of_offer hoffer
      have hempty : left = [] := List.length_eq_zero_iff.1 (Nat.le_zero.1 (hleft rfl))
      obtain ⟨part, hpart, hleaves⟩ := hnext { transport, buffer := left } hempty
      exact ⟨part, by rw [← hsame]; exact hpart, hleaves⟩
  | refused | failed _ => exact .nothing hsame hfailed
  | stalled => exact .nothing hsame hstage

theorem takes_empty : o.Takes wire wire o.empty :=
  takes_drain rfl (Torn.all wire) fun _ _ => takes_flush

theorem takes_pass {rest : Bytes} (hbuffer : o.buffer = []) (hwire : before ++ rest = wire) :
    o.Takes wire before (o.pass rest) := by
  unfold pass
  rcases hoffer : o.transport.offer (capacity - 1) rest with ⟨transport, left, ended⟩
  obtain ⟨sent, hreceived, hsplit, -, -⟩ := Transport.exists_sent_of_offer hoffer
  have hsent : Outlet.taken { o with transport } = o.taken ++ sent := by
    simp only [taken, hbuffer, hreceived, List.append_nil]
  have hwire' : before ++ sent ++ left = wire := by rw [List.append_assoc, ← hsplit, hwire]
  have htorn : ended ≠ .done → Torn wire (before ++ sent) := by
    intro hended
    refine ⟨⟨left, hwire'⟩, fun _ _ => ?_⟩
    have hmissing := Transport.lt_length_of_offer hoffer hended
    simp only [← hwire', List.length_append]
    omega
  cases ended with
  | done =>
      -- what is left is less than a buffer, and goes through it
      refine .after { o with transport, buffer := o.buffer ++ left } (sent ++ left) ?_ ?_
      · simp only [taken, hbuffer, hreceived, List.append_nil, List.nil_append, List.append_assoc]
      · rw [← hsplit, hwire]
        exact takes_empty
  | refused | failed _ => exact ⟨sent, hsent, htorn Attempted.noConfusion⟩
  | stalled => exact ⟨sent, hsent, hwire'⟩

theorem takes_place (h : o.buffer = [] ∨ wire.length < capacity) :
    o.Takes wire [] (o.place wire) := by
  unfold place
  split_ifs with hlt
  · refine .after { o with buffer := o.buffer ++ wire } wire ?_ takes_empty
    simp only [taken, List.append_assoc]
  · exact takes_pass (h.resolve_right hlt) rfl

theorem takes_makeRoom : o.Takes wire [] (o.makeRoom wire) :=
  takes_drain ⟨rfl, rfl⟩ (Torn.none wire) fun _ hempty => takes_place (.inl hempty)

theorem takes_send : o.Takes wire [] (o.send wire) := by
  unfold send
  split_ifs with hlt
  · exact takes_makeRoom
  · refine takes_place ?_
    by_cases hbuffer : o.buffer = []
    · exact .inl hbuffer
    · have := List.length_pos_iff.2 hbuffer
      exact .inr (by omega)

theorem takes_resume {stage : SendStage} (h : stage.Stands wire before) (horder : o.InOrder stage) :
    o.Takes wire before (o.resume stage) := by
  cases stage with
  | makingRoom rest =>
      obtain ⟨rfl, rfl⟩ := h
      exact takes_makeRoom
  | passing rest =>
      exact takes_pass horder h
  | emptying =>
      obtain rfl := h
      exact takes_empty
  | flushing =>
      obtain rfl := h
      exact takes_flush

end Outlet

/-! ## Turns -/

/-- A send of `wire` that stands like this has had `part` of it taken. -/
def SendState.Leaves (wire part : Bytes) : SendState → Prop
  | .fresh rest | .queued rest => part = [] ∧ rest = wire
  | .writing stage => stage.Stands wire part
  | .ended .sent => part = wire
  | .ended .closed => part <+: wire
  | .ended (.failed _) => Torn wire part

/-- What was taken of a wire is taken from its front. -/
theorem SendState.Leaves.front {wire part : Bytes} {state : SendState}
    (h : state.Leaves wire part) : part <+: wire := by
  match state with
  | .fresh _ | .queued _ | .writing (.makingRoom _) => exact h.1 ▸ List.nil_prefix
  | .writing (.passing rest) => exact ⟨rest, h⟩
  | .writing .emptying | .writing .flushing | .ended .sent => exact h ▸ List.prefix_refl _
  | .ended .closed => exact h
  | .ended (.failed _) => exact Torn.front h

namespace Peer

variable {p q : Peer} {me : TaskKey} {shutdown : Bool} {state state' : SendState}
  {wire before : Bytes}

theorem Writes.takes {step : Outlet × Progress} (h : p.Writes me shutdown state q step)
    (horder : ∀ stage, state = .writing stage → p.outlet.InOrder stage)
    (hstate : state.Leaves wire before) : p.outlet.Takes wire before step := by
  cases h with
  | first _ _ | handed _ _ =>
      obtain ⟨rfl, rfl⟩ := hstate
      exact Outlet.takes_send
  | again _ _ => exact Outlet.takes_resume hstate (horder _ rfl)

/-- A turn of a sender has the outlet take a stretch of its wire, which may
be empty. -/
theorem SendStep.takes (h : p.SendStep me shutdown state q state')
    (horder : ∀ stage, state = .writing stage → p.outlet.InOrder stage)
    (hstate : state.Leaves wire before) :
    ∃ part, q.outlet.taken = p.outlet.taken ++ part ∧ state'.Leaves wire (before ++ part) := by
  cases h with
  | refused _ | left _ _ _ =>
      refine ⟨[], (List.append_nil _).symm, ?_⟩
      rw [List.append_nil]
      exact hstate.front
  | queued _ _ =>
      refine ⟨[], (List.append_nil _).symm, ?_⟩
      rw [List.append_nil]
      exact hstate
  | @wrote _ r step hwrites =>
      obtain ⟨part, hpart, hleaves⟩ := hwrites.takes horder hstate
      refine ⟨part, by rw [outlet_advanced, hpart], ?_⟩
      unfold advanced
      cases hprogress : step.2 with
      | done | failed _ | stalled _ =>
          rw [hprogress] at hleaves
          exact hleaves

/-- Nobody else has the outlet take anything. -/
theorem Drifts.taken (h : p.Drifts q) : q.outlet.taken = p.outlet.taken := by
  have hreceived : q.outlet.transport.received = p.outlet.transport.received := h.received
  rw [Outlet.taken, Outlet.taken, hreceived, h.buffer]

/-- Only one who goes on with its wire touches the outlet. -/
theorem SendStep.outlet_of_idle (h : p.SendStep me shutdown state q state')
    (hidle : state' = .ended .closed ∨ ∃ wire, state' = .queued wire) : q.outlet = p.outlet := by
  cases h with
  | refused _ | queued _ _ | left _ _ _ => rfl
  | wrote hwrites =>
      unfold advanced at hidle
      split at hidle <;> rcases hidle with hidle | ⟨_, hidle⟩ <;> cases hidle

end Peer

end LineRelay
