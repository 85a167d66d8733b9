/-
# Wires that fit into the buffer

A wire shorter than the buffer is never written directly: it waits until the
buffer has room for it, and then it goes in as a whole.  So a turn of its send
is one of two.

| the older bytes | of the wire is taken | the send then |
| :-- | :-- | :-- |
| do not go out, though they have to (`Peer.jams`) | nothing | stands before them, or has failed |
| go out, or need not | all | stands behind its wire, or is over |

Whatever the wire, the buffer holds no more than `capacity` bytes
(`Peer.SendStep.fits`).
-/
import LineRelay.Proofs.Peer.Intake

namespace LineRelay

/-- A step that ended like this is behind its wire, which stands in the buffer
or has gone out. -/
def Progress.IsBehind : Progress → Prop
  | .done | .failed _ | .stalled .emptying | .stalled .flushing => True
  | .stalled (.makingRoom _) | .stalled (.passing _) => False

namespace Outlet

variable {o : Outlet} {wire : Bytes}

/-! ## What is taken of a short wire -/

/-- Whether the buffer can be written out. -/
def drains (o : Outlet) : Bool := (o.transport.offer 0 o.buffer).2.2 = .done

/-- A step of a send whose wire was taken before. -/
structure Follows (o : Outlet) (step : Outlet × Progress) : Prop where
  taken : step.1.taken = o.taken
  behind : step.2.IsBehind

/-- A step of a send of which nothing was taken before. -/
inductive Puts (o : Outlet) (wire : Bytes) (jammed : Bool) (step : Outlet × Progress) : Prop
  | waits : jammed = true → step.1.taken = o.taken →
      (step.2 = .stalled (.makingRoom wire) ∨ ∃ f, step.2 = .failed f) → Puts o wire jammed step
  | goes : jammed = false → step.1.taken = o.taken ++ wire → step.2.IsBehind →
      Puts o wire jammed step

/-- Writing the buffer out takes nothing: it goes through, or the send stands
where it is or has failed. -/
theorem drain_cases (o : Outlet) (stage : SendStage) (next : Outlet → Outlet × Progress) :
    (o.drains = true
        ∧ ∃ o', o'.buffer = [] ∧ o'.taken = o.taken ∧ o.drain stage next = next o')
    ∨ o.drains = false ∧ (o.drain stage next).1.taken = o.taken
        ∧ ((o.drain stage next).2 = .stalled stage ∨ ∃ f, (o.drain stage next).2 = .failed f) := by
  unfold drains drain
  rcases hoffer : o.transport.offer 0 o.buffer with ⟨transport, left, ended⟩
  have hsame : Outlet.taken { transport, buffer := left } = o.taken := by
    have := o.transport.received_offer 0 o.buffer
    rwa [hoffer] at this
  cases ended with
  | done =>
      obtain ⟨-, -, -, -, hleft⟩ := Transport.exists_sent_of_offer hoffer
      have hempty : left = [] := List.length_eq_zero_iff.1 (Nat.le_zero.1 (hleft rfl))
      exact .inl ⟨rfl, _, hempty, hsame, rfl⟩
  | refused | failed _ => exact .inr ⟨rfl, hsame, .inr ⟨_, rfl⟩⟩
  | stalled => exact .inr ⟨rfl, hsame, .inl rfl⟩

theorem follows_flush (o : Outlet) : o.Follows o.flush := by
  unfold flush Transport.flush
  match o.transport.flushes with
  | [] | .succeeds :: _ | .fails _ :: _ | .stalls :: _ => exact ⟨rfl, trivial⟩

theorem follows_empty (o : Outlet) : o.Follows o.empty := by
  rcases o.drain_cases .emptying flush with ⟨-, o', -, htaken, hstep⟩ | ⟨-, htaken, hended⟩
  · rw [empty, hstep]
    obtain ⟨htaken', hbehind⟩ := o'.follows_flush
    exact ⟨htaken'.trans htaken, hbehind⟩
  · refine ⟨htaken, ?_⟩
    rcases hended with hended | ⟨f, hended⟩ <;> rw [empty, hended] <;> trivial

theorem puts_place (o : Outlet) (hshort : wire.length < capacity) :
    o.Puts wire false (o.place wire) := by
  rw [place, if_pos hshort]
  obtain ⟨htaken, hbehind⟩ := follows_empty { o with buffer := o.buffer ++ wire }
  refine .goes rfl (htaken.trans ?_) hbehind
  simp only [taken, List.append_assoc]

theorem puts_makeRoom (o : Outlet) (hshort : wire.length < capacity) :
    o.Puts wire (!o.drains) (o.makeRoom wire) := by
  rcases o.drain_cases (.makingRoom wire) fun o => o.place wire with
    ⟨hdrains, o', -, htaken, hstep⟩ | ⟨hjams, htaken, hended⟩
  · rw [makeRoom, hstep, hdrains]
    cases o'.puts_place hshort with
    | waits hjams _ _ => cases hjams
    | goes _ hplaced hbehind => exact .goes rfl (htaken ▸ hplaced) hbehind
  · rw [hjams]
    exact .waits rfl htaken hended

theorem puts_send (o : Outlet) (hshort : wire.length < capacity) :
    o.Puts wire (decide (capacity < o.buffer.length + wire.length) && !o.drains)
      (o.send wire) := by
  unfold send
  split_ifs with hfull
  · rw [decide_eq_true hfull, Bool.true_and]
    exact o.puts_makeRoom hshort
  · rw [decide_eq_false hfull, Bool.false_and]
    exact o.puts_place hshort

/-! ## The room in the buffer -/

theorem buffer_flush (o : Outlet) : o.flush.1.buffer = o.buffer := by
  unfold flush Transport.flush
  match o.transport.flushes with
  | [] | .succeeds :: _ | .fails _ :: _ | .stalls :: _ => rfl

theorem fits_flush (hempty : o.buffer = []) : o.flush.1.buffer.length ≤ capacity := by
  rw [buffer_flush, hempty]
  exact Nat.zero_le _

theorem fits_drain {stage : SendStage} {next : Outlet → Outlet × Progress}
    (hfits : o.buffer.length ≤ capacity)
    (hnext : ∀ o : Outlet, o.buffer = [] → (next o).1.buffer.length ≤ capacity) :
    (o.drain stage next).1.buffer.length ≤ capacity := by
  unfold drain
  rcases hoffer : o.transport.offer 0 o.buffer with ⟨transport, left, ended⟩
  obtain ⟨sent, -, hsplit, -, hleft⟩ := Transport.exists_sent_of_offer hoffer
  cases ended with
  | done => exact hnext _ (List.length_eq_zero_iff.1 (Nat.le_zero.1 (hleft rfl)))
  | refused | failed _ | stalled =>
      rw [hsplit, List.length_append] at hfits
      exact (Nat.le_add_left _ _).trans hfits

theorem fits_empty (hfits : o.buffer.length ≤ capacity) : o.empty.1.buffer.length ≤ capacity :=
  fits_drain hfits fun _ => fits_flush

theorem fits_pass (hempty : o.buffer = []) (rest : Bytes) :
    (o.pass rest).1.buffer.length ≤ capacity := by
  unfold pass
  rcases hoffer : o.transport.offer (capacity - 1) rest with ⟨transport, left, ended⟩
  obtain ⟨-, -, -, -, hleft⟩ := Transport.exists_sent_of_offer hoffer
  cases ended with
  | done =>
      refine fits_empty ?_
      rw [hempty, List.nil_append]
      exact (hleft rfl).trans (Nat.sub_le _ _)
  | refused | failed _ | stalled =>
      show o.buffer.length ≤ capacity
      rw [hempty]
      exact Nat.zero_le _

theorem fits_place (h : o.buffer.length + wire.length ≤ capacity ∨ o.buffer = []) :
    (o.place wire).1.buffer.length ≤ capacity := by
  unfold place
  split_ifs with hshort
  · refine fits_empty ?_
    rw [List.length_append]
    rcases h with h | h
    · exact h
    · rw [h, List.length_nil, Nat.zero_add]
      exact hshort.le
  · refine fits_pass (h.elim (fun hsum => ?_) id) wire
    exact List.length_eq_zero_iff.1 (by omega)

theorem fits_makeRoom (hfits : o.buffer.length ≤ capacity) :
    (o.makeRoom wire).1.buffer.length ≤ capacity :=
  fits_drain hfits fun _ hempty => fits_place (.inr hempty)

theorem fits_send (hfits : o.buffer.length ≤ capacity) :
    (o.send wire).1.buffer.length ≤ capacity := by
  unfold send
  split_ifs with hfull
  · exact fits_makeRoom hfits
  · exact fits_place (.inl (Nat.le_of_not_lt hfull))

theorem fits_resume {stage : SendStage} (hfits : o.buffer.length ≤ capacity)
    (horder : o.InOrder stage) : (o.resume stage).1.buffer.length ≤ capacity := by
  cases stage with
  | makingRoom wire => exact fits_makeRoom hfits
  | passing rest => exact fits_pass horder rest
  | emptying => exact fits_empty hfits
  | flushing => exact fits_flush horder

end Outlet

/-! ## Turns -/

/-- A send of `wire` that stands before it: nothing of it was taken. -/
def SendState.IsBefore (wire : Bytes) : SendState → Prop
  | .fresh rest | .queued rest | .writing (.makingRoom rest) => rest = wire
  | .writing (.passing _) | .writing .emptying | .writing .flushing | .ended _ => False

/-- A send that stands behind its wire, or has come back from there. -/
def SendState.IsBehind : SendState → Prop
  | .writing .emptying | .writing .flushing | .ended .sent | .ended (.failed _) => True
  | .fresh _ | .queued _ | .writing (.makingRoom _) | .writing (.passing _) | .ended .closed =>
      False

namespace Peer

variable {p q r : Peer} {me : TaskKey} {shutdown : Bool} {state state' : SendState} {wire : Bytes}

/-- Whether a send would have to write older bytes out before its wire goes
into the buffer, and could not. -/
def jams (p : Peer) : SendState → Bool
  | .fresh wire | .queued wire =>
      decide (capacity < p.outlet.buffer.length + wire.length) && !p.outlet.drains
  | .writing (.makingRoom _) => !p.outlet.drains
  | .writing (.passing _) | .writing .emptying | .writing .flushing | .ended _ => false

/-- What a turn of a send that stands before its wire means for the wire. -/
inductive Puts (p q : Peer) (wire : Bytes) (state : SendState) : SendState → Prop
  | waits : p.jams state = true → q.outlet.taken = p.outlet.taken →
      Puts p q wire state (.writing (.makingRoom wire))
  | fails {f : Failure} : p.jams state = true → q.outlet.taken = p.outlet.taken →
      Puts p q wire state (.ended (.failed f))
  | goes {state' : SendState} : p.jams state = false →
      q.outlet.taken = p.outlet.taken ++ wire → state'.IsBehind → Puts p q wire state state'

/-- Where a send stands after a step that is behind its wire. -/
theorem isBehind_advanced (p : Peer) {step : Outlet × Progress} (h : step.2.IsBehind) :
    (p.advanced step).2.IsBehind := by
  unfold advanced
  match hended : step.2 with
  | .done | .failed _ | .stalled .emptying | .stalled .flushing => trivial
  | .stalled (.makingRoom _) | .stalled (.passing _) =>
      rw [hended] at h
      exact h

/-- One who writes with its wire before it puts it in, or waits. -/
theorem Writes.puts {step : Outlet × Progress} (h : p.Writes me shutdown state r step)
    (hbefore : state.IsBefore wire) (hshort : wire.length < capacity) :
    p.Puts (r.advanced step).1 wire state (r.advanced step).2 := by
  have hputs : p.outlet.Puts wire (p.jams state) step := by
    cases h with
    | first _ _ | handed _ _ =>
        obtain rfl := hbefore
        exact p.outlet.puts_send hshort
    | @again stage _ _ =>
        match stage with
        | .makingRoom rest =>
            obtain rfl := hbefore
            exact p.outlet.puts_makeRoom hshort
        | .passing _ | .emptying | .flushing => exact absurd hbefore id
  cases hputs with
  | waits hjams htaken hended =>
      rw [← outlet_advanced r step] at htaken
      rcases hended with hended | ⟨f, hended⟩
      · have hstate : (r.advanced step).2 = .writing (.makingRoom wire) := by
          rw [advanced, hended]
        exact hstate ▸ .waits hjams htaken
      · have hstate : (r.advanced step).2 = .ended (.failed f) := by
          rw [advanced, hended]
        exact hstate ▸ .fails hjams htaken
  | goes hjams htaken hbehind =>
      rw [← outlet_advanced r step] at htaken
      exact .goes hjams htaken (r.isBehind_advanced hbehind)

/-- One who writes from behind its wire takes nothing and stays behind it. -/
theorem Writes.follows {step : Outlet × Progress} (h : p.Writes me shutdown state r step)
    (hbehind : state.IsBehind) : (r.advanced step).1.outlet.taken = p.outlet.taken
      ∧ (r.advanced step).2.IsBehind := by
  have hfollows : p.outlet.Follows step := by
    cases h with
    | first _ _ | handed _ _ => exact absurd hbehind id
    | @again stage _ _ =>
        match stage with
        | .makingRoom _ | .passing _ => exact absurd hbehind id
        | .emptying => exact p.outlet.follows_empty
        | .flushing => exact p.outlet.follows_flush
  rw [outlet_advanced]
  exact ⟨hfollows.taken, r.isBehind_advanced hfollows.behind⟩

theorem SendStep.puts (h : p.SendStep me shutdown state q state') (hopen : state' ≠ .ended .closed)
    (hruns : ∀ rest, state' ≠ .queued rest) (hbefore : state.IsBefore wire)
    (hshort : wire.length < capacity) : p.Puts q wire state state' := by
  cases h with
  | refused _ | left _ _ _ => exact absurd rfl hopen
  | queued _ _ => exact absurd rfl (hruns _)
  | wrote hwrites => exact hwrites.puts hbefore hshort

theorem SendStep.follows (h : p.SendStep me shutdown state q state')
    (hopen : state' ≠ .ended .closed) (hbehind : state.IsBehind) :
    q.outlet.taken = p.outlet.taken ∧ state'.IsBehind := by
  cases h with
  | refused _ | left _ _ _ => exact absurd rfl hopen
  | queued _ _ => exact absurd hbehind id
  | wrote hwrites => exact hwrites.follows hbehind

/-- A turn that leaves the peer open does not find it closed. -/
theorem SendStep.ne_closed (h : p.SendStep me shutdown state q state')
    (hopen : q.isClosed shutdown = false) : state' ≠ .ended .closed := by
  rintro rfl
  generalize hstate : SendState.ended .closed = state' at h
  cases h with
  | refused hclosed => cases hclosed.symm.trans hopen
  | queued _ _ => cases hstate
  | left _ hsignalled _ => cases hsignalled.symm.trans (signalled_of_isClosed hopen)
  | wrote _ =>
      unfold advanced at hstate
      split at hstate <;> cases hstate

/-- A turn of a sender leaves the buffer no fuller than it may be. -/
theorem SendStep.fits (h : p.SendStep me shutdown state q state')
    (hfits : p.outlet.buffer.length ≤ capacity)
    (horder : ∀ stage, state = .writing stage → p.outlet.InOrder stage) :
    q.outlet.buffer.length ≤ capacity := by
  cases h with
  | refused _ | queued _ _ | left _ _ _ => exact hfits
  | wrote hwrites =>
      rw [outlet_advanced]
      cases hwrites with
      | first _ _ | handed _ _ => exact Outlet.fits_send hfits
      | again _ _ => exact Outlet.fits_resume hfits (horder _ rfl)

end Peer

end LineRelay
