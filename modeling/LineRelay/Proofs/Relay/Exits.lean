/-
# From the first line of a worker to its end

`Conducted` puts together what a worker has done in a world of a run that
leaves it its connection to itself:

| | |
| :-- | :-- |
| `lines` | it has relayed the first complete lines of its stream, in order |
| `all`, `idle` | all up to the break, if it left for that, and all if it waits for more |
| `undisturbed` | nothing but a break of its stream ends it by itself |
| `refused` | one whose peer could not be registered has read nothing |
| `closed`, `dismissed` | one that has ended has closed its peer, and had it removed once |

The break is where the stream ends, where a read fails, or where a line is
over the limit.  A read that was only interrupted is none: the reader makes
it again, and what comes then is relayed (`line_after_interruption`).
-/
import LineRelay.Proofs.Relay.Conduct
import LineRelay.Proofs.Relay.Release

namespace LineRelay

namespace World

variable {w w₀ : World} {moves : List Move} {t : TaskKey} {wk : Worker} {k : PeerKey} {id : PeerId}

/-! ## Lines -/

theorem RelayedSoFar.lines (h : w₀.RelayedSoFar moves t wk) :
    (relayed t w₀ moves).map (·.bytes)
      <+: completeLines wk.reader.limit (stream wk.peer w₀ moves).signs := by
  cases h with
  | enrols _ _ hunread | refused _ _ hunread =>
      rw [hunread.relayed]
      exact List.nil_prefix
  | reads _ _ hreads => exact hreads.lines_prefix
  | left _ _ hprefix _ => exact hprefix

/-- A worker that has left for a break has relayed all lines before it. -/
theorem RelayedSoFar.all (h : w₀.RelayedSoFar moves t wk)
    (hreason : wk.reason? = some .disconnected)
    (hfed : ¬ w₀.Overfed moves wk.peer) :
    Breaks wk.reader.limit (stream wk.peer w₀ moves).signs
      ∧ (relayed t w₀ moves).map (·.bytes)
        = completeLines wk.reader.limit (stream wk.peer w₀ moves).signs := by
  cases h with
  | enrols hstage _ _ | refused hstage _ _ => simp [Worker.reason?, hstage] at hreason
  | reads hstage _ _ =>
      rcases hstage with hstage | ⟨b, hstage⟩ <;> simp [Worker.reason?, hstage] at hreason
  | left hreason' _ _ hwarrants =>
      cases hreason'.symm.trans hreason
      obtain ⟨seen, rest, hsigns, hstopped⟩ := hwarrants hfed
      rw [hsigns, hstopped.breaks.completeLines_append]
      exact ⟨hstopped.breaks.append rest, hstopped.lines⟩

/-- A worker that waits for something to read has nothing left to look at. -/
theorem isIdle_of_turn {c : Connection} (ht : w.tasks[t]? = some (.worker wk))
    (hc : w.connections[wk.peer]? = some c) (hstage : wk.stage = .reading)
    (hturn : w.turn t = none) : isIdle wk.reader c.inlet = true := by
  simp only [turn, ht, Option.bind_some, taskTurn, workerTurn, hc, hstage, readTurn,
    Option.map_eq_none_iff] at hturn
  split_ifs at hturn with _ _ hidle
  exact hidle

/-- A worker that waits for something to read has relayed all there was. -/
theorem RelayedSoFar.idle (h : w₀.RelayedSoFar moves t wk)
    (ht : (w₀.run moves).tasks[t]? = some (.worker wk)) (hstage : wk.stage = .reading)
    (hturn : (w₀.run moves).turn t = none) :
    (relayed t w₀ moves).map (·.bytes)
      = completeLines wk.reader.limit (stream wk.peer w₀ moves).signs := by
  obtain ⟨-, used, i, hreads⟩ := h.of_reading (.inl hstage)
  obtain ⟨c, hc, rfl⟩ := Option.map_eq_some_iff.1 hreads.inlet
  have hidle := isIdle_of_turn ht hc hstage hturn
  simp only [isIdle, Bool.and_eq_true, List.isEmpty_iff, Bool.not_eq_true'] at hidle
  obtain ⟨⟨hunread, hitems⟩, hopen⟩ := hidle
  rw [hreads.signs, Inlet.signs, hitems, hopen]
  simpa using hreads.follows.all_lines hunread

/-! ## Reasons -/

theorem RelayedSoFar.reason (h : w₀.RelayedSoFar moves t wk) {reason : Reason}
    (hreason : wk.reason? = some reason) : w₀.Refused moves t ∨ w₀.Warrants moves t wk reason := by
  cases h with
  | enrols hstage _ _ => simp [Worker.reason?, hstage] at hreason
  | refused _ hrefused _ => exact .inl hrefused
  | reads hstage _ _ =>
      rcases hstage with hstage | ⟨b, hstage⟩ <;> simp [Worker.reason?, hstage] at hreason
  | left hreason' _ _ hwarrants =>
      cases hreason'.symm.trans hreason
      exact .inr hwarrants

theorem RelayedSoFar.of_refused (h : w₀.RelayedSoFar moves t wk) (hrefused : w₀.Refused moves t) :
    wk.stage = .finished .shutdown ∧ w₀.Unread moves t wk := by
  cases h with
  | refused hstage _ hunread => exact ⟨hstage, hunread⟩
  | enrols _ hnot _ | reads _ hnot _ | left _ hnot _ _ => exact absurd hrefused hnot

/-! ## Registrations -/

/-- A peer whose worker has ended is no member. -/
theorem Enrols.contains_of_finished (henrols : w₀.Enrols moves t wk.peer id) (h₀ : w₀.IsNew)
    (hmoves : w₀.Permitted moves) {reason : Reason}
    (ht : (w₀.run moves).tasks[t]? = some (.worker wk)) (hstage : wk.stage = .finished reason) :
    (w₀.run moves).registry.membership.contains id = false := by
  rw [Membership.contains_eq_false_iff]
  intro a ha hid
  have hhandle := henrols.identifies.handle_eq
    ((requests_run h₀.requests hmoves).names_member ha) hid
  rcases enlists_run h₀ hmoves henrols.serving a ha with hout | ⟨t', wk', ht', hpeer, hstays⟩
  · exact henrols.alone a hout hhandle
  · obtain rfl := henrols.sole t' wk' ht' (hpeer.trans hhandle)
    cases ht.symm.trans ht'
    exact hstays.here reason hstage

/-- A peer that is registered by its worker alone is removed once at most. -/
theorem Enrols.departures_le_one (henrols : w₀.Enrols moves t k id) (h₀ : w₀.IsNew)
    (hmoves : w₀.Permitted moves) : (w₀.run moves).registry.departures id ≤ 1 := by
  have hbalance := (requests_run h₀.requests hmoves).balanced henrols.serving id
  have hone := (enrolment_run h₀ hmoves henrols).arrivals_le_one
  omega

theorem Enrols.departures_of_finished (henrols : w₀.Enrols moves t wk.peer id) (h₀ : w₀.IsNew)
    (hmoves : w₀.Permitted moves) {reason : Reason}
    (ht : (w₀.run moves).tasks[t]? = some (.worker wk)) (hstage : wk.stage = .finished reason) :
    (w₀.run moves).registry.departures id = 1 := by
  have hone := (enrolment_run h₀ hmoves henrols).after
    (enrolled_of_stage ht (by simp [hstage]))
  have hbalance := (requests_run h₀.requests hmoves).balanced henrols.serving id
  rw [henrols.contains_of_finished h₀ hmoves ht hstage, hone] at hbalance
  simpa using hbalance.symm

end World

/-! ## What a worker does -/

/-- What the worker `t` has done in a run. -/
structure Conducted (moves : List Move) (t : TaskKey) (wk : Worker) : Prop where
  lines : (World.relayed t {} moves).map (·.bytes)
    <+: completeLines wk.reader.limit (World.stream wk.peer {} moves).signs
  all : wk.reason? = some .disconnected → ¬ World.Overfed {} moves wk.peer →
    Breaks wk.reader.limit (World.stream wk.peer {} moves).signs
      ∧ (World.relayed t {} moves).map (·.bytes)
        = completeLines wk.reader.limit (World.stream wk.peer {} moves).signs
  idle : wk.stage = .reading → (World.run {} moves).turn t = none →
    (World.relayed t {} moves).map (·.bytes)
      = completeLines wk.reader.limit (World.stream wk.peer {} moves).signs
  undisturbed : ∀ reason, wk.reason? = some reason → (World.run {} moves).shutdown = false →
    (∀ p, (World.run {} moves).peer? wk.peer = some p → p.fired = false) →
    ¬ World.Refused {} moves t → reason = .disconnected
  refused : World.Refused {} moves t → wk.stage = .finished .shutdown
    ∧ World.relayed t {} moves = []
    ∧ (World.run {} moves).inlet? wk.peer = some (World.stream wk.peer {} moves)
  closed : ∀ reason, wk.stage = .finished reason →
    ∃ p, (World.run {} moves).peer? wk.peer = some p ∧ p.closed = true
  dismissed : ∀ id, World.Enrols {} moves t wk.peer id →
    (World.run {} moves).registry.departures id ≤ 1
      ∧ ∀ reason, wk.stage = .finished reason →
        (World.run {} moves).registry.membership.contains id = false
          ∧ (World.run {} moves).registry.departures id = 1

/-- In every world of a run, a worker that has its connection to itself, of
which it is given no line that the machine could not hold, has conducted
itself as it should. -/
theorem worker_conducts {moves : List Move} (hmoves : ({} : World).Permitted moves) {t : TaskKey}
    {wk : Worker} (ht : (World.run {} moves).tasks[t]? = some (.worker wk))
    (hsole : (World.run {} moves).Sole t wk.peer)
    (hfit : Framer.Fits wk.reader.limit 0
      ((World.stream wk.peer {} moves).items.flatMap Delivery.marks)) :
    Conducted moves t wk := by
  have h₀ : World.IsNew {} := ⟨rfl, rfl, fun h => by cases h⟩
  have hholds : World.Holds {} moves t := by
    intro wk' ht'
    cases ht.symm.trans ht'
    exact hfit
  have hsofar := (World.soleReader_run h₀ hmoves hsole hholds).relayedSoFar wk ht rfl
  refine ⟨hsofar.lines, hsofar.all, hsofar.idle ht, ?_, ?_, ?_, ?_⟩
  · intro reason hreason hopen hquiet hnot
    rcases hsofar.reason hreason with hrefused | hwarrants
    · exact absurd hrefused hnot
    · cases reason with
      | disconnected => rfl
      | shutdown => cases hopen.symm.trans hwarrants
      | writeFailed =>
          obtain ⟨p, hp, hfired⟩ := hwarrants
          cases (hquiet p hp).symm.trans hfired
  · intro hrefused
    obtain ⟨hstage, hunread⟩ := hsofar.of_refused hrefused
    exact ⟨hstage, hunread.relayed, hunread.inlet⟩
  · intro reason hstage
    exact World.finished_run h₀ hmoves ht hstage
  · intro id henrols
    exact ⟨henrols.departures_le_one h₀ hmoves, fun reason hstage =>
      ⟨henrols.contains_of_finished h₀ hmoves ht hstage,
        henrols.departures_of_finished h₀ hmoves ht hstage⟩⟩

/-- A peer that nobody has written to. -/
def visitor : Peer := { info := ⟨⟨1⟩, ⟨"visitor"⟩, 0⟩, outlet := { transport := {} } }

/-- The worker of a peer registers it. -/
def arriving : List Move :=
  [.connect ⟨visitor, .silent⟩, .spawn (.worker (World.newWorker 0 visitor none)),
    .turn 0, .serve World.byId, .turn 0]

/-- The peer says a line and half of another, and then no more. -/
def tailing : List Move :=
  arriving ++ [.supply 0 (.data [104, 105, 10, 121]), .supply 0 .ended, .turn 0,
    .turn 0, .serve World.byId, .turn 0, .turn 0, .turn 0, .serve World.byId, .turn 0]

set_option maxRecDepth 4000 in
/-- The worker of `tailing` has relayed the line, and not what comes after it,
and had its peer removed. -/
theorem worker_conducts_tailing : ({} : World).Permitted tailing
    ∧ ∃ wk, (World.run {} tailing).tasks[0]? = some (.worker wk)
      ∧ (World.run {} tailing).Sole 0 wk.peer
      ∧ Framer.Fits wk.reader.limit 0
        ((World.stream wk.peer {} tailing).items.flatMap Delivery.marks)
      ∧ World.Enrols {} tailing 0 wk.peer ⟨1⟩
      ∧ completeLines wk.reader.limit (World.stream wk.peer {} tailing).signs = [[104, 105]]
      ∧ (World.relayed 0 {} tailing).map (·.bytes) = [[104, 105]]
      ∧ (World.run {} tailing).registry.departures ⟨1⟩ = 1 := by
  have hmoves : ({} : World).Permitted tailing := by decide +kernel
  have htasks : (World.run {} tailing).tasks
      = [.worker ⟨0, ⟨none, [], []⟩, 1, .finished .disconnected⟩] := by decide +kernel
  have hserving : (World.run {} tailing).registry.service = .serving := by decide +kernel
  have hconnections : (World.run {} tailing).connections.map (·.peer.info) = [visitor.info] := by
    decide +kernel
  have hfit : Framer.Fits none 0 ((World.stream 0 {} tailing).items.flatMap Delivery.marks) := by
    decide +kernel
  have hlines : completeLines none (World.stream 0 {} tailing).signs = [[104, 105]] := by
    decide +kernel
  have hfed : ¬ World.Overfed {} tailing 0 := by
    rintro ⟨hends, -⟩
    have hopen : (World.stream 0 {} tailing).ends = false := by decide +kernel
    cases hopen.symm.trans hends
  have ht : (World.run {} tailing).tasks[0]?
      = some (.worker ⟨0, ⟨none, [], []⟩, 1, .finished .disconnected⟩) := by rw [htasks]; rfl
  have hkey : ∀ {k p}, (World.run {} tailing).peer? k = some p → k = 0 ∧ p.info = visitor.info := by
    intro k p hp
    have hinfo : ((World.run {} tailing).connections.map (·.peer.info))[k]? = some p.info := by
      obtain ⟨c, hc, rfl⟩ := Option.map_eq_some_iff.1 hp
      rw [List.getElem?_map, hc]
      rfl
    rw [hconnections] at hinfo
    cases k with
    | zero => exact ⟨rfl, (Option.some.inj hinfo).symm⟩
    | succ k => cases hinfo
  have hsole : (World.run {} tailing).Sole 0 0 := by
    rintro t wk ht -
    rw [htasks] at ht
    cases t with
    | zero => rfl
    | succ t => cases ht
  have henrols : World.Enrols {} tailing 0 0 ⟨1⟩ := by
    refine ⟨hserving, ⟨fun hp => ?_, fun hp _ => (hkey hp).1⟩, hsole, ?_⟩
    · rw [(hkey hp).2]
      rfl
    · intro a ha
      simp [tailing, arriving] at ha
  have hconduct := worker_conducts hmoves ht hsole hfit
  exact ⟨hmoves, _, ht, hsole, hfit, henrols, hlines, hlines ▸ (hconduct.all rfl hfed).2,
    ((hconduct.dismissed _ henrols).2 _ rfl).2⟩

/-- A read of the peer is interrupted before it says a line. -/
def interrupting : List Move :=
  arriving ++ [.supply 0 (.failed ⟨.interrupted, none⟩), .supply 0 (.data [104, 105, 10]), .turn 0]

set_option maxRecDepth 4000 in
/-- The first thing that the worker of `interrupting` reads is a failure, and
it relays the line after it: nothing is complete before the failure. -/
theorem line_after_interruption : ({} : World).Permitted interrupting
    ∧ (World.stream 0 {} interrupting).items
      = [] ++ .failed ⟨.interrupted, none⟩ :: [.data [104, 105, 10]]
    ∧ ¬ (World.relayed 0 {} interrupting).map (·.bytes) <+: completeLines none [] := by
  decide +kernel

end LineRelay
