/-
# What closing lets go

A peer that closes has its transport shut down, unless someone has or
wants its outlet then; in that case it is let go with the last who holds
it.  Nobody is left at its outlet when nobody can go on, its worker has
removed it from the registry, and so all who may still hold it are those
who stand at another peer, whose transport keeps them there.

| | |
| :-- | :-- |
| `Closings` | a closed peer was shut down, or was closed in use |
| `Kept` | who holds a peer that has closed, when nobody can go on |

Whether such a task is left does not depend on the peer: in `clinging`, a
broadcast stands at one peer while it has a closed one still before it.
-/
import LineRelay.Proofs.Relay.Roster
import LineRelay.Proofs.Relay.Standstill

namespace LineRelay

/-! ## How a peer closes -/

/-- The peer `k` closed while someone had its outlet or wanted it. -/
def ClosedInUse (w₀ : World) (moves : List Move) (k : PeerKey) : Prop :=
  ∃ n p q, n < moves.length ∧ (w₀.after moves n).peer? k = some p ∧ p.closed = false
    ∧ (w₀.after moves (n + 1)).peer? k = some q ∧ q.closed = true ∧ q.senders ≠ []

theorem ClosedInUse.extend {w₀ : World} {moves : List Move} {k : PeerKey}
    (h : ClosedInUse w₀ moves k) (m : Move) : ClosedInUse w₀ (moves ++ [m]) k := by
  obtain ⟨n, p, q, hn, hp, hopen, hq, hclosed, hsenders⟩ := h
  refine ⟨n, p, q, by simp; omega, ?_, hopen, ?_, hclosed, hsenders⟩
  · rw [World.after_append w₀ [m] hn.le, hp]
  · rw [World.after_append w₀ [m] hn, hq]

/-- What has become of the peers that have closed. -/
structure Closings (w₀ : World) (moves : List Move) : Prop where
  closed : ∀ {k : PeerKey} {p : Peer}, (w₀.run moves).peer? k = some p → p.closed = true →
    p.fired = true ∧ (0 < p.shutdowns ∨ ClosedInUse w₀ moves k)
  finished : ∀ {t : TaskKey} {wk : Worker} {reason : Reason},
    (w₀.run moves).tasks[t]? = some (.worker wk) → wk.stage = .finished reason →
    ∃ p, (w₀.run moves).peer? wk.peer = some p ∧ p.closed = true

/-- A peer that closes is shut down then, or is in use. -/
theorem MoveStep.closing {w w' : World} {m : Move} (h : MoveStep w m w') {k : PeerKey} {p q : Peer}
    (hp : w.peer? k = some p) (hq : w'.peer? k = some q) (hopen : p.closed = false)
    (hclosed : q.closed = true) : q.fired = true ∧ (q.senders = [] → 0 < q.shutdowns) := by
  cases h.outlet hp hq with
  | drifts hdrift _ => exact hdrift.closing hopen hclosed
  | acts _ _ hsend hdrift _ _ _ =>
      obtain ⟨-, -, hsame, -⟩ := hsend.frame
      exact hdrift.closing (hsame.trans hopen) hclosed

/-- A worker that has ended has closed its peer. -/
theorem MoveStep.finished {w w' : World} {m : Move} (h : MoveStep w m w') {t : TaskKey}
    {wk : Worker} {reason : Reason} (ht : w'.tasks[t]? = some (.worker wk))
    (hstage : wk.stage = .finished reason) :
    w.tasks[t]? = some (.worker wk) ∨ ∃ q, w'.peer? wk.peer = some q ∧ q.closed = true := by
  cases h.was ht with
  | stays _ ht₀ => exact .inl ht₀
  | begins _ hbegins _ =>
      obtain ⟨p, -, hwk⟩ := Option.map_eq_some_iff.1 hbegins
      rw [← hwk] at hstage
      cases hstage
  | turns _ _ hturn hw' =>
      subst hw'
      cases hturn with
      | @worker wk₀ _ c _ hc hworker =>
          have hp := World.peer?_of_connection hc
          cases hworker with
          | leaves _ _ | drops _ _ =>
              exact .inr ⟨_, World.peer?_closePeer_self hp, Peer.closed_close _⟩
          | registers _ _ | starts _ _ | quits _ _ | reads _ _ _ _ | stops _ _ _ _ _
          | unregisters _ _ => cases hstage
          | pauses hreading _ _ _ => cases hreading.symm.trans hstage
          | relays _ _ =>
              simp only at hstage
              split_ifs at hstage

/-- In every world of a run, a worker that has ended has closed its peer. -/
theorem World.finished_run {w₀ : World} (h₀ : w₀.IsNew) {moves : List Move}
    (hmoves : w₀.Permitted moves) {t : TaskKey} {wk : Worker} {reason : Reason}
    (ht : (w₀.run moves).tasks[t]? = some (.worker wk)) (hstage : wk.stage = .finished reason) :
    ∃ p, (w₀.run moves).peer? wk.peer = some p ∧ p.closed = true := by
  revert ht
  refine World.run_induction (w := w₀)
    (P := fun moves => (w₀.run moves).tasks[t]? = some (.worker wk) →
      ∃ p, (w₀.run moves).peer? wk.peer = some p ∧ p.closed = true)
    (fun ht => ?_) (fun {moves m} _ h hstep ht => ?_) hmoves
  · obtain ⟨s, hs⟩ := h₀.tasks ht
    cases hs
  · rcases hstep.finished ht hstage with ht₀ | hclosed
    · obtain ⟨p, hp, hclosed⟩ := h ht₀
      obtain ⟨q, hq, hlasts⟩ := hstep.lasts hp
      exact ⟨q, hq, hlasts.closed hclosed⟩
    · exact hclosed

/-- In every world of a run in which connections come open. -/
theorem closings_run {w₀ : World} (h₀ : w₀.IsNew) {moves : List Move} (hmoves : w₀.Permitted moves)
    (hopen : ∀ c, .connect c ∈ moves → c.peer.closed = false) : Closings w₀ moves := by
  refine ⟨fun {k p} hp hclosed => ?_, World.finished_run h₀ hmoves⟩
  obtain ⟨-, -, -, -, -, hrun⟩ := World.peer_induction h₀ (k := k)
    (P := fun moves _ p => (∀ c, .connect c ∈ moves → c.peer.closed = false) →
      p.closed = true → p.fired = true ∧ (0 < p.shutdowns ∨ ClosedInUse w₀ moves k))
    (fun _ hstep hnone hq hopen hclosed => by
      rcases hstep.newcomer hnone hq with ⟨c, rfl, rfl⟩ | ⟨_, _, _, rfl⟩
      · cases (hopen c (by simp)).symm.trans hclosed
      · cases hclosed)
    (fun {moves m _ p q} _ hstep hp hq h hopen hclosed => by
      cases hbefore : p.closed with
      | true =>
          obtain ⟨q', hq', hlasts⟩ := hstep.lasts hp
          cases hq'.symm.trans hq
          obtain ⟨hfired, hhow⟩ := h (fun c hc => hopen c (List.mem_append_left _ hc)) hbefore
          exact ⟨hlasts.fired hfired,
            hhow.imp (fun hshut => hshut.trans_le hlasts.shutdowns) (·.extend m)⟩
      | false =>
          obtain ⟨hfired, hshut⟩ := hstep.closing hp hq hbefore hclosed
          refine ⟨hfired, ?_⟩
          by_cases hfree : q.senders = []
          · exact .inl (hshut hfree)
          · refine .inr ⟨moves.length, p, q, by simp, ?_, hbefore, ?_, hclosed, hfree⟩
            · rw [World.after_concat, hp]
            · rw [World.after_concat_succ, hq])
    hmoves hp
  exact hrun hopen hclosed

/-! ## Who still holds it -/

/-- What still holds the peer `k` at the end of a run: a task that stands at
a peer that stalls, or a registration that someone outside asked for. -/
inductive Kept (moves : List Move) (w : World) (k : PeerKey) : Prop
  | standing {t : TaskKey} {task : Task} {j : PeerKey} {state : SendState} :
      w.tasks[t]? = some task → k ∈ w.heldByTask task → w.at? t = some (j, state) → w.Stalls j →
      Kept moves w k
  | enlisted {a : Member} : a ∈ w.registry.membership.members → a.handle = k →
      .request (.register a) ∈ moves → Kept moves w k

/-- When nobody can go on while the registry serves, the transport of a peer
whose worker has ended was shut down, or nobody holds it and it is let go.
Else the peer closed while its outlet was in use, nobody is at the outlet
any more, and one who still holds the peer stands at another, which is open
and keeps it waiting, or someone outside has registered the peer. -/
theorem closing_releases {moves : List Move} (hmoves : ({} : World).Permitted moves)
    (hopen : ∀ c, .connect c ∈ moves → c.peer.closed = false) {w : World}
    (hw : World.run {} moves = w) (hserving : w.registry.service = .serving)
    (hquiet : w.isQuiet = true) {t : TaskKey} {wk : Worker} {reason : Reason}
    (ht : w.tasks[t]? = some (.worker wk)) (hstage : wk.stage = .finished reason) :
    ∃ p, w.peer? wk.peer = some p ∧ p.senders = []
      ∧ (0 < p.shutdowns ∨ w.isHeld wk.peer = false
        ∨ ClosedInUse {} moves wk.peer ∧ Kept moves w wk.peer) := by
  subst hw
  have h₀ : World.IsNew {} := ⟨rfl, rfl, fun h => by cases h⟩
  have hcalm := World.quiet_of_isQuiet hquiet
  have hrequests := World.requests_run h₀.requests hmoves
  have hlocks := World.locks_run h₀.locks hmoves
  have hstages := World.stagesOpen_run h₀.stagesOpen hmoves
  have hclosings := closings_run h₀ hmoves hopen
  obtain ⟨p, hp, hclosed⟩ := hclosings.finished ht hstage
  obtain ⟨hfired, hhow⟩ := hclosings.closed hp hclosed
  have hsignalled : p.signalled (World.run {} moves).shutdown = true := by
    simp [Peer.signalled, hfired]
  refine ⟨p, hp, hcalm.senders_eq_nil hrequests hlocks hp hsignalled, ?_⟩
  rcases hhow with hshut | hinUse
  · exact .inl hshut
  · refine .inr ?_
    cases hheld : (World.run {} moves).isHeld wk.peer with
    | false => exact .inl rfl
    | true =>
        refine .inr ⟨hinUse, ?_⟩
        have htask : ∀ {t : TaskKey} {task : Task}, (World.run {} moves).tasks[t]? = some task →
            wk.peer ∈ (World.run {} moves).heldByTask task →
            Kept moves (World.run {} moves) wk.peer := by
          intro t task ht hmem
          obtain ⟨j, state, hat, hstalls⟩ :=
            hcalm.exists_at_of_held hrequests hlocks hstages hp hsignalled ht hmem
          exact .standing ht hmem hat hstalls
        rw [World.isHeld, Bool.or_eq_true, List.contains_iff_mem, List.any_eq_true] at hheld
        rcases hheld with hmem | ⟨task, htask', hmem⟩
        · rw [World.heldByRegistry, hcalm.queue, List.flatMap_nil, List.append_nil] at hmem
          obtain ⟨a, ha, hhandle⟩ := List.mem_map.1 hmem
          rcases World.enlists_run h₀ hmoves hserving a ha with
            houtside | ⟨t', wk', ht', hpeer, hstays⟩
          · exact .enlisted ha hhandle houtside
          · -- another worker of the peer, who stands somewhere
            have hpeer : wk'.peer = wk.peer := hpeer.trans hhandle
            refine htask ht' ?_
            cases hstage' : wk'.stage with
            | finished reason' => exact absurd hstage' (hstays.here reason')
            | relaying _ | registering _ | reading | leaving _ _ =>
                simp [World.heldByTask, hstage', hpeer]
        · obtain ⟨t', ht'⟩ := List.mem_iff_getElem?.1 htask'
          exact htask ht' (List.contains_iff_mem.1 hmem)

/-- A broadcast stands at the peer 1 and has the peer 0 still before it, a
send stands at the peer 0, and then the worker of the peer 0 leaves. -/
def clinging : List Move :=
  let stalling (id : UInt64) : Connection :=
    ⟨{ info := ⟨⟨id⟩, ⟨"peer"⟩, 0⟩, outlet := { transport := { writesAfter := .stalls } } },
      .silent⟩
  let line : Line := .ofBytes [104, 105]
  let asks (t : TaskKey) : List Move := [.turn t, .serve World.byId, .turn t]
  [.connect (stalling 2), .connect (stalling 1),
      .spawn (.worker (World.newWorker 0 (stalling 2).peer none))]
    ++ asks 0 ++ [.request (.register ⟨(stalling 1).peer.info, 1⟩), .serve World.byId,
      .spawn (.send 0 (.fresh line.toWire)), .turn 1, .spawn (.broadcast (.begin 0 ⟨3⟩ line))]
    ++ asks 2 ++ [.turn 2, .supply 0 .ended, .turn 0] ++ asks 0 ++ [.turn 1]

/-- At the end of `clinging`, nobody can go on, and the broadcast holds the
peer 0, which was not shut down. -/
theorem finished_peer_is_held : ({} : World).Permitted clinging
    ∧ (World.run {} clinging).registry.service = .serving
    ∧ (World.run {} clinging).isQuiet = true
    ∧ (World.run {} clinging).tasks[0]?.bind Task.value? = some (.left .disconnected)
    ∧ ((World.run {} clinging).peer? 0).map Peer.shutdowns = some 0
    ∧ (World.run {} clinging).isHeld 0 = true := by
  decide +kernel

/-- The peer 0 of `clinging` closed in use and is kept. -/
theorem closing_releases_clinging : ({} : World).Permitted clinging
    ∧ (∀ c, .connect c ∈ clinging → c.peer.closed = false)
    ∧ ∃ w, World.run {} clinging = w ∧ w.registry.service = .serving ∧ w.isQuiet = true
      ∧ ClosedInUse {} clinging 0 ∧ Kept clinging w 0 := by
  have hmoves : ({} : World).Permitted clinging := by decide +kernel
  have hopen : ∀ c, .connect c ∈ clinging → c.peer.closed = false := by
    intro c hc
    simp only [clinging, List.mem_append, List.mem_cons, List.not_mem_nil, or_false,
      Move.connect.injEq, reduceCtorEq] at hc
    rcases hc with rfl | rfl <;> rfl
  have hserving : (World.run {} clinging).registry.service = .serving := by decide +kernel
  have hquiet : (World.run {} clinging).isQuiet = true := by decide +kernel
  have hworker : (World.run {} clinging).tasks[0]?
      = some (.worker ⟨0, ⟨none, [], []⟩, 0, .finished .disconnected⟩) := by decide +kernel
  have hshutdowns : ((World.run {} clinging).peer? 0).map Peer.shutdowns = some 0 := by
    decide +kernel
  have hheld : (World.run {} clinging).isHeld 0 = true := by decide +kernel
  refine ⟨hmoves, hopen, _, rfl, hserving, hquiet, ?_⟩
  obtain ⟨p, hp, -, hshut | hfree | hkept⟩ :=
    closing_releases hmoves hopen rfl hserving hquiet hworker rfl
  · rw [hp] at hshutdowns
    exact absurd (Option.some.inj hshutdowns) hshut.ne'
  · cases hfree.symm.trans hheld
  · exact hkept

end LineRelay
