/-
# What those who watch the registry know

An observer subscribes at some point of the run and is given, in portions of
its own choice, the events from then on (`Observes`); one that falls behind
is told so, and lags.  Some time after it has subscribed it asks who is
registered.  The reply comes from a later moment than the subscription, so
some of the events that the observer is given are in the snapshot already:

    published    ├──────── before ────────┼──── between ────┼──── after ────┤
    snapshot     ├─────────────────────── ids ──────────────┤
    received                              ├─────────── replayed ────────────┤

Replaying them all on the snapshot leads to the ids that are registered now
(`observers_converge`), because what stands between is replayed a second
time.  Nothing is asked of the run: whoever registers, registers twice,
unregisters, asks, or stops the registry, the events are those of a map.

## What this is not

It is not said that the observer gets a reply, or that it does not lag.
-/
import LineRelay.Proofs.Registry.Replay
import LineRelay.Proofs.Relay.Callers

namespace LineRelay

/-! ## Receiving -/

/-- How many events one leaves behind with this. -/
def Watched.span : Watched → Nat
  | .event _ => 1
  | .lagged n => n

/-- One who takes all that waits has left all events behind, those included
that were overwritten: this is what makes the spans the right count. -/
theorem Registry.seen_of_watch {r : Registry} {seen : Nat} (room : Nat)
    (h : seen ≤ r.events.length) :
    seen + ((r.watch room seen).map Watched.span).sum = r.events.length := by
  have hevents : ∀ es : List Change, (es.map (Watched.span ∘ .event)).sum = es.length :=
    fun es => by simp [Watched.span, Function.comp_def]
  simp only [watch, List.map_append, List.sum_append, List.map_map, hevents, List.length_drop]
  split_ifs with hmissed
  · simp only [List.map_nil, List.sum_nil]
    omega
  · simp only [List.map_cons, List.map_nil, List.sum_cons, List.sum_nil, Watched.span]
    omega

/-- One who takes in only events has the first of those that waited. -/
theorem Registry.watch_events {r : Registry} {room seen : Nat} {es : List Change}
    {rest : List Watched} (h : r.watch room seen = es.map .event ++ rest) :
    ∃ back, r.events.drop seen = es ++ back := by
  simp only [watch] at h
  split_ifs at h with hmissed
  · rw [hmissed, Nat.add_zero, List.nil_append, List.map_eq_append_iff] at h
    obtain ⟨front, back, hdrop, hfront, -⟩ := h
    rw [List.map_injective_iff.2 (fun _ _ => Watched.event.inj) hfront] at hdrop
    exact ⟨back, hdrop⟩
  · cases es with
    | nil => exact ⟨_, rfl⟩
    | cons e es => cases h

/-- One for whom nothing waits has left all events behind. -/
theorem Registry.drop_eq_nil_of_watch {r : Registry} {room seen : Nat}
    (h : r.watch room seen = []) : r.events.drop seen = [] := by
  simp only [watch] at h
  split_ifs at h with hmissed
  · rwa [hmissed, Nat.add_zero, List.nil_append, List.map_eq_nil_iff] at h
  · cases h

section

variable (w₀ : World) (moves : List Move)

/-- One who has subscribed after `start` moves, and for whom the last `room`
events are kept.  After `n` moves it has been given `got`, and has left the
first `seen` events behind.  When it looks, it takes as much of what waits
for it as it likes. -/
inductive Observes (room start : Nat) : Nat → Nat → List Watched → Prop
  | subscribes : start ≤ moves.length →
      Observes room start start (w₀.after moves start).registry.events.length []
  | looks {n n' seen : Nat} {got new rest : List Watched} :
      Observes room start n seen got → n ≤ n' → n' ≤ moves.length →
      (w₀.after moves n').registry.watch room seen = new ++ rest →
      Observes room start n' (seen + (new.map Watched.span).sum) (got ++ new)

end

variable {w₀ : World} {moves : List Move} {room start n seen i : Nat} {received : List Change}
  {tk : Ticket} {reply : Reply}

/-- One who never lagged has been given the events from its subscription on. -/
theorem Observes.log {got : List Watched} (h : Observes w₀ moves room start n seen got)
    (hgot : got = received.map .event) :
    n ≤ moves.length ∧ ∃ back,
      (w₀.after moves n).registry.events
        = (w₀.after moves start).registry.events ++ received ++ back
      ∧ seen = (w₀.after moves start).registry.events.length + received.length := by
  induction h generalizing received with
  | subscribes hstart =>
      obtain rfl := List.map_eq_nil_iff.1 hgot.symm
      exact ⟨hstart, [], by simp, rfl⟩
  | @looks n n' seen got new rest _ hle hlength hwatch ih =>
      obtain ⟨received, more, rfl, hreceived, hmore⟩ := List.append_eq_map_iff.1 hgot
      obtain ⟨-, back, hevents, rfl⟩ := ih hreceived.symm
      obtain ⟨published, hpublished⟩ := w₀.events_isPrefix moves hle
      rw [← hmore] at hwatch
      obtain ⟨back', hdrop⟩ := Registry.watch_events hwatch
      rw [← hpublished, hevents, List.append_assoc _ back, List.drop_left' (by simp)] at hdrop
      refine ⟨hlength, back', ?_, ?_⟩
      · rw [← hpublished, hevents, List.append_assoc _ back, hdrop]
        simp only [List.append_assoc]
      · rw [← hmore, List.length_append, Nat.add_assoc]
        simp [Watched.span, Function.comp_def]

/-- One who never lagged and for whom nothing waits has been given all events
from its subscription on. -/
theorem Observes.events_run (h : Observes w₀ moves room start n seen (received.map .event))
    (hwatch : (w₀.run moves).registry.watch room seen = []) :
    (w₀.run moves).registry.events = (w₀.after moves start).registry.events ++ received := by
  obtain ⟨hlength, back, hevents, rfl⟩ := h.log rfl
  obtain ⟨published, hpublished⟩ := w₀.events_isPrefix moves hlength
  have hdrop := Registry.drop_eq_nil_of_watch hwatch
  rw [World.after_length] at hpublished
  rw [← hpublished, hevents, List.append_assoc _ back, List.drop_left' (by simp)] at hdrop
  rw [← hpublished, hevents, List.append_assoc _ back, hdrop, List.append_nil]

/-! ## Asking -/

/-- The reply to one who asks for the members has the ids of the events that
were published when it was given. -/
theorem Sent.snapshot (h : Sent {} moves i tk (.snapshot none))
    (hanswer : (World.run {} moves).registry.answer? tk = some (.ok reply)) :
    ∃ j ms, i < j ∧ j ≤ moves.length ∧ reply = .members ms
      ∧ Member.ids ms = replay ∅ (World.after {} moves j).registry.events := by
  have hlast : ∀ {k answer}, k < moves.length → Answers {} moves tk k moves.length answer →
      answer = some (.ok reply) := fun hk hanswers => by
    rw [← hanswer, ← hanswers _ hk le_rfl, World.after_length]
  cases fate_run moves h with
  | waits _ hnone => cases hlast h.lt hnone
  | lost _ hj _ _ _ herror => cases hlast hj herror
  | @served j _ reply' hij hmove _ hserved _ hok =>
      have hj := (List.getElem?_eq_some_iff.1 hmove).1
      cases hlast hj hok
      obtain ⟨d, hexecutes, -⟩ := (linear_run (moves.take (j + 1))).executes
      have hlog := hexecutes
      change Directory.Executes (World.after {} moves (j + 1)).registry.served _ d at hlog
      rw [hserved] at hlog
      obtain ⟨ms, hreply, hids⟩ := hlog.ids_of_snapshot
      exact ⟨j + 1, ms, hij.trans (Nat.lt_succ_self j), hj, hreply, hids⟩

/-! ## Runs -/

/-- What the events of a run tell.

* `converges`: one who has subscribed, has then asked for the members and was
  answered, has never lagged and has taken in all there was, has the ids of
  the members: it replays what it was given on what it was answered;
* `published`: the events are what the requests that were served have changed;
* `alternates`: of each id, someone is registered, that same peer is removed,
  and so on; who is registered last has the id while the registry serves;
* `size`: there are as many members as were registered and not removed;
* `counted`: whoever asks how many there are is told as many as were
  registered and not removed before.
-/
structure Observed (w₀ : World) (moves : List Move) : Prop where
  converges : ∀ {room start n seen i : Nat} {received : List Change} {tk : Ticket} {reply : Reply},
    Observes w₀ moves room start n seen (received.map .event) →
    (w₀.run moves).registry.watch room seen = [] →
    Sent w₀ moves i tk (.snapshot none) → start ≤ i →
    (w₀.run moves).registry.answer? tk = some (.ok reply) →
    (w₀.run moves).registry.service = .serving →
    ∃ ms, reply = .members ms
      ∧ replay (Member.ids ms) received = Member.ids (w₀.run moves).registry.membership.members
  published : (w₀.run moves).registry.events
    = (effects (w₀.run moves).registry.served).map Effect.change
  alternates : ∀ id, ∃ holder,
    Alternates ((effects (w₀.run moves).registry.served).filter (·.id = id)) holder
    ∧ ((w₀.run moves).registry.service = .serving →
        holder = (w₀.run moves).registry.membership.find? id)
  size : (w₀.run moves).registry.service = .serving →
    (w₀.run moves).registry.membership.size
      + (w₀.run moves).registry.events.countP Change.isDeparture
    = (w₀.run moves).registry.events.countP Change.isArrival
  counted : ∀ {front back : List Served} {tk : Ticket} {k : Nat},
    (w₀.run moves).registry.served = front ++ ⟨tk, .size, .count k⟩ :: back →
    k + ((effects front).map Effect.change).countP Change.isDeparture
      = ((effects front).map Effect.change).countP Change.isArrival

/-- Whatever is done, observers that do not lag converge. -/
theorem observers_converge (moves : List Move) : Observed {} moves where
  converges := by
    intro room start n seen i received tk reply hobserves hwatch hsent hstart hanswer hserving
    obtain ⟨j, ms, hij, hj, rfl, hids⟩ := hsent.snapshot hanswer
    obtain ⟨between, hbetween⟩ := World.events_isPrefix {} moves (hstart.trans hij.le)
    obtain ⟨later, hlater⟩ := World.events_isPrefix {} moves hj
    rw [World.after_length, hobserves.events_run hwatch, ← hbetween, List.append_assoc,
      List.append_cancel_left_eq] at hlater
    refine ⟨ms, rfl, ?_⟩
    calc replay (Member.ids ms) received
        = replay (replay (replay ∅ (World.after {} moves j).registry.events) between) later := by
          rw [hids, ← hlater, replay_append]
      _ = replay (replay ∅ (World.after {} moves j).registry.events) later := by
          rw [← hbetween, replay_again]
      _ = replay ∅ (World.run {} moves).registry.events := by
          rw [← replay_append, ← hbetween, List.append_assoc, hlater,
            hobserves.events_run hwatch]
      _ = Member.ids (World.run {} moves).registry.membership.members :=
          ((linear_run moves).ids_members hserving).symm
  published := by
    obtain ⟨d, hexecutes, -⟩ := (linear_run moves).executes
    exact hexecutes.told.published
  alternates := by
    intro id
    obtain ⟨d, hexecutes, hd⟩ := (linear_run moves).executes
    exact ⟨d id, hexecutes.told.alternates id, fun hserving => congrFun (hd hserving) id⟩
  size := (linear_run moves).size
  counted := by
    intro front back tk k hserved
    obtain ⟨d, hexecutes, -⟩ := (linear_run moves).executes
    rw [hserved, List.append_cons] at hexecutes
    obtain ⟨_, _, hfront⟩ := hexecutes.of_append
    exact hfront.count_of_size

/-- Peers come and go; the first to come leaves and comes back as another
peer, which then tries to register again. -/
def rejoining : List Move :=
  let a : Identity := ⟨⟨1⟩, ⟨"a"⟩, 0⟩
  let serve : Move := .serve fun _ => 0
  [.request (.register ⟨a, 0⟩), serve,
    .request (.register ⟨⟨⟨2⟩, ⟨"b"⟩, 0⟩, 1⟩), serve,
    .request (.snapshot none), serve,
    .request (.unregister ⟨1⟩ .writeFailed), serve,
    .request (.register ⟨a, 2⟩), serve,
    .request (.register ⟨a, 2⟩), serve]

/-- An observer of these that has subscribed after the first of them, has
looked when the second had come, has then asked, and looks at the end: the
second is in the snapshot, and among what is replayed. -/
theorem observers_converge_rejoining :
    ∃ ms, Reply.members [⟨⟨⟨1⟩, ⟨"a"⟩, 0⟩, 0⟩, ⟨⟨⟨2⟩, ⟨"b"⟩, 0⟩, 1⟩] = .members ms
      ∧ replay (Member.ids ms) [.registered ⟨⟨2⟩, ⟨"b"⟩, 0⟩,
          .removed ⟨⟨1⟩, ⟨"a"⟩, 0⟩ .writeFailed, .registered ⟨⟨1⟩, ⟨"a"⟩, 0⟩]
        = Member.ids (World.run {} rejoining).registry.membership.members := by
  have hsubscribes : Observes {} rejoining 256 2 2 1 [] := .subscribes (by decide)
  have hlooks : Observes {} rejoining 256 2 4 2 _ :=
    .looks hsubscribes (by decide) (by decide) (List.append_nil _).symm
  have hlooks' : Observes {} rejoining 256 2 12 4 _ :=
    .looks hlooks (by decide) (by decide) (List.append_nil _).symm
  have hsent : Sent {} rejoining 4 2 (.snapshot none) := ⟨⟨_, rfl, .outside rfl⟩, rfl, rfl⟩
  exact (observers_converge rejoining).converges hlooks' rfl hsent (by decide) rfl rfl

end LineRelay
