/-
# The samples of monitors

A monitor sleeps, asks the registry how many peers there are, publishes the
reply, and sleeps again.  Its sleep is over with one move of the run
(`Wakes`), and what becomes of that tick is one of three things (`Tick`):

| the tick | what the monitor does | what it has published |
| :-- | :-- | :-- |
| is under way | it asks, or waits for the reply | nothing |
| is published | it sleeps again | the reply, in the move `n` (`Takes`) |
| has ended | it has ended, as the registry has | nothing |

The reply was given with a move `k` between the two, so the sample is the
number of members that the registry had then: those registered, less those
removed.  The moves between are anyone's: members come and go, the clock
advances, the relay is shut down, the registry stops.

A monitor that is shut down while it sleeps ends at its next turn, whatever
the clock shows, since it looks at the shutdown first.  One that is shut down
while it takes a sample may still publish that one.

## What this is not

It is not said that a reply comes, or when.  It is said that a monitor does
not wait where nobody can go on.
-/
import LineRelay.Proofs.Registry.Replay
import LineRelay.Proofs.Relay.Callers
import LineRelay.Proofs.Relay.Standstill

namespace LineRelay

/-! ## The clock, the shutdown and the samples -/

/-- What a broadcast and a worker leave alone. -/
structure World.Abides (w w' : World) : Prop where
  now : w'.now = w.now
  shutdown : w'.shutdown = w.shutdown
  samples : w'.samples = w.samples
  tasks : w'.tasks = w.tasks

section

variable {w w' : World} {me : TaskKey}

theorem World.abides_onPeer (w : World) (k : PeerKey) (f : Peer → Peer) :
    w.Abides (w.onPeer k f) := by
  rw [onPeer]
  cases w.peer? k with
  | none => exact ⟨rfl, rfl, rfl, rfl⟩
  | some p => exact ⟨rfl, rfl, rfl, rfl⟩

theorem World.abides_closePeer (w : World) (k : PeerKey) : w.Abides (w.closePeer k).1 := by
  rw [closePeer_eq]
  exact w.abides_onPeer k _

theorem BroadcastStep.abides {b b' : Broadcast} (h : BroadcastStep w me b w' b') :
    w.Abides w' := by
  cases h with
  | @fails k _ _ p q f _ _ _ _ =>
      obtain ⟨hnow, hshutdown, hsamples, htasks⟩ :=
        World.abides_closePeer ((w.setPeer k q).noted [.sendFailed k q.info f]) k
      exact ⟨hnow, hshutdown, hsamples, htasks⟩
  | asks _ _ | skips _ _ | learns _ _ | misses _ _ | sends _ _ _ _ | settles _ _ _ _
  | prunes _ _ | pruned _ _ => exact ⟨rfl, rfl, rfl, rfl⟩

theorem WorkerStep.abides {wk wk' : Worker} {c : Connection} (h : WorkerStep w me wk c w' wk') :
    w.Abides w' := by
  cases h with
  | relays _ hstep => exact hstep.abides
  | @drops _ e _ _ =>
      obtain ⟨hnow, hshutdown, hsamples, htasks⟩ :=
        World.abides_closePeer (w.noted [.dropped c.peer.info e]) wk.peer
      exact ⟨hnow, hshutdown, hsamples, htasks⟩
  | leaves _ _ => exact w.abides_closePeer _
  | registers _ _ | starts _ _ | quits _ _ | reads _ _ _ _ | stops _ _ _ _ _ | pauses _ _ _ _
  | unregisters _ _ => exact ⟨rfl, rfl, rfl, rfl⟩

/-- Whether a task is a monitor that has got this reply. -/
def World.HasReply (w : World) (task : Task) (reply : Reply) : Prop :=
  ∃ mon tk, task = .monitor mon ∧ mon.stage = .sampling (.waiting tk)
    ∧ w.registry.answer? tk = some (.ok reply)

/-- A step leaves the clock and the shutdown alone; it publishes nothing, or
the reply that its task has got. -/
theorem TaskStep.clock {task task' : Task} (h : TaskStep w me task w' task') :
    w'.now = w.now ∧ w'.shutdown = w.shutdown
      ∧ (w'.samples = w.samples ∨ ∃ reply, w.HasReply task reply
        ∧ w'.samples = w.samples ++ [⟨w.now, World.countOf reply⟩]) := by
  cases h with
  | send _ _ | awaited _ _ => exact ⟨rfl, rfl, .inl rfl⟩
  | broadcast hstep => exact ⟨hstep.abides.now, hstep.abides.shutdown, .inl hstep.abides.samples⟩
  | worker _ hstep => exact ⟨hstep.abides.now, hstep.abides.shutdown, .inl hstep.abides.samples⟩
  | monitor hstep =>
      cases hstep with
      | samples hstage hanswer => exact ⟨rfl, rfl, .inr ⟨_, ⟨_, _, rfl, hstage, hanswer⟩, rfl⟩⟩
      | stops _ _ | wakes _ _ _ | asks _ _ | ends _ _ => exact ⟨rfl, rfl, .inl rfl⟩
  | server hstep =>
      cases hstep with
      | starts _ | ends _ _ | misses _ _ _ | accepts _ _ _ | joins _ _ =>
          exact ⟨rfl, rfl, .inl rfl⟩

/-- The monitor that a step starts begins now. -/
theorem TaskStep.starts_monitor {task task' : Task} {t : TaskKey} {mon : Monitor}
    (h : TaskStep w me task w' task') (hnone : w.tasks[t]? = none)
    (ht : w'.tasks[t]? = some (.monitor mon)) : mon = w.newMonitor mon.interval := by
  have hnew : ∀ {new : Task}, (w.tasks ++ [new])[t]? = some (.monitor mon) →
      new = .monitor mon := by
    intro new hnew
    rw [List.getElem?_append_right (List.getElem?_eq_none_iff.1 hnone)] at hnew
    exact (List.mem_singleton.1 (List.mem_of_getElem? hnew)).symm
  have hsame : w'.tasks = w.tasks → mon = w.newMonitor mon.interval := fun htasks => by
    rw [htasks, hnone] at ht
    cases ht
  cases h with
  | send _ _ | awaited _ _ => exact hsame rfl
  | broadcast hstep => exact hsame hstep.abides.tasks
  | worker _ hstep => exact hsame hstep.abides.tasks
  | monitor hstep => cases hstep <;> exact hsame rfl
  | server hstep =>
      cases hstep with
      | starts _ =>
          cases hnew ht
          rfl
      | accepts _ _ _ => cases hnew ht
      | ends _ _ | misses _ _ _ | joins _ _ => exact hsame rfl

end

namespace World

variable {w w' : World} {m : Move} {t : TaskKey} {mon : Monitor}

/-- What no move takes back: the time, and the shutdown. -/
structure Earlier (w w' : World) : Prop where
  now : w.now ≤ w'.now
  shutdown : w.shutdown = true → w'.shutdown = true

theorem Earlier.refl (w : World) : w.Earlier w := ⟨le_rfl, id⟩

theorem Earlier.trans {w'' : World} (h : w.Earlier w') (h' : w'.Earlier w'') : w.Earlier w'' :=
  ⟨h.now.trans h'.now, h'.shutdown ∘ h.shutdown⟩

/-- Only a turn publishes a sample. -/
theorem clock_of_ne_turn (w : World) (hm : ∀ t, m ≠ .turn t) :
    w.Earlier (w.move m) ∧ (w.move m).samples = w.samples := by
  have hsame : ∀ {w' : World}, w'.now = w.now ∧ w'.shutdown = w.shutdown ∧ w'.samples = w.samples →
      w.Earlier w' ∧ w'.samples = w.samples := by
    rintro w' ⟨hnow, hshutdown, hsamples⟩
    exact ⟨⟨hnow.ge, by rw [hshutdown]; exact id⟩, hsamples⟩
  have hpeer : ∀ {w' : World}, w.Abides w' → w.Earlier w' ∧ w'.samples = w.samples :=
    fun h => hsame ⟨h.now, h.shutdown, h.samples⟩
  cases m with
  | turn t => exact absurd rfl (hm t)
  | serve rank =>
      show w.Earlier ((w.serve rank).getD w) ∧ ((w.serve rank).getD w).samples = w.samples
      rw [serve]
      cases w.registry.serve rank with
      | none => exact hsame ⟨rfl, rfl, rfl⟩
      | some x =>
          obtain ⟨r, event⟩ := x
          cases event with
          | none => exact hsame ⟨rfl, rfl, rfl⟩
          | some e => cases e <;> exact hsame ⟨rfl, rfl, rfl⟩
  | supply k d =>
      show w.Earlier (w.supply k d) ∧ (w.supply k d).samples = w.samples
      rw [supply]
      cases w.connections[k]? with
      | none | some c => exact hsame ⟨rfl, rfl, rfl⟩
  | wake k | answer k _ | fire k => exact hpeer (w.abides_onPeer k _)
  | close k => exact hpeer (w.abides_closePeer k)
  | arrive server a =>
      show w.Earlier (w.arrive server a) ∧ (w.arrive server a).samples = w.samples
      rw [arrive]
      split
      · exact hsame ⟨rfl, rfl, rfl⟩
      · exact hsame ⟨rfl, rfl, rfl⟩
  | shutdown => exact ⟨⟨le_rfl, fun _ => rfl⟩, rfl⟩
  | elapse ms => exact ⟨⟨Nat.le_add_right _ _, id⟩, rfl⟩
  | request c =>
      show w.Earlier (w.request c) ∧ (w.request c).samples = w.samples
      rw [request]
      split_ifs
      · exact hsame ⟨rfl, rfl, rfl⟩
      · exact hsame ⟨rfl, rfl, rfl⟩
  | stopRegistry | connect _ | spawn _ => exact hsame ⟨rfl, rfl, rfl⟩

/-- A turn publishes nothing, or the reply that its task has got. -/
theorem clock_turn (w : World) (t : TaskKey) :
    w.Earlier (w.move (.turn t))
      ∧ ((w.move (.turn t)).samples = w.samples
        ∨ ∃ task reply, w.tasks[t]? = some task ∧ w.HasReply task reply
          ∧ (w.move (.turn t)).samples = w.samples ++ [⟨w.now, countOf reply⟩]) := by
  cases hturn : w.turn t with
  | none =>
      rw [move_turn_of_none hturn]
      exact ⟨.refl w, .inl rfl⟩
  | some w' =>
      rw [move_turn_of_some hturn]
      obtain ⟨task, w₁, task', htask, hstep, rfl⟩ := taskStep_of_turn hturn
      obtain ⟨hnow, hshutdown, hsamples⟩ := hstep.clock
      refine ⟨⟨hnow.ge, fun h => hshutdown.trans h⟩, hsamples.imp_right ?_⟩
      rintro ⟨reply, hreply, hsamples⟩
      exact ⟨task, reply, htask, hreply, hsamples⟩

theorem earlier_move (w : World) (m : Move) : w.Earlier (w.move m) := by
  by_cases hm : ∃ t, m = .turn t
  · obtain ⟨t, rfl⟩ := hm
    exact (w.clock_turn t).1
  · exact (w.clock_of_ne_turn fun t h => hm ⟨t, h⟩).1

theorem earlier_after (w : World) (moves : List Move) {i j : Nat} (h : i ≤ j) :
    (w.after moves i).Earlier (w.after moves j) :=
  after_extends Earlier.refl Earlier.trans (fun hm => by
    rw [after_succ w hm]
    exact earlier_move _ _) h

/-- The monitor that a turn starts begins now. -/
theorem turn_starts_monitor {me : TaskKey} (hnone : w.tasks[t]? = none)
    (ht : (w.move (.turn me)).tasks[t]? = some (.monitor mon)) :
    mon = w.newMonitor mon.interval := by
  cases hturn : w.turn me with
  | none =>
      rw [move_turn_of_none hturn, hnone] at ht
      cases ht
  | some w' =>
      obtain ⟨task, w₁, task', htask, hstep, rfl⟩ := taskStep_of_turn hturn
      have hne : t ≠ me := by
        rintro rfl
        cases hnone.symm.trans htask
      rw [move_turn_of_some hturn, tasks_setTask, if_neg hne] at ht
      exact hstep.starts_monitor hnone ht

end World

/-! ## One monitor -/

/-- What a move does to the monitor `mon` with the key `t`. -/
inductive MonitorChange (w : World) (m : Move) (w' : World) (t : TaskKey) (mon : Monitor) : Prop
  | stays : (m = .turn t → w' = w) → w'.tasks[t]? = some (.monitor mon) →
      MonitorChange w m w' t mon
  | turns {w₁ : World} {mon' : Monitor} : m = .turn t → MonitorStep w mon w₁ mon' →
      w' = w₁.setTask t (.monitor mon') → w'.tasks[t]? = some (.monitor mon') →
      MonitorChange w m w' t mon

theorem MoveStep.monitor {w w' : World} {m : Move} {t : TaskKey} {mon : Monitor}
    (h : MoveStep w m w') (ht : w.tasks[t]? = some (.monitor mon)) :
    MonitorChange w m w' t mon := by
  cases h.becomes ht with
  | stays hidle ht' => exact .stays hidle ht'
  | turns hm hstep hw' ht' =>
      cases hstep with
      | monitor hstep => exact .turns hm hstep hw' ht'

namespace World

/-- Whether the task `t` is a monitor that takes a sample. -/
def IsSampling (w : World) (t : TaskKey) : Prop :=
  ∃ mon call, w.tasks[t]? = some (.monitor mon) ∧ mon.stage = .sampling call

/-- Whether the monitor `t`, with this interval, publishes nothing before the
clock shows `d`. -/
structure Withholds (w : World) (t : TaskKey) (interval d : Nat) : Prop where
  monitor : ∃ mon, w.tasks[t]? = some (.monitor mon) ∧ mon.interval = interval
  sleeping : ∀ {mon due}, w.tasks[t]? = some (.monitor mon) → mon.stage = .sleeping due → d ≤ due
  sampling : w.IsSampling t → d ≤ w.now

variable {w w' : World} {m : Move} {t : TaskKey} {mon : Monitor} {interval d : Nat}

theorem withholds_of_sleeping {due : Nat} (ht : w.tasks[t]? = some (.monitor mon))
    (hinterval : mon.interval = interval) (hstage : mon.stage = .sleeping due) (hd : d ≤ due) :
    w.Withholds t interval d where
  monitor := ⟨mon, ht, hinterval⟩
  sleeping := by
    intro mon' due' ht' hstage'
    cases ht'.symm.trans ht
    cases hstage'.symm.trans hstage
    exact hd
  sampling := by
    rintro ⟨mon', call, ht', hstage'⟩
    cases ht'.symm.trans ht
    cases hstage'.symm.trans hstage

theorem withholds_of_awake (ht : w.tasks[t]? = some (.monitor mon))
    (hinterval : mon.interval = interval) (hstage : ∀ due, mon.stage ≠ .sleeping due)
    (hd : w.IsSampling t → d ≤ w.now) : w.Withholds t interval d where
  monitor := ⟨mon, ht, hinterval⟩
  sleeping := by
    intro mon' due' ht' hstage'
    cases ht'.symm.trans ht
    exact absurd hstage' (hstage due')
  sampling := hd

/-- A monitor goes on withholding, since it sleeps as long as it should. -/
theorem Withholds.step (h : w.Withholds t interval d) (hstep : MoveStep w m w')
    (hnow : w.now ≤ w'.now) : w'.Withholds t interval d := by
  obtain ⟨mon, ht, hinterval⟩ := h.monitor
  have hlate : w.IsSampling t → d ≤ w'.now := fun hs => (h.sampling hs).trans hnow
  cases hstep.monitor ht with
  | stays _ ht' =>
      refine ⟨⟨mon, ht', hinterval⟩, fun ht₁ => ?_, fun hs => ?_⟩
      · cases ht₁.symm.trans ht'
        exact h.sleeping ht
      · obtain ⟨mon₁, call, ht₁, hstage⟩ := hs
        cases ht₁.symm.trans ht'
        exact hlate ⟨mon, call, ht, hstage⟩
  | turns _ hmonitor hw' ht' =>
      cases hmonitor with
      | stops _ _ | ends _ _ =>
          refine withholds_of_awake ht' hinterval (fun _ => MonitorStage.noConfusion) ?_
          rintro ⟨mon₁, call, ht₁, hstage⟩
          cases ht₁.symm.trans ht'
          cases hstage
      | wakes hstage _ hdue =>
          exact withholds_of_awake ht' hinterval (fun _ => MonitorStage.noConfusion) fun _ =>
            ((h.sleeping ht hstage).trans hdue).trans hnow
      | asks hstage _ =>
          exact withholds_of_awake ht' hinterval (fun _ => MonitorStage.noConfusion) fun _ =>
            hlate ⟨mon, _, ht, hstage⟩
      | samples hstage _ =>
          exact withholds_of_sleeping ht' hinterval rfl
            ((h.sampling ⟨mon, _, ht, hstage⟩).trans (Nat.le_add_right _ _))

end World

/-! ## The replies to requests -/

section

variable {moves : List Move} {i j n : Nat} {tk : Ticket} {c : Command} {reply : Reply}
  {e : RequestError}

/-- A registry that has stopped has stopped for good. -/
theorem World.stopped_le (w₀ : World) (moves : List Move) (h : i ≤ j)
    (hstopped : (w₀.after moves i).registry.service = .stopped) :
    (w₀.after moves j).registry.service = .stopped :=
  registry_extends (R := fun r r' => r.service = .stopped → r'.service = .stopped)
    (fun _ => id) (fun h h' => h' ∘ h) (fun hstep h => (Registry.stopped_step hstep h).1)
    w₀ moves h hstopped

/-- The reply that a move gives is what the registry says then. -/
theorem World.reply_of_served {w : World} {m : Move}
    (hserved : (w.move m).registry.served = w.registry.served ++ [⟨tk, c, reply⟩]) :
    ∃ rank, m = .serve rank ∧ w.registry.service = .serving
      ∧ reply = (w.registry.membership.apply rank c).2.1 := by
  cases w.registryChange_move m with
  | keeps hreg | takes _ _ hreg | stops hreg =>
      rw [hreg] at hserved
      have hlength := congrArg List.length hserved
      simp [Registry.request, Registry.stop] at hlength
  | @serves rank change hm hserve =>
      obtain ⟨tk', c', queue, -, ⟨hserving, -, hreg⟩ | ⟨-, -, hreg⟩⟩ := Registry.serve_cases hserve
      · rw [hreg] at hserved
        have hlast := List.append_cancel_left hserved
        cases hlast
        exact ⟨rank, hm, hserving, rfl⟩
      · rw [hreg] at hserved
        have hlength := congrArg List.length hserved
        simp at hlength

/-- A reply was given with a move after the request and before now. -/
theorem Sent.replied (h : Sent {} moves j tk c) (hj : j < n) (hn : n ≤ moves.length)
    (hanswer : (World.after {} moves n).registry.answer? tk = some (.ok reply)) :
    ∃ k rank, j < k ∧ k < n ∧ moves[k]? = some (.serve rank)
      ∧ (World.after {} moves k).registry.service = .serving
      ∧ reply = ((World.after {} moves k).registry.membership.apply rank c).2.1 := by
  cases fate_run moves h with
  | waits _ hnone => cases (hnone n hj hn).symm.trans hanswer
  | @lost k hjk hk hnone _ _ herror =>
      rcases Nat.lt_or_ge k n with hkn | hnk
      · cases (herror n hkn hn).symm.trans hanswer
      · cases (hnone n hj hnk).symm.trans hanswer
  | @served k rank reply' hjk hk hnone hserved _ hok =>
      rcases Nat.lt_or_ge k n with hkn | hnk
      · cases (hok n hkn hn).symm.trans hanswer
        rw [World.after_succ _ hk] at hserved
        obtain ⟨rank', hm, hserving, hreply⟩ := World.reply_of_served hserved
        cases hm
        exact ⟨k, rank, hjk, hkn, hk, hserving, hreply⟩
      · cases (hnone n hj hnk).symm.trans hanswer

/-- A request that is answered with the error was lost with the registry. -/
theorem Sent.stopped (h : Sent {} moves j tk c) (hj : j < n) (hn : n ≤ moves.length)
    (hanswer : (World.after {} moves n).registry.answer? tk = some (.error e)) :
    (World.after {} moves n).registry.service = .stopped := by
  cases fate_run moves h with
  | waits _ hnone => cases (hnone n hj hn).symm.trans hanswer
  | @served k rank reply' hjk hk hnone hserved _ hok =>
      rcases Nat.lt_or_ge k n with hkn | hnk
      · cases (hok n hkn hn).symm.trans hanswer
      · cases (hnone n hj hnk).symm.trans hanswer
  | @lost k hjk hk hnone hstopped _ _ =>
      rcases Nat.lt_or_ge k n with hkn | hnk
      · exact World.stopped_le {} moves hkn hstopped
      · cases (hnone n hj hnk).symm.trans hanswer

end

/-! ## Ticks -/

section

variable (w₀ : World) (moves : List Move) (t : TaskKey)

/-- The monitor `t`, with this interval, begins with the move `s`. -/
structure Starts (s interval : Nat) : Prop where
  absent : (w₀.after moves s).tasks[t]? = none
  begins : (w₀.after moves (s + 1)).tasks[t]?
    = some (.monitor ((w₀.after moves s).newMonitor interval))

/-- The sleep of the monitor `t` is over with the move `i`. -/
structure Wakes (i : Nat) : Prop where
  turn : moves[i]? = some (.turn t)
  due : ∃ mon due, (w₀.after moves i).tasks[t]? = some (.monitor mon)
    ∧ mon.stage = .sleeping due ∧ due ≤ (w₀.after moves i).now
  shutdown : (w₀.after moves i).shutdown = false
  sampling : (w₀.after moves (i + 1)).IsSampling t

/-- Behind the move `i`, and until `n` moves were made, the monitor `t` takes
a sample. -/
def Busy (i n : Nat) : Prop := ∀ l, i < l → l ≤ n → (w₀.after moves l).IsSampling t

/-- The monitor `t` publishes the sample `x` with the move `n`. -/
structure Publishes (n : Nat) (x : Sample) : Prop where
  turn : moves[n]? = some (.turn t)
  samples : (w₀.after moves (n + 1)).samples = (w₀.after moves n).samples ++ [x]

/-- The tick that began with the move `i` leads to the sample `x`, which the
registry replied with the move `k`, and the monitor publishes with the move
`n`. -/
structure Takes (i k n : Nat) (x : Sample) : Prop where
  publishes : Publishes w₀ moves t n x
  after : i < k
  before : k < n
  busy : Busy w₀ moves t i n
  serves : ∃ rank, moves[k]? = some (.serve rank)
  serving : (w₀.after moves k).registry.service = .serving
  online : x.online = (w₀.after moves k).registry.membership.size
  balance : x.online + (w₀.after moves k).registry.events.countP Change.isDeparture
    = (w₀.after moves k).registry.events.countP Change.isArrival
  time : x.time = (w₀.after moves n).now

/-- What has come of the tick that began with the move `i`. -/
inductive Tick (i : Nat) : Prop
  | underway : Busy w₀ moves t i moves.length → Tick i
  | published {k n : Nat} {x : Sample} : Takes w₀ moves t i k n x → Tick i
  | ended {n : Nat} {mon : Monitor} : i < n → n < moves.length → Busy w₀ moves t i n →
      (w₀.after moves n).registry.service = .stopped →
      (w₀.after moves (n + 1)).samples = (w₀.after moves n).samples →
      (w₀.after moves (n + 1)).tasks[t]? = some (.monitor mon) → mon.stage = .finished → Tick i

end

section

variable {w₀ : World} {moves : List Move} {t : TaskKey} {i i' j n n' s : Nat} {x x' : Sample}
  {mon : Monitor} {call : Call} {interval d : Nat}

theorem Busy.succ (h : Busy w₀ moves t i n) (hs : (w₀.after moves (n + 1)).IsSampling t) :
    Busy w₀ moves t i (n + 1) := by
  intro l hil hln
  rcases Nat.le_or_eq_of_le_succ hln with hln | rfl
  · exact h l hil hln
  · exact hs

/-- A monitor whose sleep is over had not been taking a sample. -/
theorem Wakes.not_sampling (h : Wakes w₀ moves t i) : ¬ (w₀.after moves i).IsSampling t := by
  rintro ⟨mon, call, ht, hstage⟩
  obtain ⟨mon', due, ht', hstage', -⟩ := h.due
  cases ht.symm.trans ht'
  cases hstage.symm.trans hstage'

/-- Whoever takes a sample began to with one move. -/
theorem Wakes.unique (h : Wakes w₀ moves t i) (h' : Wakes w₀ moves t i') (hi : i < n)
    (hi' : i' < n) (hbusy : Busy w₀ moves t i n) (hbusy' : Busy w₀ moves t i' n) : i = i' := by
  rcases Nat.lt_trichotomy i i' with hlt | rfl | hlt
  · exact absurd (hbusy i' hlt hi'.le) h'.not_sampling
  · rfl
  · exact absurd (hbusy' i hlt hi.le) h.not_sampling

/-- A monitor that takes a sample has woken, and waits for the number of the
members or is about to ask for it. -/
theorem sampling_run (hmoves : World.Permitted {} moves) (hn : n ≤ moves.length)
    (ht : (World.after {} moves n).tasks[t]? = some (.monitor mon))
    (hstage : mon.stage = .sampling call) :
    ∃ i, Wakes {} moves t i ∧ i < n ∧ Busy {} moves t i n
      ∧ (call = .entering .size ∨ ∃ tk j, call = .waiting tk ∧ i < j ∧ j < n
        ∧ Sent {} moves j tk .size) := by
  induction n generalizing mon call with
  | zero => cases ht
  | succ n ih =>
      have hm : moves[n]? = some moves[n] := List.getElem?_eq_getElem hn
      have hn' : n ≤ moves.length := n.le_succ.trans hn
      have hstep := hmoves.moveStep hm
      have hsampling : (World.after {} moves (n + 1)).IsSampling t := ⟨mon, call, ht, hstage⟩
      cases hstep.was ht with
      | stays _ ht₀ =>
          obtain ⟨i, hwakes, hin, hbusy, hcall⟩ := ih hn' ht₀ hstage
          refine ⟨i, hwakes, hin.trans n.lt_succ_self, hbusy.succ hsampling, hcall.imp_right ?_⟩
          rintro ⟨tk, j, hcall, hij, hjn, hsent⟩
          exact ⟨tk, j, hcall, hij, hjn.trans n.lt_succ_self, hsent⟩
      | begins _ hbegins _ =>
          obtain ⟨interval, stage⟩ := mon
          cases hstage
          exact hbegins.elim
      | turns hturn htask hstep hw' =>
          cases hstep with
          | monitor hmonitor =>
              rw [hturn] at hm
              cases hmonitor with
              | stops _ _ | ends _ _ | samples _ _ => cases hstage
              | wakes hbefore hshutdown hdue =>
                  cases hstage
                  refine ⟨n, ⟨hm, ⟨_, _, htask, hbefore, hdue⟩, hshutdown, hsampling⟩,
                    n.lt_succ_self, ?_, .inl rfl⟩
                  intro l hnl hln
                  obtain rfl : l = n + 1 := Nat.le_antisymm hln hnl
                  exact hsampling
              | @asks cmd hbefore hadmits =>
                  cases hstage
                  obtain ⟨i, hwakes, hin, hbusy, hcall⟩ := ih hn' htask hbefore
                  obtain rfl : cmd = .size := by
                    rcases hcall with hcall | ⟨_, _, hcall, -⟩
                    · exact Call.entering.inj hcall
                    · cases hcall
                  refine ⟨i, hwakes, hin.trans n.lt_succ_self, hbusy.succ hsampling,
                    .inr ⟨_, n, rfl, hin, n.lt_succ_self, ?_, rfl, ?_⟩⟩
                  · refine ⟨_, hm, .task (u := .count) rfl ?_ ?_⟩
                    · simp [World.call?, htask, Task.call?, hbefore]
                    · simp [World.call?, ht, Task.call?]
                  · rw [hw']
                    rfl

/-- What is published is what the registry replied in between. -/
theorem Publishes.takes (h : Publishes {} moves t n x) (hmoves : World.Permitted {} moves) :
    ∃ i k, Wakes {} moves t i ∧ Takes {} moves t i k n x := by
  have hn : n < moves.length := (List.getElem?_eq_some_iff.1 h.turn).1
  have hsamples := h.samples
  rw [World.after_succ _ h.turn] at hsamples
  rcases ((World.after {} moves n).clock_turn t).2 with hsame | ⟨task, reply, ht, hreply, htaken⟩
  · rw [hsame] at hsamples
    have hlength := congrArg List.length hsamples
    simp at hlength
  · obtain ⟨mon, tk, rfl, hstage, hanswer⟩ := hreply
    obtain ⟨i, hwakes, hin, hbusy, hcall⟩ := sampling_run hmoves hn.le ht hstage
    rcases hcall with hcall | ⟨tk', j, hcall, hij, hjn, hsent⟩
    · cases hcall
    · cases hcall
      obtain ⟨k, rank, hjk, hkn, hk, hserving, rfl⟩ := hsent.replied hjn hn.le hanswer
      obtain rfl : x = ⟨_, _⟩ :=
        List.singleton_inj.1 (List.append_cancel_left (hsamples.symm.trans htaken))
      exact ⟨i, k, hwakes, h, hij.trans hjk, hkn, hbusy, ⟨rank, hk⟩, hserving, rfl,
        (linear_run (moves.take k)).size hserving, rfl⟩

/-- A monitor that has been taking a sample goes on, publishes it, or ends with
the registry. -/
theorem Busy.tick (h : Busy {} moves t i n) (hwakes : Wakes {} moves t i) (hin : i < n)
    (hn : n < moves.length) (hmoves : World.Permitted {} moves) :
    Busy {} moves t i (n + 1) ∨ Tick {} moves t i := by
  obtain ⟨mon, call, ht, hstage⟩ := h n hin le_rfl
  have hm : moves[n]? = some moves[n] := List.getElem?_eq_getElem hn
  cases (hmoves.moveStep hm).monitor ht with
  | stays _ ht' => exact .inl (h.succ ⟨mon, call, ht', hstage⟩)
  | turns hturn hmonitor hw' ht' =>
      rw [hturn] at hm
      cases hmonitor with
      | stops hbefore _ | wakes hbefore _ _ => cases hbefore.symm.trans hstage
      | asks _ _ => exact .inl (h.succ ⟨_, _, ht', rfl⟩)
      | samples hbefore hanswer =>
          have hpublishes : Publishes {} moves t n
              ⟨(World.after {} moves n).now, World.countOf _⟩ := ⟨hm, by rw [hw']; rfl⟩
          obtain ⟨i', k, hwakes', htakes⟩ := hpublishes.takes hmoves
          obtain rfl := hwakes.unique hwakes' hin (htakes.after.trans htakes.before) h htakes.busy
          exact .inr (.published htakes)
      | ends hbefore hanswer =>
          obtain ⟨i', -, -, -, hcall⟩ := sampling_run hmoves hn.le ht hbefore
          rcases hcall with hcall | ⟨tk, j, hcall, -, hjn, hsent⟩
          · cases hcall
          · cases hcall
            have hstopped := hsent.stopped hjn hn.le hanswer
            exact .inr (.ended hin hn h hstopped (by rw [hw']; rfl) ht' rfl)

/-- A tick is under way, or has been published, or has ended with the registry. -/
theorem Wakes.tick (h : Wakes {} moves t i) (hmoves : World.Permitted {} moves) :
    Tick {} moves t i := by
  have hi : i < moves.length := (List.getElem?_eq_some_iff.1 h.turn).1
  have hbusy : ∀ n, i < n → n ≤ moves.length → Busy {} moves t i n ∨ Tick {} moves t i := by
    intro n hin hn
    induction n, hin using Nat.le_induction with
    | base =>
        refine .inl fun l hil hli => ?_
        obtain rfl : l = i + 1 := Nat.le_antisymm hli hil
        exact h.sampling
    | succ n hin ih =>
        rcases ih (n.le_succ.trans hn) with hbusy | htick
        · exact hbusy.tick h hin hn hmoves
        · exact .inr htick
  rcases hbusy moves.length hi le_rfl with hbusy | htick
  · exact .underway hbusy
  · exact htick

/-! ## Times -/

theorem World.Withholds.after (h : (World.after {} moves i).Withholds t interval d) (hij : i ≤ j)
    (hmoves : World.Permitted {} moves) : (World.after {} moves j).Withholds t interval d :=
  World.after_extends (R := fun w w' => w.Withholds t interval d → w'.Withholds t interval d)
    (fun _ => id) (fun h h' => h' ∘ h) (fun hm h => by
      refine h.step (hmoves.moveStep hm) ?_
      rw [World.after_succ _ hm]
      exact (World.earlier_move _ _).now) hij h

/-- A monitor is there for good, and its interval stays. -/
theorem monitor_after (hmoves : World.Permitted {} moves) (hij : i ≤ j)
    (ht : (World.after {} moves i).tasks[t]? = some (.monitor mon)) :
    ∃ mon', (World.after {} moves j).tasks[t]? = some (.monitor mon')
      ∧ mon'.interval = mon.interval := by
  have hnow : (World.after {} moves i).Withholds t mon.interval 0 :=
    ⟨⟨mon, ht, rfl⟩, fun _ _ => Nat.zero_le _, fun _ => Nat.zero_le _⟩
  exact (hnow.after hij hmoves).monitor

/-- What is withheld until `d` is not published earlier. -/
theorem Publishes.le_time (h : Publishes {} moves t n x) (hmoves : World.Permitted {} moves)
    (hd : (World.after {} moves i).Withholds t interval d) (hin : i ≤ n) : d ≤ x.time := by
  obtain ⟨_, _, _, htakes⟩ := h.takes hmoves
  rw [htakes.time]
  exact (hd.after hin hmoves).sampling
    (htakes.busy n (htakes.after.trans htakes.before) le_rfl)

/-- After a sample a monitor sleeps for an interval. -/
theorem Publishes.sleeps (h : Publishes {} moves t n x) (hmoves : World.Permitted {} moves)
    (ht : (World.after {} moves n).tasks[t]? = some (.monitor mon)) :
    ∃ mon', (World.after {} moves (n + 1)).tasks[t]? = some (.monitor mon')
      ∧ mon'.interval = mon.interval ∧ mon'.stage = .sleeping (x.time + mon.interval) := by
  obtain ⟨_, _, _, htakes⟩ := h.takes hmoves
  have hlength := congrArg List.length h.samples
  rw [List.length_append, List.length_singleton] at hlength
  cases (hmoves.moveStep h.turn).monitor ht with
  | stays hidle _ =>
      rw [hidle rfl] at hlength
      exact absurd hlength (Nat.succ_ne_self _).symm
  | turns _ hmonitor hw' ht' =>
      rw [hw'] at hlength
      cases hmonitor with
      | samples _ _ => exact ⟨_, ht', rfl, by rw [htakes.time]⟩
      | stops _ _ | wakes _ _ _ | asks _ _ | ends _ _ =>
          exact absurd hlength (Nat.succ_ne_self _).symm

theorem Starts.le_time (h : Starts {} moves t s interval) (hmoves : World.Permitted {} moves)
    (hx : Publishes {} moves t n x) : (World.after {} moves s).now + interval ≤ x.time := by
  have hbegins : (World.after {} moves (s + 1)).Withholds t interval _ :=
    World.withholds_of_sleeping h.begins rfl rfl le_rfl
  refine hx.le_time hmoves hbegins ?_
  by_contra hns
  -- who publishes is there, and who begins later is not
  obtain ⟨_, _, _, htakes⟩ := hx.takes hmoves
  obtain ⟨mon, _, ht, -⟩ := htakes.busy n (htakes.after.trans htakes.before) le_rfl
  obtain ⟨mon', ht', -⟩ := monitor_after hmoves (Nat.le_of_lt_succ (Nat.lt_of_not_le hns)) ht
  cases h.absent.symm.trans ht'

/-! ## The shutdown -/

/-- No sleep is over after the shutdown. -/
theorem Wakes.lt_shutdown (h : Wakes w₀ moves t i) (hs : (w₀.after moves s).shutdown = true) :
    i < s := by
  by_contra hsi
  cases h.shutdown.symm.trans ((w₀.earlier_after moves (Nat.le_of_not_lt hsi)).shutdown hs)

/-- Who takes a sample after the shutdown took it before. -/
theorem sampling_shutdown (hmoves : World.Permitted {} moves)
    (hs : (World.after {} moves s).shutdown = true) (hsn : s ≤ n) (hn : n ≤ moves.length)
    (hsampling : (World.after {} moves n).IsSampling t) :
    (World.after {} moves s).IsSampling t := by
  obtain ⟨mon, call, ht, hstage⟩ := hsampling
  obtain ⟨i, hwakes, -, hbusy, -⟩ := sampling_run hmoves hn ht hstage
  exact hbusy s (hwakes.lt_shutdown hs) hsn

/-- After the shutdown no more than one sample is published. -/
theorem Publishes.last (h : Publishes {} moves t n x) (h' : Publishes {} moves t n' x')
    (hmoves : World.Permitted {} moves) (hs : (World.after {} moves s).shutdown = true)
    (hsn : s ≤ n) : n' ≤ n := by
  obtain ⟨i', k', hwakes', htakes'⟩ := h'.takes hmoves
  obtain ⟨i, k, -, htakes⟩ := h.takes hmoves
  obtain ⟨mon, _, ht, -⟩ := htakes.busy n (htakes.after.trans htakes.before) le_rfl
  obtain ⟨mon₁, ht₁, -, hasleep⟩ := h.sleeps hmoves ht
  by_contra hlt
  -- the tick of a later sample began before the shutdown, so it is under way now
  have hin : i' < n := (hwakes'.lt_shutdown hs).trans_le hsn
  obtain ⟨mon₂, call, ht₂, hstage⟩ :=
    htakes'.busy (n + 1) (hin.trans n.lt_succ_self) (Nat.lt_of_not_le hlt)
  cases ht₂.symm.trans ht₁
  cases hstage.symm.trans hasleep

end

/-! ## Runs -/

/-- What the monitors of a run publish.

* `sole`: samples are published by monitors only;
* `published`: a sample is the number of the members at a moment between the
  end of a sleep and the publication;
* `ticks`: what has come of each tick;
* `hired`: the monitor that a server starts begins there and then;
* `keeps`: a monitor keeps its interval;
* `first`: the first sample comes an interval after the beginning, or later;
* `spaced`: the next sample comes an interval after the one before it, or
  later;
* `stops`: after the shutdown no sleep ends in a sample, also not one that is
  over at that time: the monitor ends;
* `shutdown`: who takes a sample after the shutdown took it already when it
  came, and publishes this one at most;
* `gone`: what is published after the registry has stopped was replied before;
* `rests`: where nobody can go on, a monitor has ended, or it sleeps and is
  neither due nor shut down.
-/
structure Monitored (w₀ : World) (moves : List Move) : Prop where
  sole : ∀ {n : Nat} {m : Move}, moves[n]? = some m →
    (w₀.after moves (n + 1)).samples = (w₀.after moves n).samples
      ∨ ∃ t x, m = .turn t ∧ Publishes w₀ moves t n x
  published : ∀ {t : TaskKey} {n : Nat} {x : Sample}, Publishes w₀ moves t n x →
    ∃ i k, Wakes w₀ moves t i ∧ Takes w₀ moves t i k n x
  ticks : ∀ {t : TaskKey} {i : Nat}, Wakes w₀ moves t i → Tick w₀ moves t i
  hired : ∀ {t me : TaskKey} {s : Nat} {mon : Monitor}, moves[s]? = some (.turn me) →
    (w₀.after moves s).tasks[t]? = none →
    (w₀.after moves (s + 1)).tasks[t]? = some (.monitor mon) → Starts w₀ moves t s mon.interval
  keeps : ∀ {t : TaskKey} {n n' : Nat} {mon : Monitor}, n ≤ n' →
    (w₀.after moves n).tasks[t]? = some (.monitor mon) →
    ∃ mon', (w₀.after moves n').tasks[t]? = some (.monitor mon')
      ∧ mon'.interval = mon.interval
  first : ∀ {t : TaskKey} {s n interval : Nat} {x : Sample}, Starts w₀ moves t s interval →
    Publishes w₀ moves t n x → (w₀.after moves s).now + interval ≤ x.time
  spaced : ∀ {t : TaskKey} {n n' : Nat} {x x' : Sample} {mon : Monitor}, n < n' →
    Publishes w₀ moves t n x → Publishes w₀ moves t n' x' →
    (w₀.after moves n).tasks[t]? = some (.monitor mon) → x.time + mon.interval ≤ x'.time
  stops : ∀ {t : TaskKey} {n due : Nat} {mon : Monitor}, (w₀.after moves n).shutdown = true →
    (w₀.after moves n).tasks[t]? = some (.monitor mon) → mon.stage = .sleeping due →
    moves[n]? = some (.turn t) →
    (w₀.after moves (n + 1)).samples = (w₀.after moves n).samples
      ∧ (w₀.after moves (n + 1)).tasks[t]? = some (.monitor { mon with stage := .finished })
  shutdown : ∀ {t : TaskKey} {s n : Nat}, (w₀.after moves s).shutdown = true → s ≤ n →
    (n ≤ moves.length → (w₀.after moves n).IsSampling t → (w₀.after moves s).IsSampling t)
    ∧ ∀ {n' x x'}, s ≤ n' → Publishes w₀ moves t n x → Publishes w₀ moves t n' x' → n' = n
  gone : ∀ {t : TaskKey} {i k n g : Nat} {x : Sample},
    (w₀.after moves g).registry.service = .stopped → Takes w₀ moves t i k n x → k < g
  rests : ∀ {t : TaskKey} {mon : Monitor}, (w₀.run moves).isQuiet = true →
    (w₀.run moves).tasks[t]? = some (.monitor mon) → mon.stage = .finished
      ∨ ∃ due, mon.stage = .sleeping due ∧ (w₀.run moves).now < due
        ∧ (w₀.run moves).shutdown = false

/-- In every run, whatever the order of its moves, the samples of a monitor
are right, and apart from each other. -/
theorem samples_monitored {moves : List Move} (hmoves : World.Permitted {} moves) :
    Monitored {} moves where
  sole := by
    intro n m hm
    rw [World.after_succ _ hm]
    by_cases hturn : ∃ t, m = .turn t
    · obtain ⟨t, rfl⟩ := hturn
      refine ((World.after {} moves n).clock_turn t).2.imp_right ?_
      rintro ⟨task, reply, -, -, hsamples⟩
      exact ⟨t, _, rfl, hm, by rw [World.after_succ _ hm, hsamples]⟩
    · exact .inl ((World.after {} moves n).clock_of_ne_turn fun t h => hturn ⟨t, h⟩).2
  published := fun h => h.takes hmoves
  ticks := fun h => h.tick hmoves
  hired := by
    intro t me s mon hm hnone ht
    have ht' := ht
    rw [World.after_succ _ hm] at ht'
    rw [World.turn_starts_monitor hnone ht'] at ht
    exact ⟨hnone, ht⟩
  keeps := fun hnn' ht => monitor_after hmoves hnn' ht
  first := fun h hx => h.le_time hmoves hx
  spaced := by
    intro t n n' x x' mon hnn' hx hx' ht
    obtain ⟨mon', ht', hinterval, hstage⟩ := hx.sleeps hmoves ht
    exact hx'.le_time hmoves (World.withholds_of_sleeping ht' hinterval hstage le_rfl) hnn'
  stops := by
    intro t n due mon hshutdown ht hstage hm
    rw [World.after_succ _ hm]
    have hturn : (World.after {} moves n).turn t
        = some ((World.after {} moves n).setTask t (.monitor { mon with stage := .finished })) := by
      simp [World.turn, ht, World.taskTurn, World.monitorTurn, hstage, hshutdown]
    rw [World.move_turn_of_some hturn]
    exact ⟨rfl, World.tasks_setTask_self ht _⟩
  shutdown := by
    intro t s n hs hsn
    refine ⟨fun hn hsampling => sampling_shutdown hmoves hs hsn hn hsampling, ?_⟩
    intro n' x x' hsn' hx hx'
    exact le_antisymm (hx.last hx' hmoves hs hsn) (hx'.last hx hmoves hs hsn')
  gone := by
    intro t i k n g x hstopped htakes
    by_contra hgk
    cases htakes.serving.symm.trans (World.stopped_le {} moves (Nat.le_of_not_lt hgk) hstopped)
  rests := by
    intro t mon hquiet ht
    have hrests := World.quiet_of_isQuiet hquiet
    have hrequests := World.requests_run World.isNew_empty.requests hmoves
    have hidle := hrests.idle ht
    cases hstage : mon.stage with
    | finished => exact .inl rfl
    | sampling call =>
        have hcall := hrests.call? hrequests t
        simp [World.call?, ht, Task.call?, hstage] at hcall
    | sleeping due =>
        refine .inr ⟨due, rfl, ?_⟩
        simp only [World.taskTurn, World.monitorTurn, hstage, Option.map_eq_none_iff] at hidle
        split_ifs at hidle with hshutdown hdue
        exact ⟨Nat.lt_of_not_le hdue, Bool.eq_false_iff.2 hshutdown⟩

/-- A first sample; then the shutdown comes between the second request and its
reply, and so does another peer. -/
def crossing : List Move :=
  let joins : Move := .arrive 0 (.connection ⟨"peer"⟩ {} .silent)
  let serve : Move := .serve World.byId
  [.spawn (.server { listen := "relay", maxLine := none, interval := 1000 }), .turn 0,
      joins, .turn 0, .turn 2, serve]
    ++ [.elapse 1000, .turn 1, .turn 1, serve, .turn 1]
    ++ [.elapse 1200, .turn 1, .turn 1, joins, .turn 0, .turn 3, .shutdown, serve, serve,
      .elapse 1000, .turn 1, .turn 1]

/-- In `crossing` the second sample is published after the shutdown and is of
one peer, when there are two; there is no third. -/
theorem samples_monitored_crossing : World.Permitted {} crossing
    ∧ Starts {} crossing 1 1 1000
    ∧ Publishes {} crossing 1 10 ⟨1000, 1⟩ ∧ Publishes {} crossing 1 21 ⟨3200, 1⟩
    ∧ (World.run {} crossing).registry.membership.size = 2
    ∧ (World.run {} crossing).samples = [⟨1000, 1⟩, ⟨3200, 1⟩]
    ∧ (∃ i k, Wakes {} crossing 1 i ∧ Takes {} crossing 1 i k 21 ⟨3200, 1⟩)
    ∧ Monitored {} crossing := by
  have hmoves : World.Permitted {} crossing := by decide +kernel
  have hx : Publishes {} crossing 1 21 ⟨3200, 1⟩ := ⟨rfl, by decide +kernel⟩
  exact ⟨hmoves, ⟨by decide +kernel, by decide +kernel⟩, ⟨rfl, by decide +kernel⟩, hx,
    by decide +kernel, by decide +kernel, (samples_monitored hmoves).published hx,
    samples_monitored hmoves⟩

end LineRelay
