/-
# What a worker relays, and why it leaves

A worker that has its connection to itself relays the lines of the stream
that the connection was given, in their order, up to where the stream
breaks.  `RelayedSoFar` says how far it has come:

| `RelayedSoFar` | the worker | has relayed |
| :-- | :-- | :-- |
| `enrols` | has not begun to read | nothing |
| `refused` | was told that its peer is not registered, and has ended | nothing |
| `reads` | reads, or relays a line | what the reads so far complete |
| `left` | has left its read loop | the first complete lines |

One that leaves has a reason that holds (`Warrants`): the relay is told to
shut down, its peer's close signal has fired, or the stream has broken, in
which case it has relayed all complete lines there were.
-/
import LineRelay.Proofs.Relay.Enrolment
import LineRelay.Proofs.Relay.Inputs

namespace LineRelay

namespace World

/-! ## Where a worker stands -/

/-- The worker `t` was told in the run that its peer is not registered. -/
def Refused (w₀ : World) (moves : List Move) (t : TaskKey) : Prop :=
  ∃ (n : Nat) (wk : Worker) (tk : Ticket) (e : RequestError), moves[n]? = some (.turn t)
    ∧ (w₀.after moves n).tasks[t]? = some (.worker wk) ∧ wk.stage = .registering (.waiting tk)
    ∧ (w₀.after moves n).registry.answer? tk = some (.error e)

/-- The connection `k` was supplied something though it ends of itself. -/
def Overfed (w₀ : World) (moves : List Move) (k : PeerKey) : Prop :=
  (stream k w₀ moves).ends = true ∧ ∃ d, Move.supply k d ∈ moves

/-- The worker has looked at nothing that its connection was given. -/
structure Unread (w₀ : World) (moves : List Move) (t : TaskKey) (wk : Worker) : Prop where
  inlet : (w₀.run moves).inlet? wk.peer = some (stream wk.peer w₀ moves)
  reader : wk.reader = ⟨wk.reader.limit, [], []⟩
  relayed : relayed t w₀ moves = []

/-- The worker has read the marks `used` of its stream, and the rest of it is
in `i`. -/
structure Reading (w₀ : World) (moves : List Move) (t : TaskKey) (wk : Worker)
    (used : List Mark) (i : Inlet) : Prop where
  inlet : (w₀.run moves).inlet? wk.peer = some i
  ends : i.ends = (stream wk.peer w₀ moves).ends
  items : (stream wk.peer w₀ moves).items.flatMap Delivery.signs
    = used.map some ++ i.items.flatMap Delivery.signs
  follows : wk.reader.Follows wk.reader.limit used (relayed t w₀ moves)

/-- A reason to leave the read loop holds. -/
def Warrants (w₀ : World) (moves : List Move) (t : TaskKey) (wk : Worker) : Reason → Prop
  | .shutdown => (w₀.run moves).shutdown = true
  | .writeFailed => ∃ p, (w₀.run moves).peer? wk.peer = some p ∧ p.fired = true
  | .disconnected => ¬ w₀.Overfed moves wk.peer → ∃ seen rest,
      (stream wk.peer w₀ moves).signs = seen ++ rest
        ∧ Framer.Stopped wk.reader.limit seen (relayed t w₀ moves)

/-- Where the worker `t` stands to the stream of its connection. -/
inductive RelayedSoFar (w₀ : World) (moves : List Move) (t : TaskKey) (wk : Worker) : Prop
  | enrols {call : Call} : wk.stage = .registering call → ¬ w₀.Refused moves t →
      w₀.Unread moves t wk → RelayedSoFar w₀ moves t wk
  | refused : wk.stage = .finished .shutdown → w₀.Refused moves t → w₀.Unread moves t wk →
      RelayedSoFar w₀ moves t wk
  | reads {used : List Mark} {i : Inlet} :
      wk.stage = .reading ∨ (∃ b, wk.stage = .relaying b) → ¬ w₀.Refused moves t →
      w₀.Reading moves t wk used i → RelayedSoFar w₀ moves t wk
  | left {reason : Reason} : wk.reason? = some reason → ¬ w₀.Refused moves t →
      (relayed t w₀ moves).map (·.bytes)
        <+: completeLines wk.reader.limit (stream wk.peer w₀ moves).signs →
      w₀.Warrants moves t wk reason → RelayedSoFar w₀ moves t wk

section Streams

variable {w₀ : World} {moves : List Move} {t : TaskKey} {wk : Worker} {used : List Mark}
  {i : Inlet}

/-- What the stream says, beside what the reads have used. -/
theorem Reading.signs (h : w₀.Reading moves t wk used i) :
    (stream wk.peer w₀ moves).signs = used.map some ++ i.signs := by
  rw [Inlet.signs, Inlet.signs, h.ends, h.items, List.append_assoc]

/-- The machine can hold the lines that are still to be read. -/
theorem Reading.fits (h : w₀.Reading moves t wk used i)
    (hfit : Framer.Fits wk.reader.limit 0
      ((stream wk.peer w₀ moves).items.flatMap Delivery.marks)) :
    Framer.Fits wk.reader.limit 0 (used ++ i.items.flatMap Delivery.marks) := by
  have hused : (used.map some).reduceOption = used := by simp [List.reduceOption]
  have hmarks := congrArg List.reduceOption h.items
  rw [reduceOption_signs, List.reduceOption_append, reduceOption_signs, hused] at hmarks
  rwa [← hmarks]

/-- What has been relayed are the first complete lines. -/
theorem Reading.lines_prefix (h : w₀.Reading moves t wk used i) :
    (relayed t w₀ moves).map (·.bytes)
      <+: completeLines wk.reader.limit (stream wk.peer w₀ moves).signs := by
  rw [h.signs]
  exact h.follows.lines_prefix _

/-- A read that answers an end or an error has come to a break of the stream. -/
theorem Reading.next_stop {reader : Framer} {inlet : Inlet} {result : ReadResult}
    (h : w₀.Reading moves t wk used i)
    (hfit : Framer.Fits wk.reader.limit 0
      ((stream wk.peer w₀ moves).items.flatMap Delivery.marks))
    (hnext : wk.reader.next i = (result, reader, inlet))
    (hstop : result = .ended ∨ ∃ e, result = .failed e) :
    ∃ seen rest, (stream wk.peer w₀ moves).signs = seen ++ rest
      ∧ Framer.Stopped wk.reader.limit seen (relayed t w₀ moves) := by
  rw [h.signs]
  exact h.follows.next_stop (h.fits hfit) hnext hstop

end Streams

/-! ## Moves of others -/

section Others

variable {w₀ : World} {moves : List Move} {m : Move} {t : TaskKey} {k : PeerKey}
  {ds : List Delivery} {wk : Worker}

theorem Refused.concat (h : w₀.Refused moves t) (m : Move) : w₀.Refused (moves ++ [m]) t := by
  obtain ⟨n, wk, tk, e, hm, ht, hstage, hanswer⟩ := h
  obtain ⟨hn, -⟩ := List.getElem?_eq_some_iff.1 hm
  refine ⟨n, wk, tk, e, ?_, ?_, hstage, ?_⟩
  · rw [List.getElem?_append_left hn, hm]
  · rwa [after_append w₀ [m] hn.le]
  · rwa [after_append w₀ [m] hn.le]

/-- A worker was told before, or is told now. -/
theorem refused_concat (h : w₀.Refused (moves ++ [m]) t) :
    w₀.Refused moves t ∨ m = .turn t ∧ ∃ wk tk e, (w₀.run moves).tasks[t]? = some (.worker wk)
      ∧ wk.stage = .registering (.waiting tk)
      ∧ (w₀.run moves).registry.answer? tk = some (.error e) := by
  obtain ⟨n, wk, tk, e, hm, ht, hstage, hanswer⟩ := h
  have hn : n < moves.length + 1 := by
    obtain ⟨hn, -⟩ := List.getElem?_eq_some_iff.1 hm
    simpa using hn
  rcases Nat.lt_succ_iff_lt_or_eq.1 hn with hlt | rfl
  · rw [List.getElem?_append_left hlt] at hm
    rw [after_append w₀ [m] hlt.le] at ht hanswer
    exact .inl ⟨n, wk, tk, e, hm, ht, hstage, hanswer⟩
  · rw [after_concat] at ht hanswer
    rw [List.getElem?_concat_length] at hm
    exact .inr ⟨Option.some.inj hm, wk, tk, e, ht, hstage, hanswer⟩

/-- A move gives `ds` to the connection `k`, of which nobody reads. -/
structure Feeds (w₀ : World) (moves : List Move) (m : Move) (k : PeerKey)
    (ds : List Delivery) : Prop where
  inlet : ∀ {i : Inlet}, (w₀.run moves).inlet? k = some i →
    (w₀.run (moves ++ [m])).inlet? k = some ⟨i.items ++ ds, i.ends⟩
  stream : stream k w₀ (moves ++ [m])
    = ⟨(World.stream k w₀ moves).items ++ ds, (World.stream k w₀ moves).ends⟩
  supplied : ds = [] ∨ ∃ d, m = .supply k d

/-- A move that lets a connection be feeds it nothing. -/
theorem feeds_nothing {i : Inlet} (hi : (w₀.run moves).inlet? k = some i)
    (hi' : (w₀.run (moves ++ [m])).inlet? k = some i) (hm : ∀ d, m ≠ .supply k d) :
    w₀.Feeds moves m k [] where
  inlet := by
    intro i₀ hi₀
    cases hi₀.symm.trans hi
    rw [hi', List.append_nil]
  stream := stream_concat hi hi' rfl (given_of_inlet? hi hm)
  supplied := .inl rfl

/-- While its worker takes no turn, a connection is fed. -/
theorem exists_feeds {i : Inlet} (hi : (w₀.run moves).inlet? k = some i)
    (hm : ∀ (t : TaskKey) (wk : Worker), m = .turn t →
      (w₀.run moves).tasks[t]? = some (.worker wk) → wk.peer ≠ k) :
    ∃ ds, w₀.Feeds moves m k ds := by
  have hchange := inletChange_move (w₀.run moves) m k
  have hrun := w₀.run_concat moves m
  rw [← hrun] at hchange
  cases hchange with
  | comes hnone _ _ => cases hnone.symm.trans hi
  | read hm' ht hk _ _ _ _ => exact absurd hk (hm _ _ hm' ht)
  | stays hsame hgiven =>
      refine ⟨[], ?_, stream_concat hi (hsame.trans hi) rfl hgiven, .inl rfl⟩
      intro i₀ hi₀
      rw [hsame, hi₀, List.append_nil]
  | @supplied i₀ d hm' hi₀ hi' hgiven =>
      refine ⟨d.reads, ?_, stream_concat hi₀ hi' rfl hgiven, .inr ⟨d, hm'⟩⟩
      intro i₁ hi₁
      cases hi₁.symm.trans hi₀
      exact hi'

theorem Overfed.concat (h : w₀.Overfed moves k) (hfeeds : w₀.Feeds moves m k ds) :
    w₀.Overfed (moves ++ [m]) k := by
  obtain ⟨hends, d, hd⟩ := h
  exact ⟨by rw [hfeeds.stream]; exact hends, d, List.mem_append_left _ hd⟩

/-- What has been seen of a stream is still its beginning when it is fed. -/
theorem Feeds.signs_eq (hfeeds : w₀.Feeds moves m k ds) (hfed : ¬ w₀.Overfed (moves ++ [m]) k) :
    ∃ more, (World.stream k w₀ (moves ++ [m])).signs = (World.stream k w₀ moves).signs ++ more := by
  rw [hfeeds.stream]
  cases hends : (World.stream k w₀ moves).ends with
  | false => exact ⟨ds.flatMap Delivery.signs, by simp [Inlet.signs, hends]⟩
  | true =>
      rcases hfeeds.supplied with rfl | ⟨d, rfl⟩
      · exact ⟨[], by simp [Inlet.signs, hends]⟩
      · exact absurd ⟨by rw [hfeeds.stream]; exact hends, d, by simp⟩ hfed

/-- What warrants leaving goes on to do so. -/
theorem Warrants.concat {reason : Reason} (h : w₀.Warrants moves t wk reason)
    (hstep : MoveStep (w₀.run moves) m (w₀.run (moves ++ [m])))
    (hfeeds : w₀.Feeds moves m wk.peer ds)
    (hrelayed : relayed t w₀ (moves ++ [m]) = relayed t w₀ moves) :
    w₀.Warrants (moves ++ [m]) t wk reason := by
  cases reason with
  | shutdown => exact hstep.shutdown h
  | writeFailed =>
      obtain ⟨p, hp, hfired⟩ := h
      obtain ⟨q, hq, hlasts⟩ := hstep.lasts hp
      exact ⟨q, hq, hlasts.fired hfired⟩
  | disconnected =>
      intro hfed
      obtain ⟨seen, rest, hsigns, hstopped⟩ := h fun hover => hfed (hover.concat hfeeds)
      obtain ⟨more, hmore⟩ := hfeeds.signs_eq hfed
      exact ⟨seen, rest ++ more, by rw [hmore, hsigns, List.append_assoc], hrelayed ▸ hstopped⟩

/-- What a connection is fed comes after what its worker has read. -/
theorem Reading.fed {used : List Mark} {i : Inlet} (h : w₀.Reading moves t wk used i)
    (hfeeds : w₀.Feeds moves m wk.peer ds)
    (hrelayed : World.relayed t w₀ (moves ++ [m]) = World.relayed t w₀ moves) :
    w₀.Reading (moves ++ [m]) t wk used ⟨i.items ++ ds, i.ends⟩ where
  inlet := hfeeds.inlet h.inlet
  ends := by
    rw [hfeeds.stream]
    exact h.ends
  items := by
    rw [hfeeds.stream, List.flatMap_append, h.items, List.append_assoc, ← List.flatMap_append]
  follows := hrelayed ▸ h.follows

/-- A worker that takes no turn has relayed what it had relayed. -/
theorem RelayedSoFar.rests (h : w₀.RelayedSoFar moves t wk)
    (hstep : MoveStep (w₀.run moves) m (w₀.run (moves ++ [m])))
    (hfeeds : w₀.Feeds moves m wk.peer ds)
    (hrelayed : relayed t w₀ (moves ++ [m]) = relayed t w₀ moves)
    (hrefused : w₀.Refused (moves ++ [m]) t → w₀.Refused moves t) :
    w₀.RelayedSoFar (moves ++ [m]) t wk := by
  have hunread : w₀.Unread moves t wk → w₀.Unread (moves ++ [m]) t wk := fun h =>
    ⟨by rw [hfeeds.inlet h.inlet, hfeeds.stream], h.reader, hrelayed.trans h.relayed⟩
  cases h with
  | enrols hstage hnot h => exact .enrols hstage (mt hrefused hnot) (hunread h)
  | refused hstage hrefused h => exact .refused hstage (hrefused.concat m) (hunread h)
  | reads hstage hnot h => exact .reads hstage (mt hrefused hnot) (h.fed hfeeds hrelayed)
  | left hreason hnot hprefix hwarrants =>
      refine .left hreason (mt hrefused hnot) ?_ (hwarrants.concat hstep hfeeds hrelayed)
      rw [hrelayed, hfeeds.stream]
      exact hprefix.trans (Inlet.completeLines_prefix _ _ _)

end Others

/-! ## Its own turns -/

section Turns

variable {w₀ w₁ : World} {moves : List Move} {t : TaskKey} {wk wk' : Worker} {c : Connection}

theorem RelayedSoFar.of_registering {call : Call} (h : w₀.RelayedSoFar moves t wk)
    (hstage : wk.stage = .registering call) : ¬ w₀.Refused moves t ∧ w₀.Unread moves t wk := by
  cases h with
  | enrols _ hnot h => exact ⟨hnot, h⟩
  | refused hstage' _ _ => cases hstage'.symm.trans hstage
  | reads hstage' _ _ =>
      rcases hstage' with hstage' | ⟨b, hstage'⟩ <;> cases hstage'.symm.trans hstage
  | left hreason _ _ _ => simp [Worker.reason?, hstage] at hreason

theorem RelayedSoFar.of_reading (h : w₀.RelayedSoFar moves t wk)
    (hstage : wk.stage = .reading ∨ ∃ b, wk.stage = .relaying b) :
    ¬ w₀.Refused moves t ∧ ∃ used i, w₀.Reading moves t wk used i := by
  cases h with
  | enrols hstage' _ _ | refused hstage' _ _ =>
      rcases hstage with hstage | ⟨b, hstage⟩ <;> cases hstage'.symm.trans hstage
  | reads _ hnot h => exact ⟨hnot, _, _, h⟩
  | left hreason _ _ _ =>
      rcases hstage with hstage | ⟨b, hstage⟩ <;> simp [Worker.reason?, hstage] at hreason

theorem RelayedSoFar.of_leaving {reason : Reason} {call : Call} (h : w₀.RelayedSoFar moves t wk)
    (hstage : wk.stage = .leaving reason call) :
    ¬ w₀.Refused moves t
      ∧ (relayed t w₀ moves).map (·.bytes)
        <+: completeLines wk.reader.limit (stream wk.peer w₀ moves).signs
      ∧ w₀.Warrants moves t wk reason := by
  cases h with
  | enrols hstage' _ _ | refused hstage' _ _ => cases hstage'.symm.trans hstage
  | reads hstage' _ _ =>
      rcases hstage' with hstage' | ⟨b, hstage'⟩ <;> cases hstage'.symm.trans hstage
  | left hreason hnot hprefix hwarrants =>
      simp only [Worker.reason?, hstage, Option.some.injEq] at hreason
      subst hreason
      exact ⟨hnot, hprefix, hwarrants⟩

/-- Only a worker that waits for its registration is told of it. -/
theorem not_refused_turn (ht : (w₀.run moves).tasks[t]? = some (.worker wk))
    (hnot : ¬ w₀.Refused moves t)
    (hno : ∀ tk e, wk.stage = .registering (.waiting tk) →
      (w₀.run moves).registry.answer? tk ≠ some (.error e)) :
    ¬ w₀.Refused (moves ++ [.turn t]) t := by
  intro h
  rcases refused_concat h with h | ⟨-, wk₀, tk, e, ht₀, hstage, hanswer⟩
  · exact hnot h
  · cases ht.symm.trans ht₀
    exact hno tk e hstage hanswer

/-- The broadcast of a worker is the one that it relays. -/
theorem broadcast?_of_worker {w : World} (ht : w.tasks[t]? = some (.worker wk)) :
    w.broadcast? t = (Task.worker wk).broadcast? := by
  rw [broadcast?, ht]
  rfl

/-- What a worker makes of its turn. -/
structure Turned (w₀ w₁ : World) (moves : List Move) (t : TaskKey) (wk wk' : Worker)
    (c : Connection) : Prop where
  step : MoveStep (w₀.run moves) (.turn t) (w₀.run (moves ++ [.turn t]))
  before : (w₀.run moves).tasks[t]? = some (.worker wk)
  after : (w₀.run (moves ++ [.turn t])).tasks[t]? = some (.worker wk')
  connection : (w₀.run moves).connections[wk.peer]? = some c
  world : w₀.run (moves ++ [.turn t]) = w₁.setTask t (.worker wk')

namespace Turned

theorem inlet? (h : Turned w₀ w₁ moves t wk wk' c) :
    (w₀.run moves).inlet? wk.peer = some c.inlet := inlet?_of_connection h.connection

/-- A turn that does not read feeds the connection nothing. -/
theorem feeds (h : Turned w₀ w₁ moves t wk wk' c)
    (hsame : w₁.inlet? wk.peer = (w₀.run moves).inlet? wk.peer) :
    w₀.Feeds moves (.turn t) wk.peer [] := by
  refine feeds_nothing h.inlet? ?_ fun _ => Move.noConfusion
  rw [h.world]
  exact hsame.trans h.inlet?

/-- A turn that reads leaves the stream what it was. -/
theorem stream_eq (h : Turned w₀ w₁ moves t wk wk' c) {i : Inlet} (hends : i.ends = c.inlet.ends)
    (hi : w₁.inlet? wk.peer = some i) :
    stream wk.peer w₀ (moves ++ [.turn t]) = stream wk.peer w₀ moves := by
  have hi' : (w₀.run (moves ++ [.turn t])).inlet? wk.peer = some i := by
    rw [h.world]
    exact hi
  rw [stream_concat h.inlet? hi' hends (given_of_inlet? h.inlet? fun _ => Move.noConfusion),
    List.append_nil]

/-- A turn that begins no broadcast relays nothing. -/
theorem relayed_eq (h : Turned w₀ w₁ moves t wk wk' c)
    (hno : (∃ b, wk.stage = .relaying b) ∨ ∀ b, wk'.stage ≠ .relaying b) :
    relayed t w₀ (moves ++ [.turn t]) = relayed t w₀ moves := by
  have hbegun : (w₀.run moves).begun t (.turn t) = [] := by
    rcases hno with ⟨b, hb⟩ | hno
    · refine begun_of_some (b := b) ?_
      rw [broadcast?_of_worker h.before]
      simp [Task.broadcast?, hb]
    · refine begun_of_none t ?_
      rw [← run_concat, broadcast?_of_worker h.after]
      cases hstage : wk'.stage with
      | relaying b => exact absurd hstage (hno b)
      | registering _ | reading | leaving _ _ | finished _ => simp [Task.broadcast?, hstage]
  rw [relayed, record_concat, hbegun, List.append_nil]
  rfl

theorem relayed_line (h : Turned w₀ w₁ moves t wk wk' c) {b : Broadcast}
    (hstage : wk.stage = .reading) (hstage' : wk'.stage = .relaying b) :
    relayed t w₀ (moves ++ [.turn t]) = relayed t w₀ moves ++ [b.line] := by
  have hbegun : (w₀.run moves).begun t (.turn t) = [b.line] := by
    refine begun_of_begins ?_ ?_
    · rw [broadcast?_of_worker h.before]
      simp [Task.broadcast?, hstage]
    · rw [← run_concat, broadcast?_of_worker h.after]
      simp [Task.broadcast?, hstage']
  rw [relayed, record_concat, hbegun]
  rfl

end Turned

/-- A worker that looks at nothing has still looked at nothing. -/
theorem Unread.turns (h : w₀.Unread moves t wk) (hfeeds : w₀.Feeds moves (.turn t) wk.peer [])
    (hrelayed : World.relayed t w₀ (moves ++ [.turn t]) = World.relayed t w₀ moves)
    (stage : WorkerStage) : w₀.Unread (moves ++ [.turn t]) t { wk with stage } where
  inlet := by
    show (w₀.run (moves ++ [.turn t])).inlet? wk.peer
      = some (stream wk.peer w₀ (moves ++ [.turn t]))
    rw [hfeeds.inlet h.inlet, hfeeds.stream]
  reader := h.reader
  relayed := hrelayed.trans h.relayed

/-- A worker that begins to read has its stream before it. -/
theorem Unread.reading (h : w₀.Unread moves t wk) :
    w₀.Reading moves t wk [] (stream wk.peer w₀ moves) where
  inlet := h.inlet
  ends := rfl
  items := rfl
  follows := by
    rw [h.relayed, h.reader]
    exact Framer.follows_start _

/-- A worker that is leaving, or has left, has left for the reason it had. -/
theorem RelayedSoFar.turns_leaving (h : w₀.RelayedSoFar moves t wk)
    (hturned : Turned w₀ w₁ moves t wk wk' c) {reason : Reason} {call : Call} {stage : WorkerStage}
    (hstage : wk.stage = .leaving reason call)
    (hfeeds : w₀.Feeds moves (.turn t) wk.peer []) (hwk' : wk' = { wk with stage })
    (hreason : wk'.reason? = some reason) : w₀.RelayedSoFar (moves ++ [.turn t]) t wk' := by
  subst hwk'
  obtain ⟨hnot, hprefix, hwarrants⟩ := h.of_leaving hstage
  have hrelayed := hturned.relayed_eq (.inr fun b hb => by
    obtain rfl : stage = .relaying b := hb
    cases hreason)
  refine .left hreason (not_refused_turn hturned.before hnot ?_) ?_
    (hwarrants.concat hturned.step hfeeds hrelayed)
  · intro tk e hstage'
    cases hstage.symm.trans hstage'
  · show _ <+: completeLines wk.reader.limit (stream wk.peer w₀ (moves ++ [.turn t])).signs
    rw [hrelayed, hfeeds.stream]
    exact hprefix.trans (Inlet.completeLines_prefix _ _ _)

/-- What a worker that reads, or relays a line, finds in its turn. -/
theorem RelayedSoFar.finds (h : w₀.RelayedSoFar moves t wk)
    (hturned : Turned w₀ w₁ moves t wk wk' c)
    (hstage : wk.stage = .reading ∨ ∃ b, wk.stage = .relaying b) :
    ¬ w₀.Refused (moves ++ [.turn t]) t ∧ ∃ used, w₀.Reading moves t wk used c.inlet := by
  obtain ⟨hnot, used, i, hreads⟩ := h.of_reading hstage
  obtain rfl : i = c.inlet := Option.some.inj (hreads.inlet.symm.trans hturned.inlet?)
  refine ⟨not_refused_turn hturned.before hnot ?_, used, hreads⟩
  intro tk e hstage'
  rcases hstage with hstage | ⟨b, hstage⟩ <;> cases hstage.symm.trans hstage'

theorem Reading.restage {used : List Mark} {i : Inlet} (h : w₀.Reading moves t wk used i)
    (stage : WorkerStage) : w₀.Reading moves t { wk with stage } used i :=
  ⟨h.inlet, h.ends, h.items, h.follows⟩

/-- A turn that takes `more` off the connection leaves the rest there. -/
theorem Reading.read {used more : List Mark} {i : Inlet}
    (h : w₀.Reading moves t wk used c.inlet) (hturned : Turned w₀ w₁ moves t wk wk' c)
    (hpeer : wk'.peer = wk.peer) (hi : w₁.inlet? wk.peer = some i)
    (hends : i.ends = c.inlet.ends)
    (hmore : c.inlet.items.flatMap Delivery.signs = more.map some ++ i.items.flatMap Delivery.signs)
    (hfollows : wk'.reader.Follows wk.reader.limit (used ++ more)
      (World.relayed t w₀ (moves ++ [.turn t]))) :
    w₀.Reading (moves ++ [.turn t]) t wk' (used ++ more) i := by
  have hstream := hturned.stream_eq hends hi
  refine ⟨?_, ?_, ?_, ?_⟩
  · rw [hturned.world, hpeer]
    exact hi
  · rw [hpeer, hstream, hends, h.ends]
  · rw [hpeer, hstream, h.items, hmore, List.map_append, List.append_assoc]
  · rw [hfollows.limit_eq]
    exact hfollows

/-- A turn takes a worker from one of the stages to another. -/
theorem RelayedSoFar.turns (h : w₀.RelayedSoFar moves t wk)
    (hturned : Turned w₀ w₁ moves t wk wk' c)
    (hworker : WorkerStep (w₀.run moves) t wk c w₁ wk')
    (hfit : Framer.Fits wk.reader.limit 0
      ((stream wk.peer w₀ moves).items.flatMap Delivery.marks)) :
    w₀.RelayedSoFar (moves ++ [.turn t]) t wk' := by
  have hset : ∀ i : Inlet, ((w₀.run moves).setInlet wk.peer i).inlet? wk.peer = some i := by
    intro i
    rw [inlet?_setInlet, if_pos rfl, hturned.inlet?]
    rfl
  cases hworker with
  | registers hstage _ =>
      obtain ⟨hnot, hunread⟩ := h.of_registering hstage
      refine .enrols rfl (not_refused_turn hturned.before hnot ?_) (hunread.turns
        (hturned.feeds rfl) (hturned.relayed_eq (.inr fun _ => WorkerStage.noConfusion)) _)
      intro tk e hstage'
      cases hstage.symm.trans hstage'
  | @starts tk reply hstage hanswer =>
      obtain ⟨hnot, hunread⟩ := h.of_registering hstage
      have hunread' := hunread.turns (hturned.feeds rfl)
        (hturned.relayed_eq (.inr fun _ => WorkerStage.noConfusion)) .reading
      refine .reads (.inl rfl) (not_refused_turn hturned.before hnot ?_) hunread'.reading
      intro tk' e hstage' hanswer'
      cases hstage.symm.trans hstage'
      cases hanswer.symm.trans hanswer'
  | @drops tk e hstage hanswer =>
      obtain ⟨hnot, hunread⟩ := h.of_registering hstage
      have hfeeds := hturned.feeds (inlet?_closePeer _ _ _)
      have hrelayed := hturned.relayed_eq (.inr fun _ => WorkerStage.noConfusion)
      refine .refused rfl ⟨moves.length, wk, tk, e, List.getElem?_concat_length, ?_, hstage, ?_⟩
        (hunread.turns hfeeds hrelayed _)
      · rw [after_concat]
        exact hturned.before
      · rw [after_concat]
        exact hanswer
  | @quits reason hreading hwhy =>
      obtain ⟨hnot, used, hreads⟩ := h.finds hturned (.inl hreading)
      have hreads' := hreads.fed (hturned.feeds rfl)
        (hturned.relayed_eq (.inr fun _ => WorkerStage.noConfusion))
      refine @RelayedSoFar.left _ _ _ _ reason rfl hnot hreads'.lines_prefix ?_
      rcases hwhy with ⟨hshutdown, rfl⟩ | ⟨hopen, hsignalled, rfl⟩
      · exact hturned.step.shutdown hshutdown
      · obtain ⟨q, hq, hlasts⟩ := hturned.step.lasts (peer?_of_connection hturned.connection)
        rw [Peer.signalled, hopen, Bool.and_false, Bool.or_false] at hsignalled
        exact ⟨q, hq, hlasts.fired hsignalled⟩
  | reads hreading _ _ hnext =>
      obtain ⟨hnot, used, hreads⟩ := h.finds hturned (.inl hreading)
      obtain ⟨more, hmore, hfollows⟩ := hreads.follows.next_line (hreads.fits hfit) hnext
      refine .reads (.inr ⟨_, rfl⟩) hnot
        (hreads.read hturned rfl (hset _) (Framer.ends_of_next hnext) hmore ?_)
      rw [hturned.relayed_line hreading rfl]
      exact hfollows
  | pauses hreading _ _ hnext =>
      obtain ⟨hnot, used, hreads⟩ := h.finds hturned (.inl hreading)
      obtain ⟨more, hmore, hfollows⟩ := hreads.follows.next_notReady (hreads.fits hfit) hnext
      refine .reads (.inl hreading) hnot
        (hreads.read hturned rfl (hset _) (Framer.ends_of_next hnext) hmore ?_)
      rw [hturned.relayed_eq (.inr fun b hb => by cases hreading.symm.trans hb)]
      exact hfollows
  | @stops reader inlet result ns hreading _ _ hnext hresult =>
      obtain ⟨hnot, used, hreads⟩ := h.finds hturned (.inl hreading)
      obtain ⟨seen, rest, hsigns, hstopped⟩ := hreads.next_stop hfit hnext
        (hresult.imp And.left (Exists.imp fun _ => And.left))
      rw [← hturned.stream_eq (Framer.ends_of_next hnext) (hset inlet)] at hsigns
      rw [← hturned.relayed_eq (.inr fun _ => WorkerStage.noConfusion),
        ← Framer.limit_of_next hnext] at hstopped
      refine @RelayedSoFar.left _ _ _ _ .disconnected rfl hnot ?_
        fun _ => ⟨seen, rest, hsigns, hstopped⟩
      show _ <+: completeLines reader.limit (stream wk.peer w₀ (moves ++ [.turn t])).signs
      rw [hsigns, hstopped.lines]
      exact completeLines_append_prefix _ _ _
  | @relays b b' _ hstage hbroadcast =>
      obtain ⟨hnot, used, hreads⟩ := h.finds hturned (.inr ⟨b, hstage⟩)
      have hreads' := hreads.fed (hturned.feeds (hbroadcast.inlet? _))
        (hturned.relayed_eq (.inl ⟨b, hstage⟩))
      refine .reads ?_ hnot (hreads'.restage _)
      cases hover : b'.isOver with
      | true => exact .inl (by simp)
      | false => exact .inr ⟨b', by simp⟩
  | unregisters hstage _ => exact h.turns_leaving hturned hstage (hturned.feeds rfl) rfl rfl
  | leaves hstage _ =>
      exact h.turns_leaving hturned hstage (hturned.feeds (inlet?_closePeer _ _ _)) rfl rfl

end Turns

/-! ## Every world of a run -/

/-- The machine can hold the lines that the connection of the worker `t` is
given. -/
def Holds (w₀ : World) (moves : List Move) (t : TaskKey) : Prop :=
  ∀ wk, (w₀.run moves).tasks[t]? = some (.worker wk) →
    Framer.Fits wk.reader.limit 0 ((stream wk.peer w₀ moves).items.flatMap Delivery.marks)

/-- What holds of the task `t` as the sole reader of the connection `k`. -/
structure SoleReader (w₀ : World) (moves : List Move) (t : TaskKey) (k : PeerKey) : Prop where
  absent : (w₀.run moves).tasks[t]? = none → relayed t w₀ moves = [] ∧ ¬ w₀.Refused moves t
  unread : (∀ (t' : TaskKey) (wk : Worker), (w₀.run moves).tasks[t']? = some (.worker wk) →
      wk.peer ≠ k) →
    ∀ i, (w₀.run moves).inlet? k = some i → i = stream k w₀ moves
  relayedSoFar : ∀ wk, (w₀.run moves).tasks[t]? = some (.worker wk) → wk.peer = k →
    w₀.RelayedSoFar moves t wk

section Run

variable {w₀ : World} {moves : List Move} {m : Move} {t : TaskKey} {k : PeerKey}

/-- A worker keeps its peer and its limit. -/
theorem keeps_limit {w w' : World} (hstep : MoveStep w m w') {wk : Worker}
    (ht : w.tasks[t]? = some (.worker wk)) :
    ∃ wk', w'.tasks[t]? = some (.worker wk') ∧ wk'.peer = wk.peer
      ∧ wk'.reader.limit = wk.reader.limit := by
  refine hstep.worker_keeps
    (P := fun wk' => wk'.peer = wk.peer ∧ wk'.reader.limit = wk.reader.limit) ht ⟨rfl, rfl⟩ ?_
  intro c w₁ wk' hworker
  refine ⟨hworker.peer, ?_⟩
  cases hworker with
  | reads _ _ _ hnext | stops _ _ _ hnext _ | pauses _ _ _ hnext =>
      exact Framer.limit_of_next hnext
  | registers _ _ | starts _ _ | drops _ _ | quits _ _ | relays _ _ | unregisters _ _
  | leaves _ _ => rfl

theorem Holds.before (hstep : MoveStep (w₀.run moves) m (w₀.run (moves ++ [m])))
    (h : w₀.Holds (moves ++ [m]) t) : w₀.Holds moves t := by
  intro wk ht
  obtain ⟨wk', ht', hpeer, hlimit⟩ := keeps_limit hstep ht
  have hfit := h wk' ht'
  rw [hpeer, hlimit, show (stream wk.peer w₀ (moves ++ [m])).items
    = (stream wk.peer w₀ moves).items ++ given wk.peer (w₀.run moves) m from
      record_concat _ _ _ _, List.flatMap_append] at hfit
  exact hfit.of_append

/-- A connection of which nobody reads has all of its stream before it. -/
theorem unread_step (hunread : ∀ i, (w₀.run moves).inlet? k = some i → i = stream k w₀ moves)
    (hnobody : ∀ (t : TaskKey) (wk : Worker), (w₀.run moves).tasks[t]? = some (.worker wk) →
      wk.peer ≠ k) {i' : Inlet} (hi' : (w₀.run (moves ++ [m])).inlet? k = some i') :
    i' = stream k w₀ (moves ++ [m]) := by
  cases hi : (w₀.run moves).inlet? k with
  | some i =>
      obtain ⟨ds, hfeeds⟩ := exists_feeds (m := m) hi fun t wk _ => hnobody t wk
      cases (hfeeds.inlet hi).symm.trans hi'
      rw [hfeeds.stream, hunread i hi]
  | none =>
      have hitems := items_stream_of_none hi
      have hgiven : (w₀.run moves).given k m = i'.items := by
        rw [run_concat] at hi'
        simp [given, hi, hi']
      have hends : (stream k w₀ (moves ++ [m])).ends = i'.ends := by
        show ((w₀.run (moves ++ [m])).inlet? k).any (·.ends) = i'.ends
        rw [hi', Option.any_some]
      have hstream : (stream k w₀ (moves ++ [m])).items = i'.items := by
        show record (given k) w₀ (moves ++ [m]) = i'.items
        rw [record_concat, hgiven, show record (given k) w₀ moves = [] from hitems,
          List.nil_append]
      show Inlet.mk i'.items i'.ends = _
      rw [← hstream, ← hends]

/-- A worker that is told that its peer is not registered ends. -/
theorem tasks_of_refused {w : World} {wk : Worker} {c : Connection} {tk : Ticket}
    {e : RequestError} (ht : w.tasks[t]? = some (.worker wk))
    (hc : w.connections[wk.peer]? = some c) (hstage : wk.stage = .registering (.waiting tk))
    (hanswer : w.registry.answer? tk = some (.error e)) :
    (w.move (.turn t)).tasks[t]? = some (.worker { wk with stage := .finished .shutdown }) := by
  have hturn : w.turn t = some ((((w.note (.dropped c.peer.info e)).closePeer wk.peer).1).setTask t
      (.worker { wk with stage := .finished .shutdown })) := by
    simp [turn, ht, taskTurn, workerTurn, hc, hstage, callTurn, hanswer]
  rw [move, hturn, Option.getD_some, tasks_setTask, if_pos rfl, closePeer_eq,
    (onPeer_frame _ _ _).2.1]
  show (w.tasks[t]?).map _ = _
  rw [ht]
  rfl

/-- A task that begins, or goes on without a turn, relays nothing. -/
theorem relayed_of_none (h : (w₀.run (moves ++ [m])).broadcast? t = none) :
    relayed t w₀ (moves ++ [m]) = relayed t w₀ moves := by
  rw [run_concat] at h
  rw [relayed, record_concat, begun_of_none t h, List.append_nil]
  rfl

theorem relayed_of_eq (h : (w₀.run (moves ++ [m])).tasks[t]? = (w₀.run moves).tasks[t]?) :
    relayed t w₀ (moves ++ [m]) = relayed t w₀ moves := by
  have hsame : ((w₀.run moves).move m).broadcast? t = (w₀.run moves).broadcast? t := by
    rw [← run_concat, broadcast?, broadcast?, h]
  rw [relayed, record_concat, begun_of_eq hsame, List.append_nil]
  rfl

/-- Where a worker stands that was there before. -/
theorem SoleReader.relayedSoFar_stays (h : w₀.SoleReader moves t k) (hw : (w₀.run moves).Requests)
    (hstep : MoveStep (w₀.run moves) m (w₀.run (moves ++ [m])))
    (hsole : (w₀.run moves).Sole t k) {wk : Worker}
    (hidle : m = .turn t → w₀.run (moves ++ [m]) = w₀.run moves)
    (htask : (w₀.run (moves ++ [m])).tasks[t]? = (w₀.run moves).tasks[t]?)
    (ht : (w₀.run moves).tasks[t]? = some (.worker wk)) (hk : wk.peer = k) :
    w₀.RelayedSoFar (moves ++ [m]) t wk := by
  obtain ⟨p, hp⟩ := hw.workers ht
  obtain ⟨c, hc, -⟩ := Option.map_eq_some_iff.1 hp
  have hi := inlet?_of_connection hc
  have hfeeds : ∃ ds, w₀.Feeds moves m wk.peer ds := by
    by_cases hm : m = .turn t
    · refine ⟨[], feeds_nothing hi (by rw [hidle hm, hi]) ?_⟩
      rw [hm]
      exact fun _ => Move.noConfusion
    · refine exists_feeds hi ?_
      rintro t' wk' rfl ht' hk'
      rw [hsole t' wk' ht' (hk'.trans hk)] at hm
      exact hm rfl
  obtain ⟨ds, hfeeds⟩ := hfeeds
  refine (h.relayedSoFar wk ht hk).rests hstep hfeeds (relayed_of_eq htask) ?_
  intro hrefused
  rcases refused_concat hrefused with hrefused | ⟨rfl, wk₀, tk, e, ht₀, hstage, hanswer⟩
  · exact hrefused
  · -- a worker that is told does not stay
    cases ht.symm.trans ht₀
    have htold := tasks_of_refused ht hc hstage hanswer
    rw [← run_concat, htask, ht] at htold
    have hstage' := congrArg Worker.stage (Task.worker.inj (Option.some.inj htold))
    cases hstage.symm.trans hstage'

/-- Where a worker stands that begins. -/
theorem SoleReader.relayedSoFar_comes (h : w₀.SoleReader moves t k)
    (hstep : MoveStep (w₀.run moves) m (w₀.run (moves ++ [m])))
    (hsole : (w₀.run (moves ++ [m])).Sole t k) {wk : Worker}
    (hnone : (w₀.run moves).tasks[t]? = none)
    (ht : (w₀.run (moves ++ [m])).tasks[t]? = some (.worker wk)) (hk : wk.peer = k)
    (hbegins : (w₀.run (moves ++ [m])).Begins (.worker wk)) :
    w₀.RelayedSoFar (moves ++ [m]) t wk := by
  obtain ⟨hrelayed, hnot⟩ := h.absent hnone
  obtain ⟨p, hp, hwk⟩ := Option.map_eq_some_iff.1 hbegins
  obtain ⟨c, hc, -⟩ := Option.map_eq_some_iff.1 hp
  have hstage : wk.stage = .registering (.entering (.register ⟨p.info, wk.peer⟩)) := by
    rw [← hwk]
    rfl
  have hnobody : ∀ (t' : TaskKey) (wk' : Worker),
      (w₀.run moves).tasks[t']? = some (.worker wk') → wk'.peer ≠ k := by
    intro t' wk' ht' hk'
    rw [hsole.before hstep t' wk' ht' hk', hnone] at ht'
    cases ht'
  have hi := inlet?_of_connection hc
  have hinlet := unread_step (h.unread hnobody) hnobody (hk ▸ hi)
  have hbroadcast : (w₀.run (moves ++ [m])).broadcast? t = none := by
    rw [broadcast?_of_worker ht, ← hwk]
    rfl
  refine .enrols hstage ?_ ⟨?_, ?_, (relayed_of_none hbroadcast).trans hrelayed⟩
  · intro hrefused
    rcases refused_concat hrefused with hrefused | ⟨-, wk₀, tk, e, ht₀, -⟩
    · exact hnot hrefused
    · cases hnone.symm.trans ht₀
  · rw [hi, hinlet, hk]
  · rw [← hwk]
    rfl

theorem SoleReader.step (h : w₀.SoleReader moves t k) (hw : (w₀.run moves).Requests)
    (hstep : MoveStep (w₀.run moves) m (w₀.run (moves ++ [m])))
    (hsole : (w₀.run (moves ++ [m])).Sole t k) (hholds : w₀.Holds moves t) :
    w₀.SoleReader (moves ++ [m]) t k where
  absent := by
    intro hnone
    have hnone₀ : (w₀.run moves).tasks[t]? = none := by
      cases hstep.task t with
      | stays _ htask => exact htask ▸ hnone
      | arrives _ _ htask' | comes _ htask' _ _ | turns _ _ _ _ htask' =>
          cases htask'.symm.trans hnone
    obtain ⟨hrelayed, hnot⟩ := h.absent hnone₀
    refine ⟨(relayed_of_eq (hnone.trans hnone₀.symm)).trans hrelayed, ?_⟩
    intro hrefused
    rcases refused_concat hrefused with hrefused | ⟨-, wk₀, tk, e, ht₀, -⟩
    · exact hnot hrefused
    · cases hnone₀.symm.trans ht₀
  unread := by
    intro hnobody i hi
    have hnobody₀ : ∀ (t' : TaskKey) (wk : Worker),
        (w₀.run moves).tasks[t']? = some (.worker wk) → wk.peer ≠ k := by
      intro t' wk ht hk
      obtain ⟨wk', ht', hpeer⟩ := hstep.worker_stays ht
      exact hnobody t' wk' ht' (hpeer.trans hk)
    exact unread_step (h.unread hnobody₀) hnobody₀ hi
  relayedSoFar := by
    intro wk' ht' hk
    cases hstep.was ht' with
    | stays hidle ht =>
        exact h.relayedSoFar_stays hw hstep (hsole.before hstep) hidle (ht'.trans ht.symm) ht hk
    | begins hnone hbegins _ => exact h.relayedSoFar_comes hstep hsole hnone ht' hk hbegins
    | turns hm ht hturn hw' =>
        subst hm
        cases hturn with
        | worker hc hworker =>
            exact (h.relayedSoFar _ ht (hworker.peer ▸ hk)).turns ⟨hstep, ht, ht', hc, hw'⟩ hworker
              (hholds _ ht)

/-- In every world of a run, a worker that has its connection to itself has
relayed what it has read of it. -/
theorem soleReader_run (h₀ : w₀.IsNew) (hmoves : w₀.Permitted moves)
    (hsole : (w₀.run moves).Sole t k) (hholds : w₀.Holds moves t) : w₀.SoleReader moves t k := by
  revert hsole hholds
  refine run_induction (w := w₀)
    (P := fun moves => (w₀.run moves).Sole t k → w₀.Holds moves t → w₀.SoleReader moves t k)
    (fun _ _ => ⟨?_, ?_, ?_⟩) (fun {moves m} hmoves h hstep hsole hholds => ?_) hmoves
  · intro _
    refine ⟨rfl, ?_⟩
    rintro ⟨n, wk, tk, e, hm, -⟩
    cases hm
  · intro _ i hi
    have hnone : w₀.inlet? k = none := by rw [inlet?, h₀.connections]; rfl
    cases hnone.symm.trans hi
  · intro wk ht _
    obtain ⟨s, hs⟩ := h₀.tasks ht
    cases hs
  · exact (h (hsole.before hstep) (hholds.before hstep)).step (requests_run h₀.requests hmoves)
      hstep hsole (hholds.before hstep)

end Run

end World

end LineRelay
