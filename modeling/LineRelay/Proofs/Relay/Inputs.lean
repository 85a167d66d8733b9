/-
# What a connection is given to read

The read side of a connection changes in three ways: the connection
brings something, its other side supplies something more, and a worker
reads.  `InletChange` says which of them a move is.

What is brought and supplied in a run, in order, is the stream of the
connection (`World.stream`); what is left of it in a world is its read
side there.  A record of what each move of a run contributes, such as the
stream and the lines that a task begins to broadcast (`World.relayed`), is
a `World.record`.
-/
import LineRelay.Proofs.Framing.Breaks
import LineRelay.Proofs.Relay.Surveys

namespace LineRelay

namespace World

variable {w w' : World}

/-! ## Reading a read side after a change -/

/-- The read side of the connection `k`. -/
def inlet? (w : World) (k : PeerKey) : Option Inlet := w.connections[k]?.map (·.inlet)

theorem inlet?_of_connections (h : w'.connections = w.connections) (k : PeerKey) :
    w'.inlet? k = w.inlet? k := by
  rw [inlet?, inlet?, h]

@[simp] theorem inlet?_setPeer (w : World) (j k : PeerKey) (p : Peer) :
    (w.setPeer j p).inlet? k = w.inlet? k := by
  simp only [inlet?, setPeer, List.getElem?_modify]
  split_ifs <;> cases w.connections[k]? <;> rfl

theorem inlet?_setInlet (w : World) (j k : PeerKey) (i : Inlet) :
    (w.setInlet j i).inlet? k = if k = j then (w.inlet? j).map fun _ => i else w.inlet? k := by
  simp only [inlet?, setInlet, List.getElem?_modify]
  split_ifs with h h' h'
  · subst h
    cases w.connections[j]? <;> rfl
  · exact absurd h.symm h'
  · exact absurd h'.symm h
  · cases w.connections[k]? <;> rfl

theorem inlet?_connect (w : World) (c : Connection) (k : PeerKey) :
    (w.connect c).inlet? k = if k = w.connections.length then some c.inlet else w.inlet? k := by
  rcases Nat.lt_trichotomy k w.connections.length with h | rfl | h
  · rw [if_neg h.ne]
    simp [inlet?, connect, List.getElem?_append_left h]
  · simp [inlet?, connect]
  · rw [if_neg h.ne']
    have hnone : (w.connections ++ [c])[k]? = none := List.getElem?_eq_none (by simpa using h)
    simp [inlet?, connect, hnone, List.getElem?_eq_none h.le]

@[simp] theorem inlet?_onPeer (w : World) (j k : PeerKey) (f : Peer → Peer) :
    (w.onPeer j f).inlet? k = w.inlet? k := by
  unfold onPeer
  cases w.peer? j with
  | none => rfl
  | some p => exact inlet?_setPeer w j k _

@[simp] theorem inlet?_closePeer (w : World) (j k : PeerKey) :
    (w.closePeer j).1.inlet? k = w.inlet? k := by
  rw [closePeer_eq, inlet?_onPeer]

theorem inlet?_of_connection {k : PeerKey} {c : Connection} (h : w.connections[k]? = some c) :
    w.inlet? k = some c.inlet := by
  rw [inlet?, h]
  rfl

end World

/-! ## What a move does to a read side -/

theorem BroadcastStep.inlet? {w w' : World} {me : TaskKey} {b b' : Broadcast}
    (h : BroadcastStep w me b w' b') (k : PeerKey) : w'.inlet? k = w.inlet? k := by
  cases h with
  | asks _ _ | skips _ _ | learns _ _ | misses _ _ | prunes _ _ | pruned _ _ => rfl
  | sends _ _ _ _ | settles _ _ _ _ => exact World.inlet?_setPeer w _ k _
  | fails _ _ _ =>
      rw [World.inlet?_closePeer]
      exact World.inlet?_setPeer w _ k _

/-- What a move gives to the connection `k` to read: what a new connection
brings, or what its other side supplies. -/
def World.given (k : PeerKey) (w : World) (m : Move) : List Delivery :=
  match w.inlet? k, m with
  | none, m => ((w.move m).inlet? k).elim [] (·.items)
  | some _, .supply j d => if j = k then d.reads else []
  | some _, _ => []

/-- What the move `m` does to the read side of the connection `k`. -/
inductive InletChange (w : World) (m : Move) (w' : World) (k : PeerKey) : Prop
  | stays : w'.inlet? k = w.inlet? k → w.given k m = [] → InletChange w m w' k
  | comes {i : Inlet} : w.inlet? k = none → w'.inlet? k = some i → w.given k m = i.items →
      InletChange w m w' k
  | supplied {i : Inlet} {d : Delivery} : m = .supply k d → w.inlet? k = some i →
      w'.inlet? k = some (i.supply d) → w.given k m = d.reads → InletChange w m w' k
  | read {t : TaskKey} {wk : Worker} {result : ReadResult} {reader : Framer} {i i' : Inlet} :
      m = .turn t → w.tasks[t]? = some (.worker wk) → wk.peer = k → w.inlet? k = some i →
      wk.reader.next i = (result, reader, i') → w'.inlet? k = some i' → w.given k m = [] →
      InletChange w m w' k

namespace World

variable {w : World} {m : Move} {k : PeerKey}

/-- A connection that stays as it is is given nothing. -/
theorem inletChange_of_eq (hm : ∀ d, m ≠ .supply k d) (h : (w.move m).inlet? k = w.inlet? k) :
    InletChange w m (w.move m) k := by
  refine .stays h ?_
  cases hi : w.inlet? k with
  | none => simp [given, hi, h]
  | some i =>
      cases m with
      | supply j d =>
          have hj : j ≠ k := fun e => hm d (by rw [e])
          simp [given, hi, hj]
      | serve _ | turn _ | wake _ | answer _ _ | arrive _ _ | shutdown | elapse _ | stopRegistry
      | connect _ | spawn _ | close _ | fire _ | request _ => simp [given, hi]

/-- A connection that is not there before a move brings what it has. -/
theorem inletChange_of_comes {i : Inlet} (hnone : w.inlet? k = none)
    (h : (w.move m).inlet? k = some i) : InletChange w m (w.move m) k :=
  .comes hnone h (by simp [given, hnone, h])

theorem inletChange_of_connect {w₁ : World} {c : Connection} (hm : ∀ d, m ≠ .supply k d)
    (h : (w.move m).inlet? k = (w₁.connect c).inlet? k) (hw : w₁.connections = w.connections) :
    InletChange w m (w.move m) k := by
  rw [inlet?_connect, hw, inlet?_of_connections hw] at h
  split_ifs at h with hk
  · refine inletChange_of_comes ?_ h
    rw [inlet?, hk, List.getElem?_eq_none (Nat.le_refl _)]
    rfl
  · exact inletChange_of_eq hm h

/-- What the turn of a worker does to a read side. -/
theorem inletChange_of_worker {t : TaskKey} {wk wk' : Worker} {c : Connection} {w₁ : World}
    (ht : w.tasks[t]? = some (.worker wk)) (hc : w.connections[wk.peer]? = some c)
    (hstep : WorkerStep w t wk c w₁ wk')
    (hw : ∀ k, (w.move (.turn t)).inlet? k = w₁.inlet? k) (k : PeerKey) :
    InletChange w (.turn t) (w.move (.turn t)) k := by
  have hi := inlet?_of_connection hc
  have hstays : w₁.inlet? k = w.inlet? k → InletChange w (.turn t) (w.move (.turn t)) k :=
    fun h => inletChange_of_eq (fun _ => Move.noConfusion) ((hw k).trans h)
  -- a worker that reads leaves the other connections alone
  have hread : ∀ {result : ReadResult} {reader : Framer} {i : Inlet},
      wk.reader.next c.inlet = (result, reader, i) →
      w₁.inlet? k = (w.setInlet wk.peer i).inlet? k →
      InletChange w (.turn t) (w.move (.turn t)) k := by
    intro result reader i hnext hw₁
    rw [inlet?_setInlet, hi] at hw₁
    split_ifs at hw₁ with hk
    · subst hk
      exact .read rfl ht rfl hi hnext ((hw _).trans hw₁) (by simp [given, hi])
    · exact hstays hw₁
  cases hstep with
  | registers _ _ | starts _ _ | quits _ _ | unregisters _ _ => exact hstays rfl
  | drops _ _ | leaves _ _ => exact hstays (inlet?_closePeer _ _ _)
  | relays _ hbroadcast => exact hstays (hbroadcast.inlet? k)
  | reads _ _ _ hnext | stops _ _ _ hnext _ | pauses _ _ _ hnext => exact hread hnext rfl

theorem inletChange_serve (w : World) (rank : PeerId → Nat) (k : PeerKey) :
    InletChange w (.serve rank) (w.move (.serve rank)) k := by
  refine inletChange_of_eq (fun _ => Move.noConfusion) (inlet?_of_connections ?_ k)
  simp only [move, serve]
  cases w.registry.serve rank with
  | none => rfl
  | some served =>
      obtain ⟨r, change⟩ := served
      cases change with
      | none => rfl
      | some e => cases e <;> rfl

theorem inletChange_turn (w : World) (t : TaskKey) (k : PeerKey) :
    InletChange w (.turn t) (w.move (.turn t)) k := by
  cases hturn : w.turn t with
  | none =>
      refine inletChange_of_eq (fun _ => Move.noConfusion) (inlet?_of_connections ?_ k)
      rw [move, hturn]
      rfl
  | some w' =>
      obtain ⟨task, w₁, task', ht, hstep, rfl⟩ := taskStep_of_turn hturn
      have hw : ∀ k, (w.move (.turn t)).inlet? k = w₁.inlet? k := by
        intro k
        rw [move, hturn]
        rfl
      have hstays : w₁.inlet? k = w.inlet? k → InletChange w (.turn t) (w.move (.turn t)) k :=
        fun h => inletChange_of_eq (fun _ => Move.noConfusion) ((hw k).trans h)
      cases hstep with
      | send _ _ => exact hstays (inlet?_setPeer w _ k _)
      | awaited _ _ => exact hstays rfl
      | broadcast hbroadcast => exact hstays (hbroadcast.inlet? k)
      | worker hc hworker => exact inletChange_of_worker ht hc hworker hw k
      | monitor hmonitor => cases hmonitor <;> exact hstays rfl
      | server hserver =>
          cases hserver with
          | starts _ | ends _ _ | misses _ _ _ | joins _ _ => exact hstays rfl
          | accepts _ _ _ => exact inletChange_of_connect (fun _ => Move.noConfusion) (hw k) rfl

theorem inletChange_supply (w : World) (j : PeerKey) (d : Delivery) (k : PeerKey) :
    InletChange w (.supply j d) (w.move (.supply j d)) k := by
  rcases eq_or_ne j k with rfl | hne
  · cases hc : w.connections[j]? with
    | none =>
        refine .stays (inlet?_of_connections ?_ j) ?_
        · simp [move, supply, hc]
        · simp [given, inlet?, move, supply, hc]
    | some c =>
        have hi := inlet?_of_connection hc
        refine .supplied rfl hi ?_ (by simp [given, hi])
        simp only [move, supply, hc]
        rw [inlet?_setInlet, if_pos rfl, hi]
        rfl
  · refine inletChange_of_eq (fun _ e => hne (Move.supply.inj e).1) ?_
    simp only [move, supply]
    cases w.connections[j]? with
    | none => rfl
    | some c =>
        show (w.setInlet j (c.inlet.supply d)).inlet? k = _
        rw [inlet?_setInlet, if_neg hne.symm]

/-- A move lets a connection be, brings it, supplies it or reads from it. -/
theorem inletChange_move (w : World) (m : Move) (k : PeerKey) :
    InletChange w m (w.move m) k := by
  cases m with
  | serve rank => exact inletChange_serve w rank k
  | turn t => exact inletChange_turn w t k
  | supply j d => exact inletChange_supply w j d k
  | connect c => exact inletChange_of_connect (fun _ => Move.noConfusion) rfl rfl
  | arrive t a =>
      refine inletChange_of_eq (fun _ => Move.noConfusion) (inlet?_of_connections ?_ k)
      simp only [move, arrive]
      split <;> rfl
  | request c =>
      refine inletChange_of_eq (fun _ => Move.noConfusion) (inlet?_of_connections ?_ k)
      simp only [move, request]
      split_ifs <;> rfl
  | wake j | answer j a | fire j =>
      exact inletChange_of_eq (fun _ => Move.noConfusion) (inlet?_onPeer w j k _)
  | close j => exact inletChange_of_eq (fun _ => Move.noConfusion) (inlet?_closePeer w j k)
  | shutdown | elapse _ | stopRegistry | spawn _ =>
      exact inletChange_of_eq (fun _ => Move.noConfusion) rfl

/-! ## Records of a run -/

/-- What the moves of a run contribute, one after the other. -/
def record {α : Type} (f : World → Move → List α) : World → List Move → List α
  | _, [] => []
  | w, m :: moves => f w m ++ record f (w.move m) moves

theorem record_concat {α : Type} (f : World → Move → List α) (w : World) (moves : List Move)
    (m : Move) : record f w (moves ++ [m]) = record f w moves ++ f (w.run moves) m := by
  induction moves generalizing w with
  | nil => simp [record, run]
  | cons m' moves ih =>
      rw [List.cons_append, record, record, ih, List.append_assoc]
      rfl

/-- The whole stream of the connection `k`: what it was given to read in a
run, and whether it ends of itself. -/
def stream (k : PeerKey) (w : World) (moves : List Move) : Inlet where
  items := record (given k) w moves
  ends := ((w.run moves).inlet? k).any (·.ends)

/-- A connection that is there is given something to read by its other side
only. -/
theorem given_of_inlet? {i : Inlet} (hi : w.inlet? k = some i) (hm : ∀ d, m ≠ .supply k d) :
    w.given k m = [] := by
  cases inletChange_move w m k with
  | stays _ hgiven | read _ _ _ _ _ _ hgiven => exact hgiven
  | comes hnone _ _ => cases hnone.symm.trans hi
  | supplied hm' _ _ _ => exact absurd hm' (hm _)

/-- A connection that is not there was given nothing. -/
theorem items_stream_of_none {moves : List Move} (hnone : (w.run moves).inlet? k = none) :
    (stream k w moves).items = [] := by
  induction moves using List.reverseRecOn with
  | nil => rfl
  | append_singleton moves m ih =>
      rw [run_concat] at hnone
      have hgiven : (w.run moves).inlet? k = none ∧ (w.run moves).given k m = [] := by
        cases inletChange_move (w.run moves) m k with
        | stays hsame hgiven => exact ⟨hsame ▸ hnone, hgiven⟩
        | comes _ hi _ | supplied _ _ hi _ | read _ _ _ _ _ hi _ => cases hi.symm.trans hnone
      show record (given k) w (moves ++ [m]) = []
      rw [record_concat, hgiven.2, List.append_nil]
      exact ih hgiven.1

/-- What a move that gives `ds` makes of the stream of a connection that is
there. -/
theorem stream_concat {moves : List Move} {i i' : Inlet} (hi : (w.run moves).inlet? k = some i)
    (hi' : (w.run (moves ++ [m])).inlet? k = some i') (hends : i'.ends = i.ends)
    {ds : List Delivery} (hgiven : (w.run moves).given k m = ds) :
    stream k w (moves ++ [m])
      = ⟨(stream k w moves).items ++ ds, (stream k w moves).ends⟩ := by
  unfold stream
  rw [record_concat, hgiven, hi, hi', Option.any_some, Option.any_some, hends]

/-- The line whose broadcast the task `t` begins in a move. -/
def begun (t : TaskKey) (w : World) (m : Move) : List Line :=
  match w.broadcast? t, (w.move m).broadcast? t with
  | none, some b => [b.line]
  | _, _ => []

/-- The lines whose broadcasts the task `t` begins in a run, in order. -/
def relayed (t : TaskKey) (w : World) (moves : List Move) : List Line := record (begun t) w moves

theorem begun_of_none (t : TaskKey) (h : (w.move m).broadcast? t = none) : w.begun t m = [] := by
  unfold begun
  rw [h]
  cases w.broadcast? t <;> rfl

theorem begun_of_some {t : TaskKey} {b : Broadcast} (h : w.broadcast? t = some b) :
    w.begun t m = [] := by
  simp [begun, h]

theorem begun_of_begins {t : TaskKey} {b : Broadcast} (h : w.broadcast? t = none)
    (h' : (w.move m).broadcast? t = some b) : w.begun t m = [b.line] := by
  simp [begun, h, h']

theorem begun_of_eq {t : TaskKey} (h : (w.move m).broadcast? t = w.broadcast? t) :
    w.begun t m = [] := by
  cases hb : w.broadcast? t with
  | none => exact begun_of_none t (h.trans hb)
  | some b => exact begun_of_some hb

end World

end LineRelay
