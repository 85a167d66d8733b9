/-
# A peer is pruned once

A broadcast that cannot write to a peer closes it before it waits for anything
else, which is one turn.  So those who wait for the outlet see the close signal
when it is handed to them, and those who come later see it at once.
For a peer `k` and any number of broadcasts that are under way together,
whether they wait for `k` or still have it before them (`PrunedOnce`):

| | |
| :-- | :-- |
| `traced` | what broadcasts have counted they counted with the moves |
| `listed` | what a broadcast reports is part of it |
| `answered` | an attempt that failed, and no other, was answered true by `close` |
| `fenced` | after an attempt on `k` has failed, its transport receives nothing more |
| `later` | and all attempts on `k` find it closed |
| `once` | all broadcasts together have counted one failed attempt on `k`, or none |

Nothing is asked of those who write to `k` beside the broadcasts: whoever they
are, they are fenced off too.
-/
import LineRelay.Proofs.Relay.Tally

namespace LineRelay

/-- Whether the peer `k` is counted as pruned. -/
def Counted.prunes (k : PeerKey) (c : Counted) : Bool :=
  c.attempt.peer = k && Broadcast.isPrune c.attempt

/-! ## One attempt -/

section

variable {w : World} {m : Move} {c : Counted} {p : Peer}

/-- An attempt is counted when its send comes back. -/
theorem World.Counts.returns (h : w.Counts m c) :
    w.Returns c.task c.attempt.peer m c.attempt.outcome := by
  cases h with
  | settles hb hstage hp hturn _ | fails hb hstage hp hturn =>
      exact ⟨_, _, _, rfl, World.send?_eq_some.2 (.inr ⟨_, _, hb, hstage⟩), hp, hturn⟩

/-- Once the signal of a peer has fired, all attempts on it find it closed. -/
theorem World.Counts.eq_closed (h : w.Counts m c) (hp : w.peer? c.attempt.peer = some p)
    (hsignalled : p.signalled w.shutdown = true) : c.attempt.outcome = .closed := by
  obtain ⟨state, p', q, -, -, hp', hturn⟩ := h.returns
  cases hp'.symm.trans hp
  exact (Peer.sendStep_of_sendTurn hturn).eq_closed hsignalled

/-- A failed attempt on a peer that is open unless its signal has fired closes
the peer. -/
theorem World.Counts.closes (h : w.Counts m c) (hprune : Broadcast.isPrune c.attempt = true)
    (hclosed : ∀ {p}, w.peer? c.attempt.peer = some p → p.closed = true → p.fired = true) :
    c.attempt.closedIt = true ∧ ∃ r, w.CallsClose c.attempt.peer m r := by
  cases h with
  | @settles t b k state rest p q outcome _ _ _ _ hopen =>
      cases outcome with
      | failed f => exact absurd rfl (hopen f)
      | sent | closed => cases hprune
  | @fails t b k state rest p r f hb hstage hp hturn =>
      have hsend := Peer.sendStep_of_sendTurn hturn
      have hquiet := hsend.quiet (by simp) fun _ => SendState.noConfusion
      have hopen : r.closed = false := by
        rw [hsend.frame.2.2.1]
        by_contra h
        have hfired := hclosed hp (Bool.of_not_eq_false h)
        simp [Peer.signalled, hfired] at hquiet
      exact ⟨by rw [Peer.close_snd, hopen]; rfl, r, .prunes hb hstage hp hturn⟩

end

/-! ## Runs -/

section

variable {w₀ : World} {moves : List Move} {k : PeerKey} {n j : Nat} {m : Move} {c : Counted}

/-- After a failed attempt on a peer its signal has fired, and the attempt was
answered so. -/
theorem prune_signals (h₀ : w₀.IsNew) (hmoves : w₀.Permitted moves)
    (hopen : ∀ c, .connect c ∈ moves → c.peer.closed = false) (hm : moves[n]? = some m)
    (hcounts : (w₀.after moves n).Counts m c) (hprune : Broadcast.isPrune c.attempt = true) :
    c.attempt.closedIt = true
      ∧ ∃ q, (w₀.after moves (n + 1)).peer? c.attempt.peer = some q
        ∧ q.signalled (w₀.after moves (n + 1)).shutdown = true := by
  obtain ⟨hanswer, r, hcall⟩ := hcounts.closes hprune (fired_of_closed h₀ hmoves hopen)
  exact ⟨hanswer, signalled_of_call h₀ hmoves hopen hm hcall⟩

/-- A failed attempt on `k` is the last but for those that find it closed. -/
theorem prune_last (h₀ : w₀.IsNew) (hmoves : w₀.Permitted moves)
    (hopen : ∀ c, .connect c ∈ moves → c.peer.closed = false) (hm : moves[n]? = some m)
    (hcounts : (w₀.after moves n).Counts m c) (hprune : c.prunes k = true) (hj : n < j)
    {m' : Move} {c' : Counted} (hcounts' : (w₀.after moves j).Counts m' c')
    (hpeer : c'.attempt.peer = k) : c'.attempt.outcome = .closed := by
  simp only [Counted.prunes, Bool.and_eq_true, decide_eq_true_eq] at hprune
  obtain ⟨rfl, hprune⟩ := hprune
  obtain ⟨-, p, hp, hsignalled⟩ := prune_signals h₀ hmoves hopen hm hcounts hprune
  have hages := World.ages_run (k := c.attempt.peer) hmoves hj
  obtain ⟨q, hq, hlasts, -, -⟩ := hages.peer hp
  exact hcounts'.eq_closed (hpeer ▸ hq) (hlasts.signalled hages.shutdown hsignalled)

/-- All broadcasts together count at most one failed attempt on `k`. -/
theorem prunes_le_one (h₀ : w₀.IsNew) (hnew : w₀.tally = []) (hmoves : w₀.Permitted moves)
    (hopen : ∀ c, .connect c ∈ moves → c.peer.closed = false) :
    (w₀.run moves).tally.countP (Counted.prunes k) ≤ 1 := by
  revert hopen
  refine World.run_induction (w := w₀) (P := fun moves =>
      (∀ c, .connect c ∈ moves → c.peer.closed = false) →
      (w₀.run moves).tally.countP (Counted.prunes k) ≤ 1)
    (fun _ => ?_) (fun {moves m} hmoves ih hstep hopen => ?_) hmoves
  · rw [World.run, List.foldl_nil, hnew]
    exact Nat.zero_le 1
  · have hopen₀ : ∀ c, Move.connect c ∈ moves → c.peer.closed = false := fun c hc =>
      hopen c (List.mem_append_left _ hc)
    rcases hstep.tally (World.run_concat _ _ _) (World.requests_run h₀.requests hmoves) with
      hsame | ⟨c, hcounts, hmore⟩
    · rw [hsame.countP_eq]
      exact ih hopen₀
    · rw [hmore.countP_eq, List.countP_append, List.countP_singleton]
      split_ifs with hprune
      · -- an earlier one would have closed the peer
        refine Nat.le_of_eq (Nat.add_eq_right.2 (List.countP_eq_zero.2 fun c' hc' hprune' => ?_))
        obtain ⟨n, m', hm', hcounts'⟩ := tally_run h₀.requests hnew hmoves hc'
        have hn := (List.getElem?_eq_some_iff.1 hm').1
        simp only [Counted.prunes, Bool.and_eq_true, decide_eq_true_eq] at hprune
        have hclosed := prune_last h₀ hmoves hopen₀ hm' hcounts' hprune' hn
          (by rwa [World.after_length]) hprune.1
        simp [Broadcast.isPrune, hclosed] at hprune
      · exact ih hopen₀

/-- What a broadcast has counted is in the tally, also when it is over. -/
theorem counted_sublist_run (h₀ : w₀.IsNew) (hmoves : w₀.Permitted moves) {t : TaskKey}
    {b : Broadcast} (hb : (w₀.run moves).broadcast? t = some b) :
    (b.counted t).Sublist (w₀.run moves).tally := by
  cases hover : b.isOver with
  | false =>
      obtain ⟨task, ht, hb⟩ := Option.bind_eq_some_iff.1 hb
      refine List.Sublist.trans ?_ (List.sublist_append_right _ _)
      have hcounted : b.counted t = task.counted t := by simp [Task.counted, hb, hover]
      rw [hcounted]
      exact List.sublist_flatten_of_mem
        (List.mem_map.2 ⟨(task, t), List.mem_zipIdx_iff_getElem?.2 ht, rfl⟩)
  | true =>
      refine List.Sublist.trans ?_ (List.sublist_append_left _ _)
      refine World.broadcast_induction h₀
        (P := fun moves t b => b.isOver = true → (b.counted t).Sublist (w₀.run moves).reported)
        (fun hbegins hover => ?_) (fun _ hstep _ _ ih hover => ?_)
        (fun _ _ _ hturn hw' _ hover => ?_) hmoves hb hover
      · rw [hbegins] at hover
        cases hover
      · refine (ih hover).trans ?_
        cases hstep.tallyChange with
        | keeps hreported _ => rw [hreported]
        | steps _ _ _ _ hreported _ =>
            rw [hreported]
            exact List.sublist_append_left _ _
      · have hreported := hturn.reported
        rw [if_pos hover] at hreported
        rw [hw']
        exact hreported ▸ List.sublist_append_right _ _

end

/-- What failed attempts on the peer `k` come to in a run. -/
structure PrunedOnce (w₀ : World) (moves : List Move) (k : PeerKey) : Prop where
  traced : ∀ {c : Counted}, c ∈ (w₀.run moves).tally →
    ∃ n m, moves[n]? = some m ∧ (w₀.after moves n).Counts m c
  listed : ∀ {t : TaskKey} {b : Broadcast}, (w₀.run moves).broadcast? t = some b →
    (b.counted t).Sublist (w₀.run moves).tally
  answered : ∀ {n : Nat} {m : Move} {c : Counted}, moves[n]? = some m →
    (w₀.after moves n).Counts m c → c.attempt.closedIt = Broadcast.isPrune c.attempt
  fenced : ∀ {n j : Nat} {m : Move} {c : Counted}, moves[n]? = some m →
    (w₀.after moves n).Counts m c → c.prunes k = true → n < j →
    ∃ p q, (w₀.after moves (n + 1)).peer? k = some p ∧ (w₀.after moves j).peer? k = some q
      ∧ p.Silent q
  later : ∀ {n n' : Nat} {m m' : Move} {c c' : Counted}, moves[n]? = some m →
    (w₀.after moves n).Counts m c → c.prunes k = true → n < n' → moves[n']? = some m' →
    (w₀.after moves n').Counts m' c' → c'.attempt.peer = k → c'.attempt.outcome = .closed
  once : (w₀.run moves).tally.countP (Counted.prunes k) ≤ 1

/-- However broadcasts come together, a failed write to a peer fences it off and
is counted once. -/
theorem prunes_once {moves : List Move} (hmoves : ({} : World).Permitted moves)
    (hopen : ∀ c, .connect c ∈ moves → c.peer.closed = false) (k : PeerKey) :
    PrunedOnce {} moves k := by
  have h₀ := World.isNew_empty
  refine ⟨tally_run h₀.requests rfl hmoves, counted_sublist_run h₀ hmoves, ?_, ?_, ?_,
    prunes_le_one h₀ rfl hmoves hopen⟩
  · intro n m c hm hcounts
    cases hprune : Broadcast.isPrune c.attempt with
    | true => exact (prune_signals h₀ hmoves hopen hm hcounts hprune).1
    | false =>
        cases hcounts with
        | settles _ _ _ _ _ => rfl
        | fails _ _ _ _ => cases hprune
  · intro n j m c hm hcounts hprune hj
    simp only [Counted.prunes, Bool.and_eq_true, decide_eq_true_eq] at hprune
    obtain ⟨rfl, hprune⟩ := hprune
    obtain ⟨-, p, hp, hsignalled⟩ := prune_signals h₀ hmoves hopen hm hcounts hprune
    obtain ⟨q, hq, -, -, hsilent⟩ := (World.ages_run hmoves hj).peer hp
    exact ⟨p, q, hp, hq, hsilent hsignalled⟩
  · intro n n' m m' c c' hm hcounts hprune hn _ hcounts' hpeer
    exact prune_last h₀ hmoves hopen hm hcounts hprune hn hcounts' hpeer

/-- Two broadcasts come to the same peer.  The first has written one byte when
the transport stalls, and fails when it goes on; the second waits meanwhile. -/
def overtaken : List Move :=
  let line := Line.ofBytes [104, 105]
  [.connect ⟨{ info := ⟨⟨1⟩, ⟨"peer"⟩, 0⟩, outlet := { transport :=
      { writes := [.takes 1, .stalls, .fails ⟨.brokenPipe, none⟩] } } }, .silent⟩,
    .request (.register ⟨⟨⟨1⟩, ⟨"peer"⟩, 0⟩, 0⟩), .serve World.byId,
    .spawn (.broadcast (.begin 0 ⟨8⟩ line)), .spawn (.broadcast (.begin 0 ⟨9⟩ line)),
    .turn 0, .turn 1, .serve World.byId, .serve World.byId, .turn 0, .turn 1,
    .turn 0, .turn 1, .wake 0, .turn 0, .turn 1, .turn 0, .serve World.byId, .turn 0]

/-- In `overtaken` the first broadcast prunes the peer, the second finds it
closed, and the byte that had gone out is the last. -/
theorem prunes_once_overtaken : ({} : World).Permitted overtaken
    ∧ (∀ c, .connect c ∈ overtaken → c.peer.closed = false)
    ∧ PrunedOnce {} overtaken 0
    ∧ (World.run {} overtaken).tally
        = [⟨1, 0, ⟨0, .closed, false⟩⟩, ⟨0, 0, ⟨0, .failed ⟨.brokenPipe, none⟩, true⟩⟩]
    ∧ ((World.run {} overtaken).peer? 0).map (fun p => (p.received, p.outlet.buffer))
        = some ([104], [105, 10]) := by
  have hmoves : ({} : World).Permitted overtaken := by decide +kernel
  have hopen : ∀ c, .connect c ∈ overtaken → c.peer.closed = false :=
    forall_connections (by decide)
  refine ⟨hmoves, hopen, prunes_once hmoves hopen 0, ?_⟩
  decide +kernel

end LineRelay
