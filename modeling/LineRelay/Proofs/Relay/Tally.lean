/-
# What broadcasts count

A broadcast counts a send when it comes back, and if the send has failed,
`close` has answered by then.  The tally of a world is what all broadcasts
have counted so far: those that are over, as they were noted down, and those
that are under way.  Every move leaves the tally as it is, or adds the one
attempt that a broadcast counts with it (`MoveStep.tally`), so that the tally
of a run is what its moves have counted (`tally_run`).
-/
import LineRelay.Proofs.Relay.Closing

namespace LineRelay

/-- An attempt, and the broadcast that has counted it: the `serial`-th of the
task. -/
structure Counted where
  task : TaskKey
  serial : Nat
  attempt : Attempt
deriving DecidableEq

/-- What a broadcast of the task `t` has counted. -/
def Broadcast.counted (b : Broadcast) (t : TaskKey) : List Counted :=
  b.attempts.map (⟨t, b.serial, ·⟩)

/-- What the broadcast had counted of which a note says that it is over. -/
def Note.counted : Note → List Counted
  | .delivered t serial _ attempts => attempts.map (⟨t, serial, ·⟩)
  | _ => []

/-- What the broadcast has counted that the task `t` is making.  When it is
over, a note says so. -/
def Task.counted (task : Task) (t : TaskKey) : List Counted :=
  match task.broadcast? with
  | some b => if b.isOver then [] else b.counted t
  | none => []

namespace World

/-- What broadcasts that are over had counted. -/
def reported (w : World) : List Counted := w.journal.flatMap Note.counted

/-- What broadcasts have counted that are under way. -/
def pending (w : World) : List Counted := w.tasks.zipIdx.flatMap fun x => x.1.counted x.2

/-- All that broadcasts have counted. -/
def tally (w : World) : List Counted := w.reported ++ w.pending

/-- With the move `m` a broadcast counts an attempt: its send comes back, and
if it has failed, `close` answers. -/
inductive Counts (w : World) : Move → Counted → Prop
  | settles {t : TaskKey} {b : Broadcast} {k : PeerKey} {state : SendState} {rest : List PeerKey}
      {p q : Peer} {outcome : SendOutcome} : w.broadcast? t = some b →
      b.stage = .sending k state rest → w.peer? k = some p →
      p.sendTurn t w.shutdown state = some (q, .ended outcome) → (∀ f, outcome ≠ .failed f) →
      w.Counts (.turn t) ⟨t, b.serial, ⟨k, outcome, false⟩⟩
  | fails {t : TaskKey} {b : Broadcast} {k : PeerKey} {state : SendState} {rest : List PeerKey}
      {p r : Peer} {f : Failure} : w.broadcast? t = some b →
      b.stage = .sending k state rest → w.peer? k = some p →
      p.sendTurn t w.shutdown state = some (r, .ended (.failed f)) →
      w.Counts (.turn t) ⟨t, b.serial, ⟨k, .failed f, r.close.2⟩⟩

end World

/-! ## Reading the tally -/

section

variable {w w' w₁ : World} {m : Move} {t : TaskKey} {b b' : Broadcast} {task task' : Task}
  {c : Counted}

namespace World

@[simp] theorem reported_noted (w : World) (ns : List Note) :
    (w.noted ns).reported = w.reported ++ ns.flatMap Note.counted := List.flatMap_append

@[simp] theorem reported_closePeer (w : World) (k : PeerKey) :
    (w.closePeer k).1.reported = w.reported := by
  rw [closePeer_eq, reported, (onPeer_frame w k _).2.2.1, reported]

/-- Notes of another kind leave what was reported. -/
theorem reported_noted_of_forall {ns : List Note} (h : ∀ n ∈ ns, n.counted = []) :
    (w.noted ns).reported = w.reported := by
  rw [reported_noted, List.flatMap_eq_nil_iff.2 h, List.append_nil]

theorem pending_concat (htasks : w'.tasks = w.tasks ++ [task]) (htask : ∀ t, task.counted t = []) :
    w'.pending = w.pending := by
  rw [pending, htasks, List.zipIdx_append, List.flatMap_append]
  simp [pending, htask]

theorem pending_setTask (htask : w.tasks[t]? = some task) (task' : Task) :
    ((w.setTask t task').pending ++ task.counted t).Perm (w.pending ++ task'.counted t) := by
  obtain ⟨ht, rfl⟩ := List.getElem?_eq_some_iff.1 htask
  have hlength : (w.tasks.take t).length = t := List.length_take_of_le ht.le
  have hpending : ∀ task : Task,
      (w.tasks.take t ++ task :: w.tasks.drop (t + 1)).zipIdx.flatMap (fun x => x.1.counted x.2)
        = (w.tasks.take t).zipIdx.flatMap (fun x => x.1.counted x.2) ++ (task.counted t
          ++ ((w.tasks.drop (t + 1)).zipIdx (t + 1)).flatMap fun x => x.1.counted x.2) := by
    intro task
    rw [List.zipIdx_append, List.flatMap_append, hlength, List.zipIdx_cons, List.flatMap_cons,
      Nat.zero_add]
  have hbefore := hpending w.tasks[t]
  rw [← List.drop_eq_getElem_cons ht, List.take_append_drop] at hbefore
  rw [pending, pending, setTask, List.set_eq_take_append_cons_drop, if_pos ht, hpending, hbefore,
    List.perm_iff_count]
  intro c
  simp only [List.count_append]
  omega

end World

theorem Task.counted_eq_nil (h : ∀ b, task.broadcast? = some b → b.attempts = []) (t : TaskKey) :
    task.counted t = [] := by
  unfold Task.counted
  cases hb : task.broadcast? with
  | none => rfl
  | some b => simp [Broadcast.counted, h b hb]

theorem World.Begins.counted (h : w.Begins task) (t : TaskKey) : task.counted t = [] :=
  Task.counted_eq_nil (fun b hb => by rw [h.broadcast? hb]; rfl) t

/-! ## One step -/

/-- What is noted when a broadcast has been through all targets is what it has
counted. -/
theorem Broadcast.flatMap_closing (b : Broadcast) (t : TaskKey) (rest : List PeerKey) :
    (b.closing t rest).flatMap Note.counted
      = if (b.onward rest).isOver then (b.onward rest).counted t else [] := by
  cases rest with
  | nil => simp [Broadcast.closing, Broadcast.onward, Broadcast.isOver, Note.counted,
      Broadcast.counted]
  | cons k rest => simp [Broadcast.closing, Broadcast.onward, Broadcast.isOver]

theorem BroadcastStep.reported (h : BroadcastStep w t b w₁ b') :
    w₁.reported = w.reported ++ if b'.isOver then b'.counted t else [] := by
  cases h with
  | asks _ _ | sends _ _ _ _ | prunes _ _ => exact (List.append_nil _).symm
  | fails _ _ _ =>
      rw [World.reported_closePeer, World.reported_noted]
      rfl
  | skips _ _ =>
      rw [World.reported_noted, List.flatMap_cons, Broadcast.flatMap_closing]
      rfl
  | learns _ _ => rw [World.reported_noted, List.flatMap_cons, Broadcast.flatMap_closing]; rfl
  | misses _ _ | pruned _ _ => rw [World.reported_noted, Broadcast.flatMap_closing]
  | settles _ _ _ _ =>
      rw [World.reported_noted, Broadcast.flatMap_closing]
      rfl

/-- The world after a failed attempt has the broadcast with what `close`
answered. -/
theorem World.broadcast?_of_fails (hw : w.Requests) {k : PeerKey} {state : SendState}
    {rest : List PeerKey} {p r : Peer} {f : Failure} (hb : w.broadcast? t = some b)
    (hstage : b.stage = .sending k state rest) (hp : w.peer? k = some p)
    (hturn : p.sendTurn t w.shutdown state = some (r, .ended (.failed f))) :
    (w.move (.turn t)).broadcast? t
      = some { b.attempted ⟨k, .failed f, r.close.2⟩ with
          stage := .pruning k (.entering (.unregister r.info.id .writeFailed)) rest } := by
  obtain ⟨task, hmove, htask⟩ :=
    hw.turn_of_broadcastTurn hb (World.broadcastTurn_fails hstage hp hturn)
  obtain ⟨task₀, htask₀, -⟩ := Option.bind_eq_some_iff.1 hb
  have htasks : (((w.setPeer k r).noted [.sendFailed k r.info f]).closePeer k).1.tasks
      = w.tasks := by
    rw [World.closePeer_eq]
    exact (World.onPeer_frame _ _ _).2.1
  rw [World.move, hmove, Option.getD_some, World.broadcast?, World.tasks_setTask, if_pos rfl,
    htasks, htask₀, Option.map_some, Option.bind_some, htask rfl]

/-- A step of a broadcast counts one attempt, or none. -/
theorem BroadcastStep.counts (h : BroadcastStep w t b w₁ b') (hw : w.Requests)
    (hb : w.broadcast? t = some b)
    (hb' : b'.isOver = false → (w.move (.turn t)).broadcast? t = some b') :
    b'.counted t = b.counted t
      ∨ ∃ c, w.Counts (.turn t) c ∧ b'.counted t = b.counted t ++ [c] := by
  cases h with
  | asks _ _ | skips _ _ | sends _ _ _ _ | prunes _ _ => exact .inl rfl
  | learns _ _ | misses _ _ | pruned _ _ => exact .inl (by simp [Broadcast.counted])
  | settles hstage hp hsend hopen =>
      refine .inr ⟨_, .settles hb hstage hp hsend.sendTurn hopen, ?_⟩
      simp [Broadcast.counted, Broadcast.attempted]
  | fails hstage hp hsend =>
      have hafter := hb' rfl
      rw [World.broadcast?_of_fails hw hb hstage hp hsend.sendTurn] at hafter
      refine .inr ⟨_, .fails hb hstage hp hsend.sendTurn, ?_⟩
      rw [← Option.some.inj hafter]
      simp [Broadcast.counted, Broadcast.attempted]

/-- A task that makes no broadcast does not note that one is over. -/
theorem TaskStep.reported (h : TaskStep w t task w₁ task') (hnone : task.broadcast? = none) :
    w₁.reported = w.reported := by
  cases h with
  | send _ _ | awaited _ _ => rfl
  | broadcast _ => cases hnone
  | monitor hstep =>
      cases hstep with
      | stops _ _ | wakes _ _ _ | asks _ _ => rfl
      | samples _ _ | ends _ _ => exact (World.reported_noted _ _).trans (List.append_nil _)
  | server hstep =>
      cases hstep with
      | accepts _ _ _ => rfl
      | starts _ | ends _ _ | misses _ _ _ | joins _ _ =>
          exact (World.reported_noted _ _).trans (List.append_nil _)
  | worker _ hstep =>
      cases hstep with
      | relays hstage _ => simp [Task.broadcast?, hstage] at hnone
      | registers _ _ | unregisters _ _ | pauses _ _ _ _ => rfl
      | starts _ _ | quits _ _ | reads _ _ _ _ =>
          exact (World.reported_noted _ _).trans (List.append_nil _)
      | leaves _ _ => exact World.reported_closePeer _ _
      | drops _ _ =>
          rw [World.reported_closePeer]
          exact (World.reported_noted _ _).trans (List.append_nil _)
      | stops _ _ _ _ hresult =>
          refine (World.reported_noted _ _).trans ?_
          rcases hresult with ⟨-, rfl⟩ | ⟨e, -, rfl⟩
          · exact List.append_nil _
          · split_ifs <;> exact List.append_nil _

/-- What a move means for the tally: nothing, or a broadcast takes a step. -/
inductive TallyChange (w : World) (m : Move) (w' : World) : Prop
  | keeps : w'.reported = w.reported → w'.pending.Perm w.pending → TallyChange w m w'
  | steps {t : TaskKey} {b b' : Broadcast} {w₁ : World} : m = .turn t → w.broadcast? t = some b →
      BroadcastStep w t b w₁ b' → (b'.isOver = false → w'.broadcast? t = some b') →
      w'.reported = (w.reported ++ if b'.isOver then b'.counted t else []) →
      (w'.pending ++ b.counted t).Perm (w.pending ++ if b'.isOver then [] else b'.counted t) →
      TallyChange w m w'

/-- A step is not one of a broadcast that is over. -/
theorem BroadcastStep.isOver (h : BroadcastStep w t b w₁ b') : b.isOver = false := by
  cases h with
  | asks h _ | skips h _ | learns h _ | misses h _ | sends h _ _ _ | settles h _ _ _ | fails h _ _
  | prunes h _ | pruned h _ => simp [Broadcast.isOver, h]

theorem MoveStep.tallyChange (h : MoveStep w m w') : TallyChange w m w' := by
  cases h with
  | idles | connects _ | requests _ _ | stops => exact .keeps rfl .rfl
  | outside _ h =>
      exact .keeps (by rw [World.reported, h.journal, World.reported])
        (by rw [World.pending, h.tasks]; exact .rfl)
  | closes =>
      refine .keeps (World.reported_closePeer w _) ?_
      rw [World.closePeer_eq, World.pending, (World.onPeer_frame w _ _).2.1]
      exact .rfl
  | fires =>
      refine .keeps ?_ ?_
      · rw [World.reported, (World.onPeer_frame w _ _).2.2.1, World.reported]
      · rw [World.pending, (World.onPeer_frame w _ _).2.1]
        exact .rfl
  | spawns hbegins => exact .keeps rfl (.of_eq (World.pending_concat rfl hbegins.counted))
  | arrives hserver =>
      -- a server counts nothing
      exact .keeps rfl ((List.perm_append_right_iff []).1 (World.pending_setTask hserver _))
  | serves _ hremoved =>
      refine .keeps (World.reported_noted_of_forall ?_) .rfl
      intro n hn
      obtain ⟨_, _, _, rfl⟩ := hremoved n hn
      rfl
  | @turns me task task' w₁ htask hstep =>
      have hself := hstep.setTask_self htask
      have hreported : (w₁.setTask me task').reported = w₁.reported := rfl
      -- the other tasks are the same, but for one that may have begun
      have hpending : ((w₁.setTask me task').pending ++ task.counted me).Perm
          (w.pending ++ task'.counted me) := by
        rcases hstep.tasks with htasks | ⟨new, htasks, hbegins, -⟩
        · rw [show w.pending = w₁.pending by rw [World.pending, World.pending, htasks]]
          exact World.pending_setTask (htasks ▸ htask) task'
        · rw [← World.pending_concat htasks hbegins.counted]
          refine World.pending_setTask ?_ task'
          rw [htasks, List.getElem?_append_left (List.getElem?_eq_some_iff.1 htask).1, htask]
      rcases hstep.relaying with ⟨hnone, hbegins⟩ | ⟨b, b', hb, hbroadcast, hafter⟩
      · have hcounted : task.counted me = [] := by rw [Task.counted, hnone]
        have hcounted' : task'.counted me = [] :=
          Task.counted_eq_nil (fun b hb => by rw [hbegins b hb]; rfl) me
        rw [hcounted, hcounted', List.append_nil, List.append_nil] at hpending
        exact .keeps (hreported.trans (hstep.reported hnone)) hpending
      · have hcounted : task'.counted me = if b'.isOver then [] else b'.counted me := by
          rcases hafter with hafter | ⟨hover, hafter⟩
          · rw [Task.counted, hafter]
          · rw [Task.counted, hafter, if_pos hover]
        rw [hcounted, show task.counted me = b.counted me by
          simp [Task.counted, hb, hbroadcast.isOver]] at hpending
        refine .steps rfl ?_ hbroadcast ?_ (hreported.trans hbroadcast.reported) hpending
        · rw [World.broadcast?, htask]
          exact hb
        · intro hopen
          rw [World.broadcast?, hself]
          rcases hafter with hafter | ⟨hover, -⟩
          · exact hafter
          · cases hopen.symm.trans hover

/-- A move adds to the tally what a broadcast counts with it. -/
theorem MoveStep.tally (h : MoveStep w m w') (hmove : w' = w.move m) (hw : w.Requests) :
    w'.tally.Perm w.tally ∨ ∃ c, w.Counts m c ∧ w'.tally.Perm (w.tally ++ [c]) := by
  cases h.tallyChange with
  | keeps hreported hpending =>
      rw [World.tally, hreported]
      exact .inl (hpending.append_left _)
  | @steps t b b' w₁ hm hb hstep hb' hreported hpending =>
      subst hm
      have htally : (w'.tally ++ b.counted t).Perm (w.tally ++ b'.counted t) := by
        rw [World.tally, World.tally, hreported]
        rw [List.perm_iff_count] at hpending ⊢
        intro c
        have hc := hpending c
        simp only [List.count_append] at hc ⊢
        split_ifs at hc ⊢ <;> simp only [List.count_nil] at hc ⊢ <;> omega
      rcases hstep.counts hw hb fun hopen => hmove ▸ hb' hopen with hsame | ⟨c, hcounts, hmore⟩
      · rw [hsame] at htally
        exact .inl ((List.perm_append_right_iff _).1 htally)
      · refine .inr ⟨c, hcounts, (List.perm_append_right_iff (b.counted t)).1 (htally.trans ?_)⟩
        rw [hmore, List.append_assoc]
        exact List.perm_append_comm.append_left _

end

/-! ## Runs -/

/-- What stands in the tally was counted with one of the moves. -/
theorem tally_run {w₀ : World} (hw : w₀.Requests) (hnew : w₀.tally = []) {moves : List Move}
    (hmoves : w₀.Permitted moves) {c : Counted} (hc : c ∈ (w₀.run moves).tally) :
    ∃ n m, moves[n]? = some m ∧ (w₀.after moves n).Counts m c := by
  revert hc
  refine World.run_induction (w := w₀) (P := fun moves => c ∈ (w₀.run moves).tally →
      ∃ n m, moves[n]? = some m ∧ (w₀.after moves n).Counts m c)
    (fun hc => ?_) (fun {moves m} hmoves ih hstep hc => ?_) hmoves
  · rw [World.run, List.foldl_nil, hnew] at hc
    cases hc
  · rw [World.exists_move_concat (P := fun w m => w.Counts m c)]
    rcases hstep.tally (World.run_concat _ _ _) (World.requests_run hw hmoves) with
      hsame | ⟨c', hcounts, hmore⟩
    · exact .inl (ih (hsame.mem_iff.1 hc))
    · rcases List.mem_append.1 (hmore.mem_iff.1 hc) with hc | hc
      · exact .inl (ih hc)
      · exact .inr (List.mem_singleton.1 hc ▸ hcounts)

end LineRelay
