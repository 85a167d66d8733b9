/-
# Why a peer was removed

Around one server a peer is removed by a broadcast that could not write to
it, or by its worker, which had a reason to leave.  The event of a removal
carries the reason that the request gave, and whatever the order in which
all of them took their turns, that reason holds when the event is published:

| reason | before that, in the run (`Cause`) |
| :-- | :-- |
| `writeFailed` | a broadcast wrote to the peer, and the transport failed |
| `shutdown` | the relay was told to shut down |
| `disconnected` | a read of the peer answered an end or an error |

Both signals that a worker looks at have fired after a shutdown, and it
looks at the shutdown first; so one that leaves for its close signal has a
peer that was closed, and only a broadcast can have done that (`Explained`).

Several may ask for the removal of one peer.  The first to be served gets
the peer, and its reason is published; the others get nobody, and nothing is
published for them (`Dismissal`).

## What this is not

Numbers are given again after as many connections as there are words, and
then an id may stand for more than one peer.  Of such an id it is said that
the reason holds for one of them, and not who was first.
-/
import LineRelay.Proofs.Relay.Roster
import LineRelay.Proofs.Relay.Conduct

namespace LineRelay

/-! ## What has happened in a run -/

/-- With some move of the run something happened, which is said of the moves
before it and of the move. -/
def Happened (P : List Move → Move → Prop) (moves : List Move) : Prop :=
  ∃ pre m post, moves = pre ++ m :: post ∧ P pre m

theorem Happened.concat {P : List Move → Move → Prop} {moves : List Move} (h : Happened P moves)
    (m : Move) : Happened P (moves ++ [m]) := by
  obtain ⟨pre, m', post, rfl, hP⟩ := h
  exact ⟨pre, m', post ++ [m], by simp, hP⟩

theorem happened_last {P : List Move → Move → Prop} {moves : List Move} {m : Move}
    (h : P moves m) : Happened P (moves ++ [m]) := ⟨moves, m, [], rfl, h⟩

namespace World

/-- With the move `m` a broadcast writes to the peer `k`, and the transport
fails. -/
def Fails (w : World) (k : PeerKey) (m : Move) : Prop :=
  ∃ (t : TaskKey) (b : Broadcast) (state : SendState) (rest : List PeerKey) (p q : Peer)
    (f : Failure), m = .turn t ∧ w.broadcast? t = some b ∧ b.stage = .sending k state rest
      ∧ w.peer? k = some p ∧ p.sendTurn t w.shutdown state = some (q, .ended (.failed f))

/-- With the move `m` the worker of the peer `k` reads, and the answer is an
end or an error. -/
def ReadsOut (w : World) (k : PeerKey) (m : Move) : Prop :=
  ∃ (t : TaskKey) (wk : Worker) (c : Connection), m = .turn t ∧ w.tasks[t]? = some (.worker wk)
    ∧ wk.peer = k ∧ wk.stage = .reading ∧ w.connections[k]? = some c
    ∧ ((wk.reader.next c.inlet).1 = .ended ∨ ∃ e, (wk.reader.next c.inlet).1 = .failed e)

/-- The stream of the connection `k` has an end, a failure or a line over the
limit, if the machine can hold its lines. -/
def Broken (w₀ : World) (moves : List Move) (k : PeerKey) : Prop :=
  ∀ (t : TaskKey) (wk : Worker), (w₀.run moves).tasks[t]? = some (.worker wk) → wk.peer = k →
    Framer.Fits wk.reader.limit 0 ((stream k w₀ moves).items.flatMap Delivery.marks) →
    Breaks wk.reader.limit (stream k w₀ moves).signs

/-- What a reason to remove the peer `k` says has happened in the run. -/
def Cause (w₀ : World) (moves : List Move) (k : PeerKey) : Reason → Prop
  | .writeFailed => Happened (fun pre m => (w₀.run pre).Fails k m) moves
  | .shutdown => (w₀.run moves).shutdown = true
  | .disconnected => Happened (fun pre m => (w₀.run pre).ReadsOut k m ∧ w₀.Broken pre k) moves

section Causes

variable {w₀ : World} {moves : List Move} {m : Move} {k : PeerKey} {reason : Reason}

theorem Cause.concat (h : w₀.Cause moves k reason)
    (hstep : MoveStep (w₀.run moves) m (w₀.run (moves ++ [m]))) :
    w₀.Cause (moves ++ [m]) k reason := by
  cases reason with
  | writeFailed | disconnected => exact Happened.concat h m
  | shutdown => exact hstep.shutdown h

/-- A read that answers an end or an error has come to a break of the stream. -/
theorem ReadsOut.broken (h : (w₀.run moves).ReadsOut k m) (h₀ : w₀.IsNew)
    (hmoves : w₀.Permitted moves) (hworkers : (w₀.run moves).OneWorkerEach) :
    w₀.Broken moves k := by
  obtain ⟨t, wk, c, -, ht, rfl, hreading, hc, hstop⟩ := h
  intro t' wk' ht' hpeer hfit
  obtain rfl := hworkers.sole ht' ht hpeer
  cases ht.symm.trans ht'
  have hholds : w₀.Holds moves t' := by
    intro wk' ht'
    cases ht.symm.trans ht'
    exact hfit
  have hsole : (w₀.run moves).Sole t' wk.peer := fun _ _ ht₁ hpeer₁ => hworkers.sole ht₁ ht hpeer₁
  obtain ⟨-, used, i, hreads⟩ :=
    ((soleReader_run h₀ hmoves hsole hholds).relayedSoFar wk ht rfl).of_reading (.inl hreading)
  obtain rfl : i = c.inlet := Option.some.inj (hreads.inlet.symm.trans (inlet?_of_connection hc))
  obtain ⟨seen, rest, hsigns, hstopped⟩ := hreads.next_stop hfit rfl hstop
  rw [hsigns]
  exact hstopped.breaks.append rest

end Causes

/-! ## Who closes, and who leaves -/

/-- What has led to it that a peer is closed, or that someone asks for its
removal. -/
structure Explained (w₀ : World) (moves : List Move) : Prop where
  pruning : ∀ {t : TaskKey} {k : PeerKey} {call : Call},
    (w₀.run moves).call? t = some (.prune k, call) → w₀.Cause moves k .writeFailed
  closed : ∀ {k : PeerKey} {p : Peer}, (w₀.run moves).peer? k = some p → p.closed = true →
    w₀.Cause moves k .writeFailed ∨ ∃ (t : TaskKey) (wk : Worker) (reason : Reason),
      (w₀.run moves).tasks[t]? = some (.worker wk) ∧ wk.peer = k ∧ wk.reason? = some reason
  left : ∀ {t : TaskKey} {wk : Worker} {reason : Reason} {call : Call},
    (w₀.run moves).tasks[t]? = some (.worker wk) → wk.stage = .leaving reason call →
    w₀.Cause moves wk.peer reason

end World

/-- A worker that has left does not come back. -/
theorem WorkerStep.keeps_reason {w w' : World} {me : TaskKey} {wk wk' : Worker} {c : Connection}
    (h : WorkerStep w me wk c w' wk') {reason : Reason} (hreason : wk.reason? = some reason) :
    wk'.reason? = some reason := by
  cases h with
  | registers hstage _ | starts hstage _ | drops hstage _ | quits hstage _ | reads hstage _ _ _
  | stops hstage _ _ _ _ | pauses hstage _ _ _ | relays hstage _ =>
      simp [Worker.reason?, hstage] at hreason
  | unregisters hstage _ | leaves hstage _ =>
      simpa [Worker.reason?, hstage] using hreason

theorem MoveStep.keeps_reason {w w' : World} {m : Move} (h : MoveStep w m w') {t : TaskKey}
    {wk : Worker} {reason : Reason} (ht : w.tasks[t]? = some (.worker wk))
    (hreason : wk.reason? = some reason) :
    ∃ wk', w'.tasks[t]? = some (.worker wk') ∧ wk'.peer = wk.peer ∧ wk'.reason? = some reason :=
  h.worker_keeps (P := fun wk' => wk'.peer = wk.peer ∧ wk'.reason? = some reason) ht
    ⟨rfl, hreason⟩ fun hstep => ⟨hstep.peer, hstep.keeps_reason hreason⟩

namespace World

variable {w₀ : World} {moves : List Move} {m : Move} {t : TaskKey} {k : PeerKey}

/-- A broadcast that asks for a removal asked before, or has just failed. -/
theorem Explained.pruning_step (h : w₀.Explained moves)
    (hstep : MoveStep (w₀.run moves) m (w₀.run (moves ++ [m]))) {call : Call}
    (hcall : (w₀.run (moves ++ [m])).call? t = some (.prune k, call)) :
    w₀.Cause (moves ++ [m]) k .writeFailed := by
  have hold : ∀ {b : Broadcast} {call : Call} {rest : List PeerKey},
      (w₀.run moves).broadcast? t = some b → b.stage = .pruning k call rest →
      w₀.Cause (moves ++ [m]) k .writeFailed := fun hb hstage =>
    (h.pruning ((call?_of_broadcast? hb).trans (Broadcast.call?_pruning hstage))).concat hstep
  obtain ⟨b, rest, hb, hstage⟩ := makes_of_call? hcall
  cases hstep.broadcast hb with
  | stays _ hb₀ => exact hold hb₀ hstage
  | begins hbegin =>
      rw [hbegin] at hstage
      cases hstage
  | steps hm hb₀ hturn _ =>
      cases hturn with
      | prunes hstage₀ _ =>
          cases hstage
          exact hold hb₀ hstage₀
      | fails hstage₀ hp hsend =>
          cases hstage
          exact happened_last ⟨t, _, _, _, _, _, _, hm, hb₀, hstage₀, hp, hsend.sendTurn⟩
      | asks _ _ | sends _ _ _ _ | skips _ _ => cases hstage
      | learns _ _ | misses _ _ | settles _ _ _ _ | pruned _ _ =>
          cases (Broadcast.call?_onward _ _).symm.trans (Broadcast.call?_pruning hstage)

/-- A peer that is closed was closed by a broadcast that failed, or its worker
has left. -/
theorem Explained.closed_step (h : w₀.Explained moves)
    (hstep : MoveStep (w₀.run moves) m (w₀.run (moves ++ [m]))) (hm : m.Hosted) {q : Peer}
    (hq : (w₀.run (moves ++ [m])).peer? k = some q) (hclosed : q.closed = true) :
    w₀.Cause (moves ++ [m]) k .writeFailed ∨ ∃ (t : TaskKey) (wk : Worker) (reason : Reason),
      (w₀.run (moves ++ [m])).tasks[t]? = some (.worker wk) ∧ wk.peer = k
        ∧ wk.reason? = some reason := by
  cases hstep.peer hm hq with
  | comes _ _ _ _ hnew =>
      rw [hnew] at hclosed
      cases hclosed
  | closes _ _ _ _ _ hcloses =>
      cases hcloses with
      | prunes hb hstage =>
          exact .inl (h.pruning_step hstep
            ((call?_of_broadcast? hb).trans (Broadcast.call?_pruning hstage)))
      | leaves ht hpeer hstage =>
          exact .inr ⟨_, _, _, ht, hpeer, by rw [Worker.reason?, hstage]⟩
  | stays hp hsame _ =>
      rcases h.closed hp (hsame ▸ hclosed) with hcause | ⟨t, wk, reason, ht, hpeer, hreason⟩
      · exact .inl (hcause.concat hstep)
      · obtain ⟨wk', ht', hpeer', hreason'⟩ := hstep.keeps_reason ht hreason
        exact .inr ⟨t, wk', reason, ht', hpeer'.trans hpeer, hreason'⟩

/-- A worker that leaves has a reason. -/
theorem Explained.left_step (h : w₀.Explained moves) (h₀ : w₀.IsNew) (hmoves : w₀.Permitted moves)
    (hstaff : (w₀.run moves).Staffed)
    (hstep : MoveStep (w₀.run moves) m (w₀.run (moves ++ [m]))) (hm : m.Hosted) {wk' : Worker}
    {reason : Reason} {call : Call}
    (ht' : (w₀.run (moves ++ [m])).tasks[t]? = some (.worker wk'))
    (hstage' : wk'.stage = .leaving reason call) : w₀.Cause (moves ++ [m]) wk'.peer reason := by
  cases hstep.worker hm.orderly ht' with
  | stays _ ht => exact (h.left ht hstage').concat hstep
  | comes _ _ _ hwk =>
      rw [← hwk] at hstage'
      cases hstage'
  | @steps wk c w₁ hturn ht hc hworker _ =>
      cases hworker with
      | unregisters hleaving _ =>
          cases hstage'
          exact (h.left ht hleaving).concat hstep
      | stops hreading _ _ hnext hwhy =>
          cases hstage'
          have hreads : (w₀.run moves).ReadsOut wk.peer m := by
            refine ⟨t, wk, c, hturn, ht, rfl, hreading, hc, ?_⟩
            rw [hnext]
            exact hwhy.imp And.left (Exists.imp fun _ => And.left)
          exact happened_last ⟨hreads, hreads.broken h₀ hmoves hstaff.oneWorkerEach⟩
      | quits hreading hwhy =>
          cases hstage'
          rcases hwhy with ⟨hshutdown, rfl⟩ | ⟨hopen, hsignalled, rfl⟩
          · exact hstep.shutdown hshutdown
          · -- its own signal has fired, so the peer is closed
            have hp := peer?_of_connection hc
            rw [Peer.signalled, hopen, Bool.and_false, Bool.or_false,
              (hstaff.peers hp).2.2] at hsignalled
            rcases h.closed hp hsignalled with hcause | ⟨t₁, wk₁, reason₁, ht₁, hpeer, hreason⟩
            · exact hcause.concat hstep
            · -- but its worker reads
              obtain rfl := hstaff.sole ht₁ ht hpeer
              cases ht.symm.trans ht₁
              simp [Worker.reason?, hreading] at hreason
      | registers _ _ | starts _ _ | drops _ _ | reads _ _ _ _ | leaves _ _ => cases hstage'
      | pauses hreading _ _ _ => cases hreading.symm.trans hstage'
      | relays _ _ =>
          simp only at hstage'
          split_ifs at hstage'

/-- In every world of a run of one server, who is closed and who leaves has
been explained. -/
theorem explained_run {listen : String} {maxLine : Option UInt64} {interval : Nat}
    {moves : List Move} (hmoves : ∀ m ∈ moves, m.Hosted) :
    (hosting listen maxLine interval).Explained moves := by
  have h₀ := isNew_hosting listen maxLine interval
  refine hosted_induction (w := hosting listen maxLine interval)
    (P := fun moves => (hosting listen maxLine interval).Explained moves)
    ⟨fun hcall => ?_, fun hp => ?_, fun ht => ?_⟩ (fun hmoves hm h hstep => ?_) hmoves
  · cases (h₀.call? _).symm.trans hcall
  · cases (h₀.peer? _).symm.trans hp
  · obtain ⟨s, hs⟩ := h₀.tasks ht
    cases hs
  · exact ⟨h.pruning_step hstep, h.closed_step hstep hm,
      h.left_step h₀ (permitted_of_hosted hmoves _) (staffed_run hmoves) hstep hm⟩

/-! ## What is published -/

/-- The move `m` publishes the event `e` with the number `i`. -/
def Publishes (w : World) (i : Nat) (e : Change) (m : Move) : Prop :=
  w.registry.events.length = i ∧ (w.move m).registry.events = w.registry.events ++ [e]

/-- When the removal `i` is published, there is a peer with the id for which
the reason holds. -/
def Justified (w₀ : World) (i : Nat) (who : Identity) (reason : Reason) (moves : List Move) :
    Prop :=
  Happened (fun pre m => (w₀.run pre).Publishes i (.removed who reason) m
    ∧ ∃ k p, (w₀.run pre).peer? k = some p ∧ p.info.id = who.id ∧ w₀.Cause pre k reason) moves

/-- An event was there before a command is served, or the command makes it. -/
theorem Serves.events_cases {w w' : World} {tk : Ticket} {c : Command} (h : w.Serves tk c w')
    {i : Nat} {e : Change} (hi : w'.registry.events[i]? = some e) :
    w.registry.events[i]? = some e
      ∨ w.registry.events.length = i ∧ w'.registry.events = w.registry.events ++ [e]
        ∧ ∃ rank, (w.registry.membership.apply rank c).2.2 = some e := by
  obtain ⟨rank, -, hevents⟩ := h.applied
  rw [hevents] at hi ⊢
  cases hchange : (w.registry.membership.apply rank c).2.2 with
  | none =>
      rw [hchange, Option.toList_none, List.append_nil] at hi
      exact .inl hi
  | some e' =>
      rw [hchange, Option.toList_some, List.getElem?_append] at hi
      split_ifs at hi with hlt
      · exact .inl hi
      · obtain ⟨hlast, rfl⟩ : i - w.registry.events.length = 0 ∧ e' = e := by
          simpa [List.getElem?_singleton] using hi
        exact .inr ⟨by omega, rfl, rank, hchange⟩

/-- In every run of one server, while the registry serves. -/
theorem justified_run {listen : String} {maxLine : Option UInt64} {interval : Nat}
    {moves : List Move} (hmoves : ∀ m ∈ moves, m.Hosted)
    (hserving : ((hosting listen maxLine interval).run moves).registry.service = .serving)
    {i : Nat} {who : Identity} {reason : Reason}
    (hi : ((hosting listen maxLine interval).run moves).registry.events[i]?
      = some (.removed who reason)) :
    (hosting listen maxLine interval).Justified i who reason moves := by
  revert hserving hi
  refine hosted_induction (w := hosting listen maxLine interval)
    (P := fun moves =>
      ((hosting listen maxLine interval).run moves).registry.service = .serving →
      ((hosting listen maxLine interval).run moves).registry.events[i]?
        = some (.removed who reason) →
      (hosting listen maxLine interval).Justified i who reason moves)
    (fun _ hi => by cases hi) (fun {moves m} hmoves hm h hstep hserving hi => ?_) hmoves
  have hserving₀ := Registry.serving_of_step hstep.registry hserving
  rcases hstep.nothing_or_serves hserving with hnothing | ⟨tk, c, hserves⟩
  · rw [hnothing.events] at hi
    exact (h hserving₀ hi).concat m
  · rcases hserves.events_cases hi with hi | ⟨hlast, hevents, rank, hchange⟩
    · exact (h hserving₀ hi).concat m
    · obtain rfl := Membership.of_apply_departed hchange
      refine happened_last ⟨⟨hlast, by rw [← run_concat, hevents]⟩, ?_⟩
      have hexplained : (hosting listen maxLine interval).Explained moves := explained_run hmoves
      rcases owned_hosted hmoves hserving₀ hserves.head with hlooks | ⟨t, u, hcall, hmeans⟩
      · cases hlooks
      · obtain ⟨k, p, hp, hid, ⟨rfl, rfl⟩ | rfl⟩ := hmeans.exists_remover
        · exact ⟨k, p, hp, hid, hexplained.pruning hcall⟩
        · obtain ⟨wk, ht, rfl, hstage⟩ := makes_of_call? hcall
          exact ⟨wk.peer, p, hp, hid, hexplained.left ht hstage⟩

end World

/-! ## Who removes a peer -/

/-- Whether a command is the removal of an id. -/
def Command.removes (id : PeerId) : Command → Bool
  | .unregister id' _ => id' = id
  | .register _ | .snapshot _ | .size | .contains _ => false

/-- A command that is no removal of an id publishes none. -/
theorem Membership.filter_removes_apply {m : Membership} {rank : PeerId → Nat} {c : Command}
    {id : PeerId} (h : c.removes id = false) :
    (m.apply rank c).2.2.toList.filter (Change.removes id) = [] := by
  cases hchange : (m.apply rank c).2.2 with
  | none => rfl
  | some e =>
      cases e with
      | registered who => rfl
      | removed who reason =>
          obtain rfl := of_apply_departed hchange
          simpa [Command.removes, Change.removes] using h

namespace Registry

/-- The requests to remove an id that were served, in their order. -/
def removals (r : Registry) (id : PeerId) : List Served := r.served.filter (·.command.removes id)

/-- The removals of an id that were published, in their order. -/
def farewells (r : Registry) (id : PeerId) : List Change := r.events.filter (Change.removes id)

/-- What has come of the requests to remove a member: the first one got it and
gave the reason, and the others got nobody. -/
inductive Dismissal (r : Registry) (a : Member) : Prop
  | unasked : r.removals a.info.id = [] → r.farewells a.info.id = [] → Dismissal r a
  | first {s : Served} {others : List Served} {reason : Reason} :
      r.removals a.info.id = s :: others → s.command = .unregister a.info.id reason →
      s.reply = .removed (some a) → r.farewells a.info.id = [.removed a.info reason] →
      (∀ s' ∈ others, s'.reply = .removed none) → Dismissal r a

variable {r r' : Registry} {a : Member}

theorem departures_eq (r : Registry) (id : PeerId) :
    r.departures id = (r.farewells id).length := List.countP_eq_length_filter

theorem removals_concat {s : Served} (h : r'.served = r.served ++ [s]) (id : PeerId) :
    r'.removals id = r.removals id ++ if s.command.removes id then [s] else [] := by
  simp only [removals, h, List.filter_append, List.filter_cons, List.filter_nil]

theorem farewells_append {es : List Change} (h : r'.events = r.events ++ es) (id : PeerId) :
    r'.farewells id = r.farewells id ++ es.filter (Change.removes id) := by
  rw [farewells, h, List.filter_append, farewells]

theorem Dismissal.congr (h : r.Dismissal a)
    (hremovals : r'.removals a.info.id = r.removals a.info.id)
    (hfarewells : r'.farewells a.info.id = r.farewells a.info.id) : r'.Dismissal a := by
  cases h with
  | unasked hnone hsilent => exact .unasked (hremovals.trans hnone) (hfarewells.trans hsilent)
  | first hfirst hcommand hreply hone hothers =>
      exact .first (hremovals.trans hfirst) hcommand hreply (hfarewells.trans hone) hothers

/-- Who asks for the removal of a member that was registered once gets it, or
somebody else has got it. -/
theorem Dismissal.asked (h : r.Dismissal a) {rank : PeerId → Nat} {tk : Ticket} {reason : Reason}
    (hserved : r'.served = r.served ++ [⟨tk, .unregister a.info.id reason,
      (r.membership.apply rank (.unregister a.info.id reason)).2.1⟩])
    (hevents : r'.events
      = r.events ++ (r.membership.apply rank (.unregister a.info.id reason)).2.2.toList)
    (hbalanced : r.Balanced) (hone : r.arrivals a.info.id = 1)
    (hfound : ∀ b ∈ r.membership.members, b.info.id = a.info.id → b = a) : r'.Dismissal a := by
  have hremovals := removals_concat hserved a.info.id
  have hfarewells := farewells_append hevents a.info.id
  have hbalance := hbalanced a.info.id
  rw [hone, departures_eq] at hbalance
  simp only [Membership.apply, Command.removes, decide_true, if_true] at hremovals hfarewells
  cases hfind : r.membership.find? a.info.id with
  | none =>
      rw [Membership.find?_eq_none.1 hfind] at hbalance
      simp only [hfind] at hremovals hfarewells
      cases h with
      | unasked _ hsilent => simp [hsilent] at hbalance
      | first hfirst hcommand hreply hpublished hothers =>
          rw [hfirst] at hremovals
          rw [hpublished] at hfarewells
          refine .first hremovals hcommand hreply hfarewells ?_
          intro s' hs'
          rcases List.mem_append.1 hs' with hs' | hs'
          · exact hothers s' hs'
          · rw [List.mem_singleton.1 hs']
  | some b =>
      obtain ⟨hb, hid⟩ := Membership.find?_eq_some hfind
      obtain rfl := hfound b hb hid
      rw [Membership.contains_iff.2 ⟨b, hb, rfl⟩] at hbalance
      simp only [hfind] at hremovals hfarewells
      cases h with
      | first _ _ _ hpublished _ => simp [hpublished] at hbalance
      | unasked hnone hsilent =>
          rw [hnone] at hremovals
          rw [hsilent] at hfarewells
          refine .first hremovals rfl rfl ?_ (fun _ hs' => absurd hs' List.not_mem_nil)
          rw [hfarewells]
          simp [Change.removes]

theorem Dismissal.step (h : r.Dismissal a) (hstep : RegistryStep r r') (hbalanced : r.Balanced)
    (hfound : ∀ b ∈ r.membership.members, b.info.id = a.info.id → b = a)
    (hlisted : ∀ {tk reason}, (tk, .unregister a.info.id reason) ∈ r.queue →
      r.arrivals a.info.id = 1) : r'.Dismissal a := by
  cases hstep with
  | keeps => exact h
  | takes _ | drops _ _ | stops => exact h.congr rfl rfl
  | @serves rank tk c queue _ hqueue =>
      cases hc : c.removes a.info.id with
      | false =>
          refine h.congr ?_ ?_
          · rw [removals_concat rfl, if_neg (by simp [hc]), List.append_nil]
          · rw [farewells_append rfl, Membership.filter_removes_apply hc, List.append_nil]
      | true =>
          obtain ⟨reason, rfl⟩ : ∃ reason, c = .unregister a.info.id reason := by
            cases c with
            | unregister id reason => exact ⟨reason, by rw [of_decide_eq_true hc]⟩
            | register _ | snapshot _ | size | contains _ => cases hc
          have hmem : (tk, .unregister a.info.id reason) ∈ r.queue :=
            hqueue ▸ List.mem_cons_self
          exact h.asked rfl rfl hbalanced (hlisted hmem) hfound

end Registry

namespace World

section Run

variable {w₀ : World} {moves : List Move} {t : TaskKey} {k : PeerKey} {id : PeerId}

/-- A peer whose removal is asked for was registered: a broadcast had it
listed, and its worker enrolled it. -/
theorem Enrols.arrivals_of_unregister (henrols : w₀.Enrols moves t k id) (h₀ : w₀.IsNew)
    (hmoves : w₀.Permitted moves) (hkeeps : ∀ reason, .request (.unregister id reason) ∉ moves)
    {tk : Ticket} {reason : Reason}
    (hmem : (tk, .unregister id reason) ∈ (w₀.run moves).registry.queue) :
    (w₀.run moves).registry.arrivals id = 1 := by
  have henrolment := enrolment_run h₀ hmoves henrols
  rcases owned_run h₀ hmoves henrols.serving tk _ hmem with hout | ⟨t', u, hcall, hmeans⟩
  · exact absurd hout (hkeeps reason)
  · rcases hmeans.remover henrols.identifies with ⟨rfl, -⟩ | rfl
    · obtain ⟨p, hp, hone⟩ := listed_run h₀ hmoves hcall
      rw [henrols.identifies.own hp] at hone
      exact Nat.le_antisymm henrolment.arrivals_le_one hone
    · obtain ⟨wk, ht, rfl, hstage⟩ := makes_of_call? hcall
      obtain rfl := henrols.sole t' wk ht rfl
      exact henrolment.after (enrolled_of_stage ht (by simp [hstage]))

/-- In every world of a run in which nobody outside registers or removes the
peer. -/
theorem dismissal_run (h₀ : w₀.IsNew) (hmoves : w₀.Permitted moves) {a : Member}
    (henrols : w₀.Enrols moves t a.handle a.info.id)
    (hkeeps : ∀ reason, .request (.unregister a.info.id reason) ∉ moves)
    (hinfo : ∀ p, (w₀.run moves).peer? a.handle = some p → p.info = a.info) :
    (w₀.run moves).registry.Dismissal a := by
  revert henrols hkeeps hinfo
  refine run_induction (w := w₀) (P := fun moves => w₀.Enrols moves t a.handle a.info.id →
      (∀ reason, .request (.unregister a.info.id reason) ∉ moves) →
      (∀ p, (w₀.run moves).peer? a.handle = some p → p.info = a.info) →
      (w₀.run moves).registry.Dismissal a)
    (fun _ _ _ => ?_) (fun {moves m} hmoves h hstep henrols hkeeps hinfo => ?_) hmoves
  · rw [show (w₀.run []).registry = {} from h₀.registry]
    exact .unasked rfl rfl
  · have hbefore := henrols.before hstep
    have hrequests := requests_run h₀.requests hmoves
    have hkeeps₀ : ∀ reason, Move.request (.unregister a.info.id reason) ∉ moves :=
      fun reason hmem => hkeeps reason (List.mem_append_left _ hmem)
    have hinfo₀ : ∀ p, (w₀.run moves).peer? a.handle = some p → p.info = a.info := by
      intro p hp
      obtain ⟨q, hq, hlasts⟩ := hstep.lasts hp
      exact hlasts.info.symm.trans (hinfo q hq)
    refine (h hbefore hkeeps₀ hinfo₀).step hstep.registry (hrequests.balanced hbefore.serving) ?_
      (hbefore.arrivals_of_unregister h₀ hmoves hkeeps₀)
    intro b hb hid
    have hnames := hrequests.names_member hb
    have hhandle := hbefore.identifies.handle_eq hnames hid
    obtain ⟨p, hp, hpinfo⟩ := Option.map_eq_some_iff.1 hnames
    obtain ⟨info, handle⟩ := b
    obtain rfl : handle = a.handle := hhandle
    obtain rfl : info = a.info := hpinfo.symm.trans (hinfo₀ p hp)
    rfl

end Run

end World

/-! ## Every run of one server -/

/-- What is true of the removals of a run.

* `justified`: the reason of a removal holds when it is published;
* `identified`: while no number is given twice, an id stands for one peer;
* `dismissal`: if its id stands for one peer, the first who asks for the
  removal of the peer gives the reason, and those who ask later publish
  nothing.
-/
structure Truthful (w₀ : World) (moves : List Move) : Prop where
  justified : ∀ {i : Nat} {who : Identity} {reason : Reason},
    (w₀.run moves).registry.events[i]? = some (.removed who reason) →
    w₀.Justified i who reason moves
  identified : (w₀.run moves).connections.length ≤ UInt64.size → ∀ {k : PeerKey} {p : Peer},
    (w₀.run moves).peer? k = some p → (w₀.run moves).Identifies p.info.id k
  dismissal : ∀ {k : PeerKey} {p : Peer}, (w₀.run moves).peer? k = some p →
    (w₀.run moves).Identifies p.info.id k → (w₀.run moves).registry.Dismissal ⟨p.info, k⟩

/-- In every run of one server, while the registry serves, the reason of every
removal holds when it is published, and it is that of the first who asked. -/
theorem reasons_hold {listen : String} {maxLine : Option UInt64} {interval : Nat}
    {moves : List Move} (hmoves : ∀ m ∈ moves, m.Hosted)
    (hserving : ((World.hosting listen maxLine interval).run moves).registry.service = .serving) :
    Truthful (World.hosting listen maxLine interval) moves := by
  have hstaff : ((World.hosting listen maxLine interval).run moves).Staffed :=
    World.staffed_run hmoves
  refine ⟨World.justified_run hmoves hserving, fun hsize k p hp => ?_, fun {k p} hp hid => ?_⟩
  · rw [(hstaff.peers hp).1]
    exact World.identifies_hosted hmoves hsize ((World.lt_length_of_peer? hp).trans_le hsize)
  · obtain ⟨t, wk, ht, hpeer⟩ := hstaff.hired hp
    have henrols := World.enrols_hosted hmoves hserving hid
      fun t' wk' ht' hpeer' => hstaff.sole ht' ht (hpeer'.trans hpeer.symm)
    refine World.dismissal_run (a := ⟨p.info, k⟩) (World.isNew_hosting _ _ _)
      (permitted_of_hosted hmoves _) henrols (fun reason hmem => hmoves _ hmem) ?_
    intro q hq
    cases hp.symm.trans hq
    rfl

/-- The write to a connection fails, and before anyone has asked for its
removal, the relay is told to shut down. -/
def racing : List Move :=
  let joins (transport : Transport) : Move := .arrive 0 (.connection ⟨"peer"⟩ transport .silent)
  let asks (t : TaskKey) : List Move := [.turn t, .serve World.byId, .turn t]
  [.turn 0, joins {}, joins { writes := [.fails ⟨.brokenPipe, none⟩] }, .turn 0, .turn 0]
    ++ asks 2 ++ asks 3 ++ [.supply 0 (.data [104, 105, 10]), .turn 2] ++ asks 2
    ++ [.turn 2, .shutdown, .turn 3, .turn 2, .turn 3, .serve World.byId, .serve World.byId]

set_option maxRecDepth 4000 in
/-- In `racing`, the worker of the connection asks for the removal after the
broadcast does, so the reason is that of the broadcast. -/
theorem reasons_hold_racing : (∀ m ∈ racing, m.Hosted)
    ∧ ((World.hosting "relay" none 1000).run racing).registry.service = .serving
    ∧ (((World.hosting "relay" none 1000).run racing).registry.removals ⟨2⟩).map (·.command)
      = [.unregister ⟨2⟩ .writeFailed, .unregister ⟨2⟩ .shutdown]
    ∧ ((World.hosting "relay" none 1000).run racing).registry.farewells ⟨2⟩
      = [.removed ⟨⟨2⟩, ⟨"peer"⟩, 0⟩ .writeFailed]
    ∧ (World.hosting "relay" none 1000).Justified 2 ⟨⟨2⟩, ⟨"peer"⟩, 0⟩ .writeFailed racing
    ∧ ((World.hosting "relay" none 1000).run racing).registry.Dismissal ⟨⟨⟨2⟩, ⟨"peer"⟩, 0⟩, 1⟩ := by
  have hmoves : ∀ m ∈ racing, m.Hosted := by decide
  have hserving : ((World.hosting "relay" none 1000).run racing).registry.service = .serving := by
    decide +kernel
  have hpeer : (((World.hosting "relay" none 1000).run racing).peer? 1).map (·.info)
      = some ⟨⟨2⟩, ⟨"peer"⟩, 0⟩ := by decide +kernel
  have hlength : ((World.hosting "relay" none 1000).run racing).connections.length = 2 := by
    decide +kernel
  have htruthful := reasons_hold hmoves hserving
  obtain ⟨p, hp, hinfo⟩ := Option.map_eq_some_iff.1 hpeer
  have hid := htruthful.identified (by rw [hlength]; decide) hp
  exact ⟨hmoves, hserving, by decide +kernel, by decide +kernel,
    htruthful.justified (by decide +kernel), hinfo ▸ htruthful.dismissal hp hid⟩

end LineRelay
