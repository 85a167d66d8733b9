/-
# One broadcast by itself

Someone makes a broadcast while nobody else asks the registry or writes to a
peer, and the transports do not stall (`World.Ready`).  Then the broadcast and
the registry are the only ones to go on, in whatever order, and how far they
have come (`World.Midway`) is one of

| the broadcast | of its targets it has done with | the registry |
| :-- | :-- | :-- |
| asks for its targets | none | is idle, has the request, or has served it |
| sends to the peer `k` | those before `k` | is idle |
| removes the peer `k` | those up to `k` | is idle, has the request, or has served it |
| is over | all | is idle |

with fewer moves left after each move that does something.  What it has done by
then is told from the world it began in, peer by peer: the wire reaches no
other peer (`World.Written`), and a removal no other member (`World.Pruned`).
-/
import LineRelay.Proofs.Peer.Steady
import LineRelay.Proofs.Registry.Linear
import LineRelay.Proofs.Relay.Standstill

namespace LineRelay

/-! ## A registry with one request at a time -/

namespace Registry

variable {r r₀ : Registry} {rank : PeerId → Nat} {c : Command}

/-- The registry serves, and nothing waits for it. -/
structure Idle (r : Registry) : Prop where
  serving : r.service = .serving
  queue : r.queue = []
  ordered : r.Ordered

/-- The registry after it has been asked and has served. -/
def replied (r : Registry) (rank : PeerId → Nat) (c : Command) : Registry :=
  { r with
    membership := (r.membership.apply rank c).1
    served := r.served ++ [⟨r.nextTicket, c, (r.membership.apply rank c).2.1⟩]
    events := r.events ++ (r.membership.apply rank c).2.2.toList
    nextTicket := r.nextTicket + 1 }

theorem Idle.admits (h : r.Idle) : r.admits = true := by
  simp [Registry.admits, h.queue, queueSize]

theorem Idle.queue_request (h : r.Idle) (c : Command) :
    (r.request c).1.queue = [(r.nextTicket, c)] := by
  simp [request, h.serving, h.queue]

theorem Idle.serve_request (h : r.Idle) (rank : PeerId → Nat) (c : Command) :
    (r.request c).1.serve rank = some (r.replied rank c, (r.membership.apply rank c).2.2) := by
  have hservice : (r.request c).1.service = .serving := h.serving
  rw [serve, h.queue_request c]
  simp only [hservice, if_true]
  rw [replied, h.serving, ← h.queue]
  rfl

theorem Idle.replied (h : r.Idle) (rank : PeerId → Nat) (c : Command) :
    (r.replied rank c).Idle where
  serving := h.serving
  queue := h.queue
  ordered := (h.ordered.step (.takes h.admits)).step
    (registryStep_of_serve (h.serve_request rank c))

theorem Idle.answer?_replied (h : r.Idle) (rank : PeerId → Nat) (c : Command) :
    (r.replied rank c).answer? r.nextTicket = some (.ok (r.membership.apply rank c).2.1) :=
  (h.replied rank c).ordered.answer?_served (s := ⟨r.nextTicket, c, _⟩)
    (List.mem_append_right _ List.mem_cons_self)

theorem Idle.answer?_request (h : r.Idle) (c : Command) :
    (r.request c).1.answer? r.nextTicket = none :=
  (h.ordered.step (.takes h.admits)).answer?_queued (c := c)
    (by rw [h.queue_request c]; exact List.mem_cons_self)

/-- How far a registry that was idle has come with a request, and how many
moves are left of it. -/
inductive Calling (r₀ : Registry) (rank : PeerId → Nat) (c : Command) :
    Nat → Registry → Call → Prop
  | entering : Calling r₀ rank c 3 r₀ (.entering c)
  | queued : Calling r₀ rank c 2 (r₀.request c).1 (.waiting r₀.nextTicket)
  | served : Calling r₀ rank c 1 (r₀.replied rank c) (.waiting r₀.nextTicket)

end Registry

/-! ## What a broadcast makes of the peers -/

/-- What comes of a broadcast, as far as others can tell: what it reports,
and what the registry publishes meanwhile. -/
structure Fanout where
  report : Tally
  events : List Change
deriving DecidableEq

namespace World

variable {w w' w₀ w₁ : World} {rank rank' : PeerId → Nat} {sender : PeerId} {line : Line}
  {wire : Bytes} {done rest : List PeerKey} {k : PeerKey} {n : Nat}

/-- A registry that is idle, and members that nobody keeps waiting. -/
structure Ready (w : World) : Prop where
  registry : w.registry.Idle
  members : ∀ a ∈ w.registry.membership.members, ∃ p, w.peer? a.handle = some p
    ∧ p.info = a.info ∧ p.Unhindered

/-- The peers that a broadcast has as its targets, in their order. -/
def targets (w : World) (rank : PeerId → Nat) (sender : PeerId) : List PeerKey :=
  targetsOf (.members (w.registry.membership.list rank (some sender)))

/-- How the send of a wire to a peer ends. -/
def outcome (w : World) (wire : Bytes) (k : PeerKey) : SendOutcome :=
  match w.peer? k with
  | some p => (p.receives w.shutdown wire).2
  | none => .closed

/-- What is counted of the send of a wire to a peer. -/
def attempt (w : World) (wire : Bytes) (k : PeerKey) : Attempt :=
  ⟨k, w.outcome wire k, (w.outcome wire k).isFailed⟩

/-- The connection `k` after a wire was sent to some peers. -/
def reached (w : World) (wire : Bytes) (done : List PeerKey) (k : PeerKey) (c : Connection) :
    Connection :=
  if k ∈ done then { c with peer := (c.peer.receives w.shutdown wire).1 } else c

/-- The members after a wire was sent to some peers. -/
def remaining (w : World) (wire : Bytes) (done : List PeerKey) : List Member :=
  w.registry.membership.members.filter fun a =>
    !(decide (a.handle ∈ done) && (w.outcome wire a.handle).isFailed)

/-- The removals after a wire was sent to some peers, in their order. -/
def removals (w : World) (wire : Bytes) (done : List PeerKey) : List Change :=
  done.flatMap fun k =>
    if (w.outcome wire k).isFailed then
      ((w.peer? k).map fun p => Change.removed p.info .writeFailed).toList
    else []

/-- What a broadcast of the line has done to the world when it has been
through the peers `done`. -/
structure Written (w₀ : World) (line : Line) (done : List PeerKey) (w : World) (b : Broadcast) :
    Prop where
  attempts : b.attempts = done.map (w₀.attempt line.toWire)
  same : b.line = line
  connections : ∀ k, w.connections[k]? = w₀.connections[k]?.map (w₀.reached line.toWire done k)
  shutdown : w.shutdown = w₀.shutdown
  here : w₀.tasks.length < w.tasks.length

/-- What it has done to the registry. -/
structure Pruned (w₀ : World) (line : Line) (done : List PeerKey) (r : Registry) : Prop where
  idle : r.Idle
  members : r.membership.members = w₀.remaining line.toWire done
  events : r.events = w₀.registry.events ++ w₀.removals line.toWire done

/-! ### The targets -/

theorem Ready.nodup_targets (h : w.Ready) : (w.targets rank sender).Nodup := by
  have hids := h.registry.ordered.ids_nodup
  have hperm := perm_ranked (fun a : Member => rank a.info.id)
    (w.registry.membership.members.filter fun a => some a.info.id ≠ some sender)
  have hmembers : w.registry.membership.members.Nodup := hids.of_map
  refine List.Nodup.map_on ?_ (hperm.nodup_iff.2 (hmembers.filter _))
  intro a ha b hb hab
  obtain ⟨ha, -⟩ := List.mem_filter.1 (hperm.mem_iff.1 ha)
  obtain ⟨hb, -⟩ := List.mem_filter.1 (hperm.mem_iff.1 hb)
  obtain ⟨p, hp, hinfo, -⟩ := h.members a ha
  obtain ⟨q, hq, hinfo', -⟩ := h.members b hb
  rw [hab, hq] at hp
  cases hp
  exact List.inj_on_of_nodup_map hids ha hb (by rw [← hinfo, ← hinfo'])

theorem Ready.of_target (h : w.Ready) (hk : k ∈ w.targets rank sender) :
    ∃ a ∈ w.registry.membership.members, a.handle = k ∧ ∃ p, w.peer? k = some p
      ∧ p.info = a.info ∧ p.Unhindered := by
  obtain ⟨a, ha, rfl⟩ := List.mem_map.1 hk
  have ha := List.mem_filter.1 ((perm_ranked _ _).mem_iff.1 ha)
  exact ⟨a, ha.1, rfl, h.members a ha.1⟩

/-- The order is all that a rank has a say in. -/
theorem perm_targets (w : World) (rank rank' : PeerId → Nat) (sender : PeerId) :
    (w.targets rank sender).Perm (w.targets rank' sender) :=
  ((perm_ranked _ _).trans (perm_ranked _ _).symm).map _

/-! ### One target more -/

/-- The peer that comes next is as it was. -/
theorem Written.peer? {b : Broadcast} (h : Written w₀ line done w b) (hk : k ∉ done) :
    w.peer? k = w₀.peer? k := by
  rw [World.peer?, World.peer?, h.connections k]
  cases w₀.connections[k]? with
  | none => rfl
  | some c =>
      rw [Option.map_some, reached, if_neg hk]

/-- The peer that comes next has got the wire. -/
theorem Written.setPeer {b b' : Broadcast} {p q : Peer} (h : Written w₀ line done w b)
    (hk : k ∉ done) (hp : w₀.peer? k = some p)
    (hq : p.receives w₀.shutdown line.toWire = (q, w₀.outcome line.toWire k))
    (hconnections : w₁.connections = (w.setPeer k q).connections)
    (hshutdown : w₁.shutdown = w.shutdown) (htasks : w₁.tasks = w.tasks)
    (hline : b'.line = b.line)
    (hattempts : b'.attempts = b.attempts ++ [w₀.attempt line.toWire k]) :
    Written w₀ line (done ++ [k]) w₁ b' where
  same := hline.trans h.same
  attempts := by
    rw [hattempts, h.attempts, List.map_append]
    rfl
  shutdown := hshutdown.trans h.shutdown
  here := htasks ▸ h.here
  connections := by
    intro j
    rw [hconnections, World.setPeer, List.getElem?_modify, h.connections j]
    cases hj : w₀.connections[j]? with
    | none => rfl
    | some c =>
        simp only [Option.map_some, Option.map_eq_map]
        rcases eq_or_ne k j with rfl | hne
        · have hc : c.peer = p := by
            rw [World.peer?, hj] at hp
            exact Option.some.inj hp
          rw [if_pos rfl, reached, reached, if_neg hk, if_pos (by simp), hc, hq]
        · have hmem : j ∈ done ++ [k] ↔ j ∈ done := by simp [hne.symm]
          simp only [if_neg hne, reached, hmem]

theorem removals_concat (w : World) (wire : Bytes) (done : List PeerKey) (k : PeerKey) :
    w.removals wire (done ++ [k]) = w.removals wire done ++ w.removals wire [k] :=
  List.flatMap_append

/-- A target that has not failed stays a member. -/
theorem Pruned.keeps {r : Registry} (h : Pruned w₀ line done r)
    (hk : (w₀.outcome line.toWire k).isFailed = false) : Pruned w₀ line (done ++ [k]) r where
  idle := h.idle
  members := by
    rw [h.members, remaining, remaining]
    refine List.filter_congr fun a _ => ?_
    rcases eq_or_ne a.handle k with rfl | hne
    · simp [hk]
    · simp [hne]
  events := by
    rw [h.events, removals_concat]
    simp [removals, hk]

/-- A target that has failed is removed. -/
theorem Pruned.removes {r : Registry} {p : Peer} (h : Pruned w₀ line done r) (h₀ : w₀.Ready)
    (hk : k ∉ done) (htarget : k ∈ w₀.targets rank sender) (hp : w₀.peer? k = some p)
    (hfailed : (w₀.outcome line.toWire k).isFailed = true) :
    Pruned w₀ line (done ++ [k]) (r.replied rank (.unregister p.info.id .writeFailed)) := by
  obtain ⟨a, ha, hhandle, q, hq, hinfo, -⟩ := h₀.of_target htarget
  cases hq.symm.trans hp
  have hids := h₀.registry.ordered.ids_nodup
  have hmem : a ∈ r.membership.members := by
    rw [h.members, remaining, List.mem_filter, hhandle]
    exact ⟨ha, by simp [hk]⟩
  have hfind : r.membership.find? p.info.id = some a :=
    (Membership.find?_eq_some_iff h.idle.ordered.ids_nodup).2 ⟨hmem, by rw [hinfo]⟩
  have happly : r.membership.apply rank (.unregister p.info.id .writeFailed)
      = (r.membership.erase p.info.id, .removed (some a), some (.removed a.info .writeFailed)) := by
    simp only [Membership.apply, hfind]
  refine ⟨h.idle.replied rank _, ?_, ?_⟩
  · show (r.membership.apply rank _).1.members = _
    rw [happly]
    show r.membership.members.filter _ = _
    rw [h.members, remaining, remaining, List.filter_filter]
    refine List.filter_congr fun a' ha' => ?_
    have hsame : a'.info.id = p.info.id ↔ a'.handle = k := by
      constructor
      · intro hid
        rw [List.inj_on_of_nodup_map hids ha' ha (hid.trans (by rw [hinfo])), hhandle]
      · intro hk'
        obtain ⟨q, hq, hinfo', -⟩ := h₀.members a' ha'
        rw [hk', hp] at hq
        cases hq
        rw [hinfo']
    rcases eq_or_ne a'.handle k with hk' | hne
    · simp [hsame.2 hk', hk', hfailed]
    · simp [hne, mt hsame.1 hne]
  · show r.events ++ (r.membership.apply rank _).2.2.toList = _
    rw [happly, h.events, removals_concat, List.append_assoc]
    simp [removals, hfailed, hp, hinfo]

/-! ## One broadcast by itself -/

/-- How far a broadcast by itself has come, and how many moves are left of it:
it is the last task, and the registry has nothing else to do. -/
inductive Midway (w₀ : World) (rank : PeerId → Nat) (sender : PeerId) (line : Line) :
    Nat → World → Broadcast → Prop
  | asking {n : Nat} {w : World} {b : Broadcast} {call : Call} : b.stage = .asking call →
      Written w₀ line [] w b →
      Registry.Calling w₀.registry rank (.snapshot (some sender)) n w.registry call →
      Midway w₀ rank sender line (n + 4 * (w₀.targets rank sender).length) w b
  | sending {w : World} {b : Broadcast} {done rest : List PeerKey} {k : PeerKey} :
      b.stage = .sending k (.fresh line.toWire) rest →
      w₀.targets rank sender = done ++ k :: rest → Written w₀ line done w b →
      Pruned w₀ line done w.registry →
      Midway w₀ rank sender line (4 * (k :: rest).length) w b
  | pruning {n : Nat} {w : World} {b : Broadcast} {done rest : List PeerKey} {k : PeerKey}
      {call : Call} {p : Peer} {r : Registry} : b.stage = .pruning k call rest →
      w₀.targets rank sender = done ++ k :: rest → Written w₀ line (done ++ [k]) w b →
      w₀.peer? k = some p → (w₀.outcome line.toWire k).isFailed = true →
      Pruned w₀ line done r →
      Registry.Calling r rank (.unregister p.info.id .writeFailed) n w.registry call →
      Midway w₀ rank sender line (n + 4 * rest.length) w b
  | finished {w : World} {b : Broadcast} : b.stage = .finished →
      Written w₀ line (w₀.targets rank sender) w b →
      Pruned w₀ line (w₀.targets rank sender) w.registry → Midway w₀ rank sender line 0 w b

/-- Notes are not looked at, nor is what else a broadcast knows of itself. -/
theorem Written.congr {b b' : Broadcast} (h : Written w₀ line done w b)
    (hconnections : w₁.connections = w.connections) (hshutdown : w₁.shutdown = w.shutdown)
    (htasks : w₁.tasks.length = w.tasks.length) (hline : b'.line = b.line)
    (hattempts : b'.attempts = b.attempts) : Written w₀ line done w₁ b' where
  attempts := hattempts.trans h.attempts
  same := hline.trans h.same
  connections := hconnections ▸ h.connections
  shutdown := hshutdown.trans h.shutdown
  here := htasks ▸ h.here

/-- A broadcast that goes on to its next target. -/
theorem midway_nextTarget {me : TaskKey} {b : Broadcast}
    (htargets : w₀.targets rank sender = done ++ rest) (h : Written w₀ line done w b)
    (hpruned : Pruned w₀ line done w.registry) :
    Midway w₀ rank sender line (4 * rest.length) (w.nextTarget me b rest).1
      (w.nextTarget me b rest).2 := by
  cases rest with
  | nil =>
      rw [List.append_nil] at htargets
      exact .finished rfl (htargets ▸ h.congr rfl rfl rfl rfl rfl) (htargets ▸ hpruned)
  | cons k rest =>
      refine .sending ?_ htargets (h.congr rfl rfl rfl rfl rfl) hpruned
      rw [← h.same]
      rfl

/-- What a turn of a call does. -/
inductive Goes (w : World) (r₀ : Registry) (rank : PeerId → Nat) (c : Command) (n : Nat)
    (call : Call) : Prop
  | enters : n = 3 → w.callTurn call
      = some ({ w with registry := (r₀.request c).1 }, .inl (.waiting r₀.nextTicket)) →
      Goes w r₀ rank c n call
  | waits : n = 2 → w.callTurn call = none → w.registry.queue ≠ [] → Goes w r₀ rank c n call
  | learns : n = 1 → w.callTurn call = some (w, .inr (.ok (r₀.membership.apply rank c).2.1)) →
      w.registry = r₀.replied rank c → Goes w r₀ rank c n call

theorem goes_of_calling {r₀ : Registry} {c : Command} {call : Call} (h₀ : r₀.Idle)
    (h : Registry.Calling r₀ rank c n w.registry call) : Goes w r₀ rank c n call := by
  generalize hr : w.registry = r at h
  cases h with
  | entering =>
      refine .enters rfl ?_
      simp only [callTurn, hr, h₀.admits, if_true]
      rfl
  | queued =>
      refine .waits rfl ?_ ?_
      · simp [callTurn, hr, h₀.answer?_request c]
      · rw [hr, h₀.queue_request c]
        exact List.cons_ne_nil _ _
  | served => exact .learns rfl (by simp [callTurn, hr, h₀.answer?_replied rank c]) hr

/-- A turn of a broadcast by itself: it goes on, or it waits for the registry,
or it is over. -/
inductive Turns (w₀ : World) (rank : PeerId → Nat) (sender : PeerId) (line : Line) (me : TaskKey)
    (n : Nat) (w : World) (b : Broadcast) : Prop
  | goes {w' : World} {b' : Broadcast} {n' : Nat} : w.broadcastTurn me b = some (w', b') →
      Midway w₀ rank sender line n' w' b' → n' < n → Turns w₀ rank sender line me n w b
  | waits : w.broadcastTurn me b = none → (n = 0 ∨ w.registry.queue ≠ []) →
      Turns w₀ rank sender line me n w b

theorem turns_of_asking {me : TaskKey} {b : Broadcast} {call : Call} (h₀ : w₀.Ready)
    (hstage : b.stage = .asking call) (hwritten : Written w₀ line [] w b)
    (hcalling : Registry.Calling w₀.registry rank (.snapshot (some sender)) n w.registry call) :
    Turns w₀ rank sender line me (n + 4 * (w₀.targets rank sender).length) w b := by
  cases goes_of_calling h₀.registry hcalling with
  | enters hn hturn =>
      have hbroadcast : w.broadcastTurn me b
          = some ({ w with registry := (w₀.registry.request (.snapshot (some sender))).1 },
            { b with stage := .asking (.waiting w₀.registry.nextTicket) }) := by
        simp only [broadcastTurn, hstage, hturn, Option.map_some]
      refine .goes hbroadcast (.asking rfl (hwritten.congr rfl rfl rfl rfl rfl) .queued) ?_
      rw [hn]
      omega
  | waits _ hturn hqueue =>
      refine .waits ?_ (.inr hqueue)
      simp only [broadcastTurn, hstage, hturn, Option.map_none]
  | learns hn hturn hregistry =>
      have hbroadcast : w.broadcastTurn me b = some ((w.note (.fanout me b.serial b.sender b.line
          (w₀.targets rank sender))).nextTarget me { b with targets := w₀.targets rank sender }
            (w₀.targets rank sender)) := by
        simp only [broadcastTurn, hstage, hturn, Option.map_some]
        rfl
      have hpruned : Pruned w₀ line [] w.registry := by
        rw [hregistry]
        exact ⟨h₀.registry.replied rank _,
          by simp [remaining, Registry.replied, Membership.apply],
          by simp [removals, Registry.replied, Membership.apply]⟩
      have htargets : w₀.targets rank sender = [] ++ w₀.targets rank sender := rfl
      refine .goes hbroadcast (midway_nextTarget htargets (hwritten.congr rfl rfl rfl rfl rfl)
        hpruned) ?_
      rw [hn]
      omega

/-- What is known of the target that comes next. -/
theorem Ready.next_target (h₀ : w₀.Ready) (htargets : w₀.targets rank sender = done ++ k :: rest) :
    k ∈ w₀.targets rank sender ∧ k ∉ done := by
  have hnodup : (w₀.targets rank sender).Nodup := h₀.nodup_targets
  rw [htargets] at hnodup ⊢
  exact ⟨List.mem_append_right _ List.mem_cons_self, fun hmem =>
    List.disjoint_of_nodup_append hnodup hmem List.mem_cons_self⟩

theorem turns_of_pruning {me : TaskKey} {b : Broadcast} {call : Call} {p : Peer} {r : Registry}
    (h₀ : w₀.Ready) (hstage : b.stage = .pruning k call rest)
    (htargets : w₀.targets rank sender = done ++ k :: rest)
    (hwritten : Written w₀ line (done ++ [k]) w b) (hp : w₀.peer? k = some p)
    (hfailed : (w₀.outcome line.toWire k).isFailed = true) (hpruned : Pruned w₀ line done r)
    (hcalling : Registry.Calling r rank (.unregister p.info.id .writeFailed) n w.registry call) :
    Turns w₀ rank sender line me (n + 4 * rest.length) w b := by
  cases goes_of_calling hpruned.idle hcalling with
  | enters hn hturn =>
      have hbroadcast : w.broadcastTurn me b
          = some ({ w with registry := (r.request (.unregister p.info.id .writeFailed)).1 },
            { b with stage := .pruning k (.waiting r.nextTicket) rest }) := by
        simp only [broadcastTurn, hstage, hturn, Option.map_some]
      refine .goes hbroadcast (.pruning rfl htargets (hwritten.congr rfl rfl rfl rfl rfl) hp hfailed
        hpruned .queued) ?_
      rw [hn]
      omega
  | waits _ hturn hqueue =>
      refine .waits ?_ (.inr hqueue)
      simp only [broadcastTurn, hstage, hturn, Option.map_none]
  | learns hn hturn hregistry =>
      have hbroadcast : w.broadcastTurn me b = some (w.nextTarget me b rest) := by
        simp only [broadcastTurn, hstage, hturn, Option.map_some]
      obtain ⟨hk, hnot⟩ := h₀.next_target htargets
      refine .goes hbroadcast (midway_nextTarget (by rw [htargets, List.append_assoc]; rfl) hwritten
        ?_) ?_
      · rw [hregistry]
        exact hpruned.removes h₀ hnot hk hp hfailed
      · rw [hn]
        omega

/-- A send that has not failed is counted. -/
theorem afterSend_of_kept (w : World) (me : TaskKey) (b : Broadcast) (k : PeerKey) (p : Peer)
    (rest : List PeerKey) {outcome : SendOutcome} (h : outcome.isFailed = false) :
    w.afterSend me b k p rest outcome
      = w.nextTarget me { b with attempts := b.attempts ++ [⟨k, outcome, false⟩] } rest := by
  cases outcome with
  | sent | closed => rfl
  | failed f => cases h

/-- A peer that was open and has failed is closed on the spot. -/
theorem afterSend_of_failed {me : TaskKey} {b : Broadcast} {q : Peer} {f : Failure}
    (hq : w.peer? k = some q) (hopen : q.closed = false) :
    w.afterSend me b k q rest (.failed f)
      = ((w.note (.sendFailed k q.info f)).setPeer k q.close.1,
        { b with
          attempts := b.attempts ++ [⟨k, .failed f, true⟩]
          stage := .pruning k (.entering (.unregister q.info.id .writeFailed)) rest }) := by
  have hpeer : (w.note (.sendFailed k q.info f)).peer? k = some q := hq
  have hclose : q.close = (q.close.1, true) := by
    rw [Peer.close, hopen]
    rfl
  simp only [afterSend, closePeer, hpeer]
  rw [hclose]

theorem turns_of_sending {me : TaskKey} {b : Broadcast} (h₀ : w₀.Ready)
    (hstage : b.stage = .sending k (.fresh line.toWire) rest)
    (htargets : w₀.targets rank sender = done ++ k :: rest) (hwritten : Written w₀ line done w b)
    (hpruned : Pruned w₀ line done w.registry) :
    Turns w₀ rank sender line me (4 * (k :: rest).length) w b := by
  obtain ⟨hk, hnot⟩ := h₀.next_target htargets
  obtain ⟨a, -, -, p, hp, -, hfree⟩ := h₀.of_target hk
  obtain ⟨q, outcome, hturn, hinfo, -, hreceives, hopen⟩ :=
    hfree.sendTurn me w₀.shutdown line.toWire
  have hw : w.peer? k = some p := (hwritten.peer? hnot).trans hp
  have houtcome : w₀.outcome line.toWire k = outcome := by
    rw [World.outcome, hp]
    simp only [hreceives]
  have hbroadcast : w.broadcastTurn me b
      = some ((w.setPeer k q).afterSend me b k q rest outcome) := by
    rw [broadcastTurn, hstage]
    simp only [hw]
    rw [hwritten.shutdown, hturn]
    rfl
  rw [← houtcome] at hbroadcast hreceives hopen
  cases hfailed : (w₀.outcome line.toWire k).isFailed with
  | false =>
      rw [afterSend_of_kept _ me b k q rest hfailed] at hbroadcast
      rw [hfailed] at hreceives
      have hrest : w₀.targets rank sender = (done ++ [k]) ++ rest := by
        rw [htargets, List.append_assoc]
        rfl
      have hnext : Written w₀ line (done ++ [k]) (w.setPeer k q)
          { b with attempts := b.attempts ++ [⟨k, w₀.outcome line.toWire k, false⟩] } := by
        refine hwritten.setPeer hnot hp hreceives rfl rfl rfl rfl ?_
        rw [attempt, hfailed]
      refine .goes hbroadcast (midway_nextTarget hrest hnext (hpruned.keeps hfailed)) ?_
      exact Nat.mul_lt_mul_of_pos_left (Nat.lt_succ_self _) (by decide)
  | true =>
      rw [if_pos hfailed] at hreceives
      have hq : (w.setPeer k q).peer? k = some q := by
        rw [peer?_setPeer, if_pos rfl, hw]
        rfl
      cases hf : w₀.outcome line.toWire k with
      | sent | closed => cases (congrArg SendOutcome.isFailed hf).symm.trans hfailed
      | failed f =>
          rw [hf, afterSend_of_failed hq (hopen hfailed), hinfo] at hbroadcast
          have hconnections : (((w.setPeer k q).note (.sendFailed k p.info f)).setPeer k
              q.close.1).connections = (w.setPeer k q.close.1).connections :=
            List.modify_modify_eq _ _ _ _
          have hnext : Written w₀ line (done ++ [k])
              (((w.setPeer k q).note (.sendFailed k p.info f)).setPeer k q.close.1)
              { b with
                attempts := b.attempts ++ [⟨k, .failed f, true⟩]
                stage := .pruning k (.entering (.unregister p.info.id .writeFailed)) rest } := by
            refine hwritten.setPeer hnot hp hreceives hconnections rfl rfl rfl ?_
            rw [attempt, hf]
            rfl
          refine .goes hbroadcast (.pruning rfl htargets hnext hp hfailed hpruned .entering) ?_
          rw [List.length_cons]
          omega

theorem Midway.turns {me : TaskKey} {b : Broadcast} (h₀ : w₀.Ready)
    (h : Midway w₀ rank sender line n w b) : Turns w₀ rank sender line me n w b := by
  cases h with
  | asking hstage hwritten hcalling => exact turns_of_asking h₀ hstage hwritten hcalling
  | sending hstage htargets hwritten hpruned =>
      exact turns_of_sending h₀ hstage htargets hwritten hpruned
  | pruning hstage htargets hwritten hp hfailed hpruned hcalling =>
      exact turns_of_pruning h₀ hstage htargets hwritten hp hfailed hpruned hcalling
  | finished hstage _ _ => exact .waits (by rw [broadcastTurn, hstage]) (.inl rfl)

/-- Where a task is written down is not looked at. -/
theorem Midway.setTask {b : Broadcast} (h : Midway w₀ rank sender line n w b) (t : TaskKey)
    (task : Task) : Midway w₀ rank sender line n (w.setTask t task) b := by
  have hlength : (w.setTask t task).tasks.length = w.tasks.length := List.length_set
  cases h with
  | asking hstage hwritten hcalling =>
      exact .asking hstage (hwritten.congr rfl rfl hlength rfl rfl) hcalling
  | sending hstage htargets hwritten hpruned =>
      exact .sending hstage htargets (hwritten.congr rfl rfl hlength rfl rfl) hpruned
  | pruning hstage htargets hwritten hp hfailed hpruned hcalling =>
      exact .pruning hstage htargets (hwritten.congr rfl rfl hlength rfl rfl) hp hfailed hpruned
        hcalling
  | finished hstage hwritten hpruned =>
      exact .finished hstage (hwritten.congr rfl rfl hlength rfl rfl) hpruned

/-- The last task is a broadcast by itself that has so many moves left. -/
def At (w₀ : World) (rank : PeerId → Nat) (sender : PeerId) (line : Line) (n : Nat) (w : World) :
    Prop :=
  ∃ b, w.tasks[w₀.tasks.length]? = some (.broadcast b) ∧ Midway w₀ rank sender line n w b

/-- The broadcast takes a turn: it goes on, or it has to wait, or it is over. -/
theorem At.turn (h₀ : w₀.Ready) (h : At w₀ rank sender line n w) :
    (∃ n' < n, At w₀ rank sender line n' (w.move (.turn w₀.tasks.length)))
      ∨ w.move (.turn w₀.tasks.length) = w ∧ (n = 0 ∨ w.registry.queue ≠ []) := by
  obtain ⟨b, hb, hmidway⟩ := h
  have hturn : w.turn w₀.tasks.length = (w.broadcastTurn w₀.tasks.length b).map
      fun x => x.1.setTask w₀.tasks.length (.broadcast x.2) := by
    rw [World.turn, hb, Option.bind_some, taskTurn, Option.map_map]
    rfl
  have hturns : Turns w₀ rank sender line w₀.tasks.length n w b := hmidway.turns h₀
  cases hturns with
  | waits hnone hwhy =>
      rw [hnone] at hturn
      exact .inr ⟨move_turn_of_none hturn, hwhy⟩
  | @goes w' b' n' hsome hnext hless =>
      rw [hsome] at hturn
      rw [move_turn_of_some hturn]
      have hhere : w₀.tasks.length < w'.tasks.length := by
        cases hnext with
        | asking _ hwritten _ | sending _ _ hwritten _ | pruning _ _ hwritten _ _ _ _
        | finished _ hwritten _ => exact hwritten.here
      exact .inl ⟨n', hless, b', tasks_setTask_self (List.getElem?_eq_getElem hhere) _,
        hnext.setTask _ _⟩

/-- What the registry serves. -/
theorem serve_of_calling {r₀ r : Registry} {c : Command} {call : Call} (h₀ : r₀.Idle)
    (h : Registry.Calling r₀ rank c n r call) :
    r.queue = [] ∨ ∃ event, r.serve rank = some (r₀.replied rank c, event)
      ∧ n = 2 ∧ Registry.Calling r₀ rank c 1 (r₀.replied rank c) call := by
  cases h with
  | entering => exact .inl h₀.queue
  | queued => exact .inr ⟨_, h₀.serve_request rank c, rfl, .served⟩
  | served => exact .inl (h₀.replied rank c).queue

theorem move_serve {r : Registry} {event : Option Change}
    (h : w.registry.serve rank = some (r, event)) :
    ∃ ns, w.move (.serve rank) = ({ w with registry := r } : World).noted ns := by
  show ∃ ns, (w.serve rank).getD w = _
  rw [serve, h]
  have hnone : ∃ ns, ({ w with registry := r } : World) = noted { w with registry := r } ns :=
    ⟨[], by simp [noted]⟩
  cases event with
  | none => exact hnone
  | some e =>
      cases e with
      | registered _ => exact hnone
      | removed peer reason => exact ⟨[_], rfl⟩

theorem move_serve_of_queue (h : w.registry.queue = []) : w.move (.serve rank) = w := by
  show (w.serve rank).getD w = w
  rw [serve, Registry.serve, h]
  rfl

/-- The registry takes a turn: it serves the broadcast, or has nothing to do. -/
theorem At.serve (h₀ : w₀.Ready) (h : At w₀ rank sender line n w) :
    (∃ n' < n, At w₀ rank sender line n' (w.move (.serve rank)))
      ∨ w.move (.serve rank) = w ∧ w.registry.queue = [] := by
  obtain ⟨b, hb, hmidway⟩ := h
  have hnothing : w.registry.queue = [] →
      (∃ n' < n, At w₀ rank sender line n' (w.move (.serve rank)))
        ∨ w.move (.serve rank) = w ∧ w.registry.queue = [] :=
    fun hqueue => .inr ⟨move_serve_of_queue hqueue, hqueue⟩
  cases hmidway with
  | sending _ _ _ hpruned | finished _ _ hpruned => exact hnothing hpruned.idle.queue
  | asking hstage hwritten hcalling =>
      rcases serve_of_calling h₀.registry hcalling with hqueue | ⟨event, hserve, rfl, hserved⟩
      · exact hnothing hqueue
      · obtain ⟨ns, hmove⟩ := move_serve hserve
        rw [hmove]
        refine .inl ⟨_, ?_, b, hb, .asking hstage (hwritten.congr rfl rfl rfl rfl rfl) hserved⟩
        omega
  | pruning hstage htargets hwritten hp hfailed hpruned hcalling =>
      rcases serve_of_calling hpruned.idle hcalling with hqueue | ⟨event, hserve, rfl, hserved⟩
      · exact hnothing hqueue
      · obtain ⟨ns, hmove⟩ := move_serve hserve
        rw [hmove]
        refine .inl ⟨_, ?_, b, hb, .pruning hstage htargets (hwritten.congr rfl rfl rfl rfl rfl) hp
          hfailed hpruned hserved⟩
        omega

/-- A broadcast that begins by itself. -/
theorem at_begin (w : World) (rank : PeerId → Nat) (sender : PeerId) (line : Line) :
    At w rank sender line (3 + 4 * (w.targets rank sender).length)
      (w.spawn (.broadcast (.begin 0 sender line))) := by
  refine ⟨.begin 0 sender line, List.getElem?_concat_length, .asking rfl ?_ .entering⟩
  refine ⟨rfl, rfl, fun k => ?_, rfl, by simp [spawn]⟩
  have hsame : w.reached line.toWire [] k = id := by
    funext c
    exact if_neg List.not_mem_nil
  rw [hsame, Option.map_id]
  rfl

/-- The moves in which a broadcast is alone with the registry. -/
def Alone (w : World) (rank : PeerId → Nat) (m : Move) : Prop :=
  m = .serve rank ∨ m = .turn w.tasks.length

/-- Someone broadcasts the line, and the registry and the broadcast go on, in
any order, until it is over; the snapshot lists by the rank. -/
structure Solo (w : World) (rank : PeerId → Nat) (sender : PeerId) (line : Line) (out : Fanout)
    (w' : World) : Prop where
  run : ∃ moves, (∀ m ∈ moves, w.Alone rank m)
    ∧ (w.spawn (.broadcast (.begin 0 sender line))).run moves = w'
  report : w'.tasks[w.tasks.length]?.bind Task.value? = some (.report out.report)
  events : w'.registry.events = w.registry.events ++ out.events

theorem at_run (h₀ : w₀.Ready) (h : At w₀ rank sender line n w) {moves : List Move}
    (hmoves : ∀ m ∈ moves, w₀.Alone rank m) :
    ∃ n' ≤ n, At w₀ rank sender line n' (w.run moves) := by
  induction moves generalizing w n with
  | nil => exact ⟨n, Nat.le_refl _, h⟩
  | cons m moves ih =>
      obtain ⟨hm, hmoves⟩ := List.forall_mem_cons.1 hmoves
      obtain ⟨n₁, hle, hnext⟩ : ∃ n₁ ≤ n, At w₀ rank sender line n₁ (w.move m) := by
        rcases hm with rfl | rfl
        · rcases h.serve h₀ with ⟨n₁, hlt, hnext⟩ | ⟨hsame, -⟩
          · exact ⟨n₁, hlt.le, hnext⟩
          · exact ⟨n, Nat.le_refl _, hsame.symm ▸ h⟩
        · rcases h.turn h₀ with ⟨n₁, hlt, hnext⟩ | ⟨hsame, -⟩
          · exact ⟨n₁, hlt.le, hnext⟩
          · exact ⟨n, Nat.le_refl _, hsame.symm ▸ h⟩
      obtain ⟨n', hle', hlast⟩ := ih hnext hmoves
      exact ⟨n', hle'.trans hle, hlast⟩

/-- The broadcast and the registry take turns. -/
def rounds (w : World) (rank : PeerId → Nat) (n : Nat) : List Move :=
  (List.replicate n [.turn w.tasks.length, .serve rank]).flatten

theorem alone_rounds (w : World) (rank : PeerId → Nat) (n : Nat) :
    ∀ m ∈ w.rounds rank n, w.Alone rank m := by
  intro m hm
  obtain ⟨pair, hpair, hm⟩ := List.mem_flatten.1 hm
  rw [(List.mem_replicate.1 hpair).2] at hm
  rcases List.mem_pair.1 hm with rfl | rfl
  · exact .inr rfl
  · exact .inl rfl

/-- If they do so as often as there are moves left, the broadcast is through. -/
theorem at_rounds (h₀ : w₀.Ready) {N : Nat} (hN : n ≤ N) (h : At w₀ rank sender line n w) :
    At w₀ rank sender line 0 (w.run (w₀.rounds rank N)) := by
  induction N generalizing w n with
  | zero =>
      obtain rfl := Nat.le_zero.1 hN
      exact h
  | succ N ih =>
      show At w₀ rank sender line 0 (((w.move (.turn w₀.tasks.length)).move (.serve rank)).run
        (w₀.rounds rank N))
      rcases h.turn h₀ with ⟨n₁, hless, hnext⟩ | ⟨hsame, hwhy⟩
      · rcases hnext.serve h₀ with ⟨n₂, hless', hlast⟩ | ⟨hsame', -⟩
        · exact ih (by omega) hlast
        · exact ih (Nat.le_of_lt_succ (hless.trans_le hN)) (hsame'.symm ▸ hnext)
      · rw [hsame]
        rcases h.serve h₀ with ⟨n₁, hless, hnext⟩ | ⟨hsame', hnone⟩
        · exact ih (Nat.le_of_lt_succ (hless.trans_le hN)) hnext
        · -- the broadcast does not wait for the registry, so it is through
          obtain rfl := hwhy.resolve_right fun hqueue => hqueue hnone
          exact ih (Nat.zero_le _) (hsame'.symm ▸ h)

theorem calling_pos {r₀ r : Registry} {c : Command} {call : Call}
    (h : Registry.Calling r₀ rank c n r call) : 0 < n := by
  cases h <;> decide

/-- A broadcast by itself that is over, or has no move left, has been through
its targets. -/
theorem Midway.finish {b : Broadcast} (h : Midway w₀ rank sender line n w b)
    (hend : n = 0 ∨ b.isOver = true) :
    b.isOver = true ∧ Written w₀ line (w₀.targets rank sender) w b
      ∧ Pruned w₀ line (w₀.targets rank sender) w.registry := by
  have hnot : ∀ {stage}, b.stage = stage → stage ≠ .finished → b.isOver = false := by
    intro stage hstage hne
    rw [Broadcast.isOver, hstage]
    exact decide_eq_false hne
  cases h with
  | finished hstage hwritten hpruned => exact ⟨decide_eq_true hstage, hwritten, hpruned⟩
  | asking hstage _ hcalling =>
      have hpos := calling_pos hcalling
      rw [hnot hstage BroadcastStage.noConfusion] at hend
      exact absurd (hend.resolve_right Bool.false_ne_true) (by omega)
  | sending hstage _ _ _ =>
      rw [hnot hstage BroadcastStage.noConfusion] at hend
      exact absurd (hend.resolve_right Bool.false_ne_true) (by simp)
  | pruning hstage _ _ _ _ _ hcalling =>
      have hpos := calling_pos hcalling
      rw [hnot hstage BroadcastStage.noConfusion] at hend
      exact absurd (hend.resolve_right Bool.false_ne_true) (by omega)

/-- What a broadcast by itself comes to. -/
structure Came (w₀ : World) (rank : PeerId → Nat) (sender : PeerId) (line : Line) (out : Fanout)
    (w : World) : Prop where
  written : ∃ b, Written w₀ line (w₀.targets rank sender) w b ∧ b.report = out.report
  pruned : Pruned w₀ line (w₀.targets rank sender) w.registry
  events : out.events = w₀.removals line.toWire (w₀.targets rank sender)

theorem Solo.came {out : Fanout} (h₀ : w₀.Ready) (h : Solo w₀ rank sender line out w) :
    Came w₀ rank sender line out w := by
  obtain ⟨moves, hmoves, rfl⟩ := h.run
  obtain ⟨n, -, b, hb, hmidway⟩ := at_run h₀ (at_begin w₀ rank sender line) hmoves
  have hvalue := h.report
  rw [hb, Option.bind_some, Task.value?] at hvalue
  split_ifs at hvalue with hover
  obtain ⟨-, hwritten, hpruned⟩ := hmidway.finish (.inr hover)
  refine ⟨⟨b, hwritten, ?_⟩, hpruned, ?_⟩
  · exact TaskValue.report.inj (Option.some.inj hvalue)
  · exact List.append_cancel_left (h.events.symm.trans hpruned.events)

theorem exists_solo (h₀ : w₀.Ready) (rank : PeerId → Nat) (sender : PeerId) (line : Line) :
    ∃ out w, Solo w₀ rank sender line out w := by
  obtain ⟨b, hb, hmidway⟩ := at_rounds h₀ (Nat.le_refl _) (at_begin w₀ rank sender line)
  obtain ⟨hover, -, hpruned⟩ := hmidway.finish (.inl rfl)
  refine ⟨⟨b.report, w₀.removals line.toWire (w₀.targets rank sender)⟩, _,
    ⟨_, alone_rounds w₀ rank _, rfl⟩, ?_, hpruned.events⟩
  rw [hb, Option.bind_some, Task.value?, if_pos hover]

/-- After a broadcast by itself there may be another. -/
theorem Came.ready {out : Fanout} (h₀ : w₀.Ready) (h : Came w₀ rank sender line out w) :
    w.Ready where
  registry := h.pruned.idle
  members := by
    intro a ha
    rw [h.pruned.members] at ha
    obtain ⟨p, hp, hinfo, hfree⟩ := h₀.members a (List.mem_filter.1 ha).1
    obtain ⟨b, hwritten, -⟩ := h.written
    obtain ⟨c, hc, rfl⟩ := Option.map_eq_some_iff.1 hp
    rw [peer?, hwritten.connections, hc]
    refine ⟨_, rfl, ?_⟩
    obtain ⟨hfree', hinfo'⟩ := hfree.receives w₀.shutdown line.toWire
    rw [reached]
    split_ifs
    · exact ⟨hinfo'.trans hinfo, hfree'⟩
    · exact ⟨hinfo, hfree⟩

end World

end LineRelay
