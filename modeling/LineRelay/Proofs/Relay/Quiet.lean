/-
# Who is there when nobody can go on

In a quiet world no request is open, and after a shutdown no worker is
left, since no peer is open at whose outlet one could wait.  So of the
roster remains that the members are the open peers, which is what the
registry says to whoever asks.

What the world says about who is there:

| | |
| :-- | :-- |
| `openPeers` | the peers that do not count as closed |
| `Lists` | asked for its members, in any way, the registry names these |
-/
import LineRelay.Proofs.Relay.Roster
import LineRelay.Proofs.Relay.Standstill

namespace LineRelay

/-! ## After a shutdown -/

/-- In every world of a run of one server, what is under way has more to
do. -/
theorem World.busy_run {listen : String} {maxLine : Option UInt64} {interval : Nat}
    {moves : List Move} (hmoves : ∀ m ∈ moves, m.Hosted) :
    ((hosting listen maxLine interval).run moves).StagesOpen :=
  stagesOpen_run (isNew_hosting listen maxLine interval).stagesOpen (permitted_of_hosted hmoves _)

namespace World

variable {w : World}

/-- After a shutdown, no worker is left. -/
theorem Quiet.finished (h : w.Quiet) (hw : w.Requests) (hlocks : w.Locks) (hstages : w.StagesOpen)
    (hstaff : w.Staffed) (hshutdown : w.shutdown = true) {t : TaskKey} {wk : Worker}
    (ht : w.tasks[t]? = some (.worker wk)) : ∃ reason, wk.stage = .finished reason := by
  have hsignalled : ∀ {k : PeerKey} {p : Peer}, w.peer? k = some p →
      p.signalled w.shutdown = true := by
    intro k p hp
    simp [Peer.signalled, (hstaff.peers hp).2.1, hshutdown]
  obtain ⟨p, hp⟩ := hw.workers ht
  rcases h.finished_or_at hw hlocks hstages ht hp (hsignalled hp) with
    hover | ⟨j, state, -, q, -, -, hq, hopen, -⟩
  · exact hover
  · cases (hsignalled hq).symm.trans hopen

/-- What is known of a quiet world of a run of one server. -/
structure QuietHosted (w : World) : Prop extends Quiet w where
  requests : w.Requests
  locks : w.Locks
  staff : w.Staffed
  roster : w.Roster
  busy : w.StagesOpen

/-! ## Who is there -/

/-- The peers that do not count as closed. -/
def openPeers (w : World) : List PeerKey :=
  (List.range w.connections.length).filter fun k =>
    (w.peer? k).any fun p => !p.isClosed w.shutdown

theorem mem_openPeers {k : PeerKey} :
    k ∈ w.openPeers ↔ ∃ p, w.peer? k = some p ∧ p.isClosed w.shutdown = false := by
  rw [openPeers, List.mem_filter, List.mem_range, Option.any_eq_true]
  constructor
  · rintro ⟨-, p, hp, hopen⟩
    exact ⟨p, hp, by simpa using hopen⟩
  · rintro ⟨p, hp, hopen⟩
    exact ⟨lt_length_of_peer? hp, p, hp, by simpa using hopen⟩

theorem nodup_openPeers (w : World) : w.openPeers.Nodup := List.nodup_range.filter _

/-- What the registry replies to each question after its members: these
peers, and who they are. -/
structure Lists (w : World) (ks : List PeerKey) : Prop where
  snapshot : ∀ rank except, ∃ ms,
    (w.registry.membership.apply rank (.snapshot except)).2.1 = .members ms
      ∧ (ms.map (·.handle)).Perm (ks.filter fun k => (w.peer? k).map (·.info.id) ≠ except)
      ∧ ∀ a ∈ ms, (w.peer? a.handle).map (·.info) = some a.info
  size : ∀ rank, (w.registry.membership.apply rank .size).2.1 = .count ks.length
  contains : ∀ rank id, ∃ b, (w.registry.membership.apply rank (.contains id)).2.1 = .present b
    ∧ (b = true ↔ ∃ k ∈ ks, ∃ p, w.peer? k = some p ∧ p.info.id = id)

/-- If the peers that are registered are these, then so are the replies. -/
theorem Requests.lists (hw : w.Requests) {ks : List PeerKey} (hks : ks.Nodup)
    (hmem : ∀ k, k ∈ ks ↔ ∃ p, w.peer? k = some p
      ∧ ∃ a ∈ w.registry.membership.members, a.handle = k) : w.Lists ks := by
  have hperm : (w.registry.membership.members.map (·.handle)).Perm ks := by
    refine (List.perm_ext_iff_of_nodup hw.handles_nodup hks).2 ?_
    intro k
    rw [hmem, List.mem_map]
    constructor
    · rintro ⟨a, ha, rfl⟩
      obtain ⟨p, hp, -⟩ := Option.map_eq_some_iff.1 (hw.names_member ha)
      exact ⟨p, hp, a, ha, rfl⟩
    · rintro ⟨-, -, a, ha, rfl⟩
      exact ⟨a, ha, rfl⟩
  refine ⟨fun rank except => ⟨_, rfl, ?_, ?_⟩, ?_, fun rank id => ⟨_, rfl, ?_⟩⟩
  · refine ((perm_ranked _ _).map _).trans ?_
    have hfilter : (w.registry.membership.members.filter fun a => some a.info.id ≠ except)
        = w.registry.membership.members.filter
          ((fun k => (w.peer? k).map (·.info.id) ≠ except) ∘ (·.handle)) := by
      refine List.filter_congr ?_
      intro a ha
      obtain ⟨p, hp, hinfo⟩ := Option.map_eq_some_iff.1 (hw.names_member ha)
      simp [hp, hinfo]
    rw [hfilter, ← List.filter_map]
    exact hperm.filter _
  · intro a ha
    have ha := (perm_ranked _ _).mem_iff.1 ha
    exact hw.names_member (List.mem_filter.1 ha).1
  · intro rank
    rw [← hperm.length_eq, List.length_map]
    rfl
  · rw [Membership.contains_iff]
    constructor
    · rintro ⟨a, ha, rfl⟩
      obtain ⟨p, hp, hinfo⟩ := Option.map_eq_some_iff.1 (hw.names_member ha)
      exact ⟨a.handle, hperm.mem_iff.1 (List.mem_map.2 ⟨a, ha, rfl⟩), p, hp, by rw [hinfo]⟩
    · rintro ⟨k, hk, p, hp, rfl⟩
      obtain ⟨-, -, a, ha, rfl⟩ := (hmem k).1 hk
      obtain ⟨q, hq, hinfo⟩ := Option.map_eq_some_iff.1 (hw.names_member ha)
      cases hq.symm.trans hp
      exact ⟨a, ha, by rw [hinfo]⟩

section QuietHosted

variable {k : PeerKey} {p : Peer}

theorem QuietHosted.no_call (h : w.QuietHosted) {t : TaskKey} {x : Purpose × Call} :
    w.call? t ≠ some x :=
  fun hcall => by cases (h.call? h.requests t).symm.trans hcall

/-- Every peer has been registered. -/
theorem QuietHosted.arrivals (h : w.QuietHosted) (hp : w.peer? k = some p) :
    w.registry.arrivals (.ofKey k) = 1 :=
  h.roster.enrolled hp fun _ _ hcall => absurd hcall h.no_call

theorem QuietHosted.absent_of_gone (h : w.QuietHosted) (hp : w.peer? k = some p)
    (hgone : w.registry.Gone (.ofKey k)) : w.registry.membership.contains (.ofKey k) = false := by
  rcases hgone with ⟨habsent, -⟩ | htwice
  · exact habsent
  · rw [h.arrivals hp] at htwice
    omega

/-- A peer is registered exactly if it is open. -/
theorem QuietHosted.contains_eq (h : w.QuietHosted) (hp : w.peer? k = some p) :
    w.registry.membership.contains (.ofKey k) = !p.isClosed w.shutdown := by
  obtain ⟨-, hunder, hfired⟩ := h.staff.peers hp
  have hisClosed : p.isClosed w.shutdown = (p.closed || w.shutdown) := by
    rw [Peer.isClosed, Peer.signalled, hunder, hfired, Bool.true_and, ← Bool.or_assoc, Bool.or_self]
  rw [hisClosed]
  cases hcontains : w.registry.membership.contains (.ofKey k) with
  | false =>
      rcases h.roster.removed hp (h.arrivals hp).ge hcontains with
        hclosed | ⟨t, wk, reason, tk, ht, -, hstage⟩
      · simp [hclosed]
      · exact absurd (call?_leaving ht hstage) h.no_call
  | true =>
      have hpresent : ¬ w.registry.Gone (.ofKey k) := by
        intro hgone
        cases (h.absent_of_gone hp hgone).symm.trans hcontains
      rw [eq_comm, Bool.not_eq_true', Bool.or_eq_false_iff]
      constructor
      · refine Bool.eq_false_iff.2 ?_
        intro hclosed
        rcases (h.roster.closed hp hclosed).2 with hgone | ⟨t, call, hcall, -⟩
        · exact hpresent hgone
        · exact h.no_call hcall
      · refine Bool.eq_false_iff.2 ?_
        intro hshutdown
        obtain ⟨t, wk, ht, rfl⟩ := h.staff.hired hp
        obtain ⟨reason, hstage⟩ := h.finished h.requests h.locks h.busy h.staff hshutdown ht
        exact hpresent (h.roster.finished ht hstage).1

/-- The members are the open peers. -/
theorem QuietHosted.mem_openPeers_iff (h : w.QuietHosted)
    (hsize : w.connections.length ≤ UInt64.size) :
    k ∈ w.openPeers ↔ ∃ p, w.peer? k = some p
      ∧ ∃ a ∈ w.registry.membership.members, a.handle = k := by
  rw [mem_openPeers]
  refine exists_congr fun p => and_congr_right fun hp => ?_
  have hlt : ∀ {j p}, w.peer? j = some p → j < UInt64.size := fun hp =>
    (lt_length_of_peer? hp).trans_le hsize
  rw [← Bool.not_eq_true', ← h.contains_eq hp, Membership.contains_iff]
  refine exists_congr fun a => and_congr_right fun ha => ?_
  obtain ⟨q, hq, hinfo⟩ := Option.map_eq_some_iff.1 (h.requests.names_member ha)
  rw [← hinfo, (h.staff.peers hq).1]
  exact ⟨PeerId.ofKey_inj (hlt hq) (hlt hp), fun hk => by rw [hk]⟩

end QuietHosted

end World

/-- In every world of a run of one server in which nobody can go on, while
the registry serves and the 64-bit numbers of the connections have not
come around: the registry names the open peers to whoever asks, no peer
whose worker has ended is registered, and every peer was registered once,
and removed once if it is not open and never if it is. -/
theorem quiet_membership {listen : String} {maxLine : Option UInt64} {interval : Nat}
    {moves : List Move} (hmoves : ∀ m ∈ moves, m.Hosted)
    {w : World} (hw : (World.hosting listen maxLine interval).run moves = w)
    (hserving : w.registry.service = .serving) (hsize : w.connections.length ≤ UInt64.size)
    (hquiet : w.isQuiet = true) :
    w.Lists w.openPeers
    ∧ (∀ (t : TaskKey) (wk : Worker) (reason : Reason), w.tasks[t]? = some (.worker wk) →
        wk.stage = .finished reason → ∃ p, w.peer? wk.peer = some p
          ∧ w.registry.membership.contains p.info.id = false)
    ∧ ∀ k p, w.peer? k = some p → w.registry.arrivals p.info.id = 1
        ∧ w.registry.departures p.info.id = if k ∈ w.openPeers then 0 else 1 := by
  have h₀ := World.isNew_hosting listen maxLine interval
  have hpermitted := permitted_of_hosted hmoves (World.hosting listen maxLine interval)
  have hrests : w.QuietHosted := by
    subst hw
    exact ⟨World.quiet_of_isQuiet hquiet, World.requests_run h₀.requests hpermitted,
      World.locks_run h₀.locks hpermitted, World.staffed_run hmoves,
      World.roster_run hmoves hserving hsize, World.busy_run hmoves⟩
  refine ⟨hrests.requests.lists w.nodup_openPeers fun k => hrests.mem_openPeers_iff hsize, ?_, ?_⟩
  · intro t wk reason ht hstage
    obtain ⟨p, hp⟩ := hrests.requests.workers ht
    refine ⟨p, hp, ?_⟩
    rw [(hrests.staff.peers hp).1]
    exact hrests.absent_of_gone hp (hrests.roster.finished ht hstage).1
  · intro k p hp
    rw [(hrests.staff.peers hp).1]
    have hone := hrests.arrivals hp
    have hbalance := hrests.requests.balanced hserving (.ofKey k)
    have hopen : k ∈ w.openPeers ↔ w.registry.membership.contains (.ofKey k) = true := by
      rw [World.mem_openPeers, hrests.contains_eq hp]
      simp [hp]
    refine ⟨hone, ?_⟩
    simp only [hopen]
    split_ifs at hbalance ⊢ <;> omega

/-- Three connections: the first says hi, the write to the third fails, and
the second ends. -/
def departing : List Move :=
  let joins (transport : Transport) : Move := .arrive 0 (.connection ⟨"peer"⟩ transport .silent)
  let asks (t : TaskKey) : List Move := [.turn t, .serve World.byId, .turn t]
  [.turn 0, joins {}, joins {}, joins { writes := [.fails ⟨.brokenPipe, none⟩] },
      .turn 0, .turn 0, .turn 0]
    ++ asks 2 ++ asks 3 ++ asks 4
    ++ [.supply 0 (.data [104, 105, 10]), .turn 2] ++ asks 2 ++ [.turn 2, .turn 2] ++ asks 2
    ++ [.turn 4] ++ asks 4 ++ [.supply 1 .ended, .turn 3] ++ asks 3

set_option maxRecDepth 4000 in
/-- At the end of `departing`, the first connection is the only one that is
registered. -/
theorem quiet_membership_departing : (∀ m ∈ departing, m.Hosted)
    ∧ ∃ w, (World.hosting "relay" none 1000).run departing = w ∧ w.isQuiet = true
      ∧ w.connections.length = 3 ∧ w.openPeers = [0] ∧ w.Lists [0]
      ∧ ∀ k p, w.peer? k = some p → w.registry.arrivals p.info.id = 1
          ∧ w.registry.departures p.info.id = if k ∈ [0] then 0 else 1 := by
  have hmoves : ∀ m ∈ departing, m.Hosted := by decide
  have hquiet : ((World.hosting "relay" none 1000).run departing).isQuiet = true := by
    decide +kernel
  have hopen : ((World.hosting "relay" none 1000).run departing).openPeers = [0] := by
    decide +kernel
  have hlength : ((World.hosting "relay" none 1000).run departing).connections.length = 3 := by
    decide +kernel
  obtain ⟨hlists, -, hevents⟩ := quiet_membership hmoves rfl (by decide +kernel)
    (by rw [hlength]; decide) hquiet
  rw [hopen] at hlists hevents
  exact ⟨hmoves, _, rfl, hquiet, hlength, hopen, hlists, hevents⟩

end LineRelay
