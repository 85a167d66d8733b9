/-
# The order of a snapshot

In which order a snapshot lists its peers is not the registry's to say.  Two
runs of the same broadcasts, one after the other, whose snapshots list in
different orders come to the same (`orders_agree`):

| | |
| :-- | :-- |
| what each broadcast reports | the same |
| what each peer has received, and whether it is closed | the same |
| who is a member in the end | the same |
| the removals that a broadcast leads to | the same, in another order |

For what a broadcast does to a peer is a matter of that peer alone, and the
targets in another order are the same targets.  So the worlds after the first
broadcast are alike (`World.Alike`), the next one has the same targets again,
and so on.  An order is given by a rank of the ids, and every order is
(`Membership.exists_rank`).

## What this is not

Broadcasts that overlap are not looked at.  With them the order of a snapshot
matters: who comes first in it may get two lines in another order.
-/
import LineRelay.Proofs.Relay.Solo

namespace LineRelay

/-! ## Any order -/

theorem pairwise_insertRanked {α : Type} {rank : α → Nat} (a : α) {as : List α}
    (h : as.Pairwise (rank · ≤ rank ·)) :
    (insertRanked rank a as).Pairwise (rank · ≤ rank ·) := by
  induction as with
  | nil => exact List.pairwise_singleton _ _
  | cons b bs ih =>
      obtain ⟨hb, hbs⟩ := List.pairwise_cons.1 h
      rw [insertRanked]
      split_ifs with hab
      · refine List.pairwise_cons.2 ⟨fun c hc => ?_, h⟩
        rcases List.mem_cons.1 hc with rfl | hc
        · exact hab
        · exact hab.trans (hb c hc)
      · refine List.pairwise_cons.2 ⟨fun c hc => ?_, ih hbs⟩
        rcases List.mem_cons.1 ((perm_insertRanked rank a bs).mem_iff.1 hc) with rfl | hc
        · exact (Nat.lt_of_not_le hab).le
        · exact hb c hc

theorem pairwise_ranked {α : Type} (rank : α → Nat) (as : List α) :
    (ranked rank as).Pairwise (rank · ≤ rank ·) := by
  induction as with
  | nil => exact .nil
  | cons a as ih => exact pairwise_insertRanked a ih

/-- There is a rank for each order of the members. -/
theorem Membership.exists_rank {m : Membership} (hids : (m.members.map (·.info.id)).Nodup)
    {except : Option PeerId} {as : List Member}
    (h : as.Perm (m.members.filter fun a => some a.info.id ≠ except)) :
    ∃ rank, m.list rank except = as := by
  have hnodup : (as.map (·.info.id)).Nodup :=
    (h.map _).nodup_iff.2 (hids.sublist (List.filter_sublist.map _))
  -- the rank of a member is its place
  let rank (id : PeerId) : Nat := (as.map (·.info.id)).idxOf id
  have hplace : ∀ {i} (hi : i < as.length), rank as[i].info.id = i := by
    intro i hi
    have hidx := hnodup.idxOf_getElem i (by simpa using hi)
    rwa [List.getElem_map] at hidx
  have has : as.Pairwise fun a b => rank a.info.id ≤ rank b.info.id := by
    refine List.pairwise_iff_getElem.2 fun i j hi hj hij => ?_
    rw [hplace hi, hplace hj]
    exact hij.le
  have hperm := (perm_ranked (fun a : Member => rank a.info.id) _).trans h.symm
  refine ⟨rank, hperm.eq_of_pairwise ?_ (pairwise_ranked _ _) has⟩
  intro a b ha hb hab hba
  have ha : a ∈ as := hperm.mem_iff.1 ha
  have hid : a.info.id = b.info.id :=
    (List.idxOf_inj (List.mem_map_of_mem ha)).1 (le_antisymm hab hba)
  exact List.inj_on_of_nodup_map hnodup ha hb hid

namespace World

variable {w w' w₀ w₁ : World} {rank rank' : PeerId → Nat} {sender : PeerId} {line : Line}

/-! ## Two orders -/

/-- The connections are the same, with what each peer has received, whether it
is closed and how its transport will answer; and so are the members and the
shutdown signal. -/
structure Alike (w w' : World) : Prop where
  connections : w'.connections = w.connections
  membership : w'.registry.membership = w.registry.membership
  shutdown : w'.shutdown = w.shutdown

theorem Alike.targets (h : w.Alike w') (rank : PeerId → Nat) (sender : PeerId) :
    w'.targets rank sender = w.targets rank sender := by
  rw [World.targets, h.membership]
  rfl

theorem Alike.peer? (h : w.Alike w') : w'.peer? = w.peer? := by
  funext k
  rw [World.peer?, h.connections]
  rfl

theorem Alike.outcome (h : w.Alike w') : w'.outcome = w.outcome := by
  funext wire k
  rw [World.outcome, h.peer?, h.shutdown]
  rfl

theorem Alike.attempt (h : w.Alike w') : w'.attempt = w.attempt := by
  funext wire k
  rw [World.attempt, h.outcome]
  rfl

theorem Alike.removals (h : w.Alike w') : w'.removals = w.removals := by
  funext wire done
  rw [World.removals, h.outcome, h.peer?]
  rfl

/-- Broadcasts of one line by themselves, in worlds that are alike, come to the
same whatever the order of their targets. -/
theorem Came.agrees {out out' : Fanout} (halike : w₀.Alike w₁)
    (h : Came w₀ rank sender line out w) (h' : Came w₁ rank' sender line out' w') :
    w.Alike w' ∧ out.report = out'.report ∧ out.events.Perm out'.events := by
  have hperm : (w₀.targets rank sender).Perm (w₁.targets rank' sender) := by
    rw [halike.targets]
    exact w₀.perm_targets rank rank' sender
  obtain ⟨b, hwritten, hreport⟩ := h.written
  obtain ⟨b', hwritten', hreport'⟩ := h'.written
  refine ⟨⟨?_, ?_, ?_⟩, ?_, ?_⟩
  · refine List.ext_getElem? fun k => ?_
    rw [hwritten.connections, hwritten'.connections, halike.connections]
    refine congrArg (fun f => Option.map f w₀.connections[k]?) (funext fun c => ?_)
    simp only [reached, hperm.mem_iff, halike.shutdown]
  · have hmembers : w'.registry.membership.members = w.registry.membership.members := by
      rw [h.pruned.members, h'.pruned.members, remaining, remaining, halike.membership,
        halike.outcome]
      refine List.filter_congr fun a _ => ?_
      simp only [hperm.mem_iff]
    cases hm : w.registry.membership
    cases hm' : w'.registry.membership
    rw [hm, hm'] at hmembers
    exact congrArg Membership.mk hmembers
  · rw [hwritten'.shutdown, hwritten.shutdown, halike.shutdown]
  · have hattempts : b.attempts.Perm b'.attempts := by
      rw [hwritten.attempts, hwritten'.attempts, halike.attempt]
      exact hperm.map _
    rw [← hreport, ← hreport', Broadcast.report, Broadcast.report, hattempts.countP_eq,
      hattempts.countP_eq]
  · rw [h.events, h'.events, halike.removals]
    exact hperm.flatMap_right _

/-- Broadcasts by themselves, one after the other: whose lines they are, how
their snapshots list, and what comes of them. -/
inductive Series : World → List (PeerId × Line) → List (PeerId → Nat) → List Fanout → World → Prop
  | nil {w : World} : Series w [] [] [] w
  | cons {w w' w'' : World} {sender : PeerId} {line : Line} {lines : List (PeerId × Line)}
      {rank : PeerId → Nat} {ranks : List (PeerId → Nat)} {out : Fanout} {outs : List Fanout} :
      Solo w rank sender line out w' → Series w' lines ranks outs w'' →
      Series w ((sender, line) :: lines) (rank :: ranks) (out :: outs) w''

theorem exists_series (h : w.Ready) (lines : List (PeerId × Line)) {ranks : List (PeerId → Nat)}
    (hlength : ranks.length = lines.length) : ∃ outs w', Series w lines ranks outs w' := by
  induction lines generalizing w ranks with
  | nil =>
      obtain rfl := List.length_eq_zero_iff.1 hlength
      exact ⟨[], w, .nil⟩
  | cons l lines ih =>
      obtain ⟨rank, ranks, rfl⟩ := List.exists_cons_of_length_eq_add_one hlength
      obtain ⟨sender, line⟩ := l
      obtain ⟨out, w₁, hsolo⟩ := exists_solo h rank sender line
      obtain ⟨outs, w', hseries⟩ := ih ((hsolo.came h).ready h) (Nat.succ.inj hlength)
      exact ⟨out :: outs, w', .cons hsolo hseries⟩

theorem Series.ready {lines : List (PeerId × Line)} {ranks : List (PeerId → Nat)}
    {outs : List Fanout} (h : Series w lines ranks outs w') (hready : w.Ready) : w'.Ready := by
  induction h with
  | nil => exact hready
  | cons hsolo _ ih => exact ih ((hsolo.came hready).ready hready)

/-- What two runs have in common that differ in the order of the targets. -/
structure Agree (outs outs' : List Fanout) (w w' : World) : Prop extends Alike w w' where
  reports : outs.map (·.report) = outs'.map (·.report)
  events : List.Forall₂ (fun out out' => out.events.Perm out'.events) outs outs'
  pruned : ∀ out ∈ outs, ∀ e ∈ out.events, ∃ peer, e = .removed peer .writeFailed

theorem pruned_of_removals {wire : Bytes} {ks : List PeerKey} {e : Change}
    (h : e ∈ w.removals wire ks) : ∃ peer, e = .removed peer .writeFailed := by
  obtain ⟨k, -, he⟩ := List.mem_flatMap.1 h
  split_ifs at he with hfailed
  · obtain ⟨p, -, hp⟩ := Option.map_eq_some_iff.1 (Option.mem_toList.1 he)
    exact ⟨p.info, hp.symm⟩
  · cases he

theorem Series.agree {lines : List (PeerId × Line)} {ranks ranks' : List (PeerId → Nat)}
    {outs outs' : List Fanout} (h₀ : w₀.Ready) (h₁ : w₁.Ready) (halike : w₀.Alike w₁)
    (h : Series w₀ lines ranks outs w) (h' : Series w₁ lines ranks' outs' w') :
    Agree outs outs' w w' := by
  induction h generalizing w₁ ranks' outs' w' with
  | nil =>
      cases h'
      exact ⟨halike, rfl, .nil, fun _ hout => absurd hout List.not_mem_nil⟩
  | cons hsolo _ ih =>
      cases h' with
      | cons hsolo' hrest' =>
          have hcame := hsolo.came h₀
          have hcame' := hsolo'.came h₁
          obtain ⟨halike', hreport, hevents⟩ := hcame.agrees halike hcame'
          have hrest := ih (hcame.ready h₀) (hcame'.ready h₁) halike' hrest'
          refine ⟨hrest.toAlike, ?_, .cons hevents hrest.events, ?_⟩
          · rw [List.map_cons, List.map_cons, hreport, hrest.reports]
          · intro out hout
            rcases List.mem_cons.1 hout with rfl | hout
            · intro e he
              exact pruned_of_removals (hcame.events ▸ he)
            · exact hrest.pruned out hout

end World

/-- Broadcasts made one after the other come to the same, whatever the order
in which each snapshot lists its peers.  They can be made with any orders, and
those of a rank are all there are. -/
theorem orders_agree {w : World} (h : w.Ready) (lines : List (PeerId × Line)) :
    (∀ ranks : List (PeerId → Nat), ranks.length = lines.length →
      ∃ outs w', World.Series w lines ranks outs w')
    ∧ (∀ {ranks outs w'}, World.Series w lines ranks outs w' → ∀ {except as},
      as.Perm (w'.registry.membership.members.filter fun a => some a.info.id ≠ except) →
      ∃ rank, w'.registry.membership.list rank except = as)
    ∧ ∀ {ranks ranks' outs outs' w₁ w₂}, World.Series w lines ranks outs w₁ →
      World.Series w lines ranks' outs' w₂ → World.Agree outs outs' w₁ w₂ := by
  refine ⟨fun _ hlength => World.exists_series h lines hlength, ?_, ?_⟩
  · intro ranks outs w' hseries except as has
    exact Membership.exists_rank (hseries.ready h).registry.ordered.ids_nodup has
  · exact fun h₁ h₂ => h₁.agree h h ⟨rfl, rfl, rfl⟩ h₂

/-- Five members: the second and the third fail at the first line they are
sent, the fourth at the second one, and the fifth is closed. -/
def crowd : World :=
  let info (n : UInt64) : Identity := ⟨⟨n⟩, ⟨"peer"⟩, 0⟩
  let peer (n : UInt64) (transport : Transport) (closed : Bool) : Connection :=
    ⟨{ info := info n, outlet := { transport }, closed }, .silent⟩
  { registry := { membership :=
      ⟨[⟨info 1, 0⟩, ⟨info 2, 1⟩, ⟨info 3, 2⟩, ⟨info 4, 3⟩, ⟨info 5, 4⟩]⟩ }
    connections := [peer 1 {} false,
      peer 2 { writes := [.fails ⟨.brokenPipe, none⟩] } false,
      peer 3 { writes := [.takes 1, .takes 0] } false,
      peer 4 { flushes := [.succeeds, .fails ⟨.timedOut, none⟩] } false,
      peer 5 {} true] }

/-- A line from elsewhere, and one from the first member. -/
def chatter : List (PeerId × Line) := [(⟨9⟩, .ofString "hi"), (⟨1⟩, .ofString "ho")]

/-- The removal of the member with this number. -/
def leaves (n : UInt64) : Change := .removed ⟨⟨n⟩, ⟨"peer"⟩, 0⟩ .writeFailed

theorem ready_crowd : crowd.Ready := by
  have hsteady : ∀ {t : Transport}, t.writesAfter = .takesAll → .stalls ∉ t.writes →
      .stalls ∉ t.flushes → t.Steady := by
    intro t hafter hwrites hflushes
    refine ⟨hwrites, ?_, ?_, hflushes⟩
    · rw [hafter]
      exact WriteAnswer.noConfusion
    · intro f hf
      cases hafter.symm.trans hf
  refine ⟨⟨rfl, rfl, by decide, by decide, by decide⟩, ?_⟩
  intro a ha
  simp only [crowd, List.mem_cons, List.not_mem_nil, or_false] at ha
  rcases ha with rfl | rfl | rfl | rfl | rfl
  all_goals exact ⟨_, rfl, rfl, rfl, hsteady rfl (by decide) (by decide)⟩

set_option maxRecDepth 4000 in
/-- In `crowd`, listed the other way round, the members that fail at the first
line are removed the other way round, and all else is the same. -/
theorem orders_agree_crowd : crowd.Ready ∧ ∃ down w₁ w₂,
    World.Series crowd chatter [World.byId, World.byId]
      [⟨⟨2, 2⟩, [leaves 2, leaves 3]⟩, ⟨⟨0, 1⟩, [leaves 4]⟩] w₁
    ∧ World.Series crowd chatter [down, World.byId]
      [⟨⟨2, 2⟩, [leaves 3, leaves 2]⟩, ⟨⟨0, 1⟩, [leaves 4]⟩] w₂
    ∧ w₁.connections.map (·.peer.received)
      = [[104, 105, 10], [], [104], [104, 105, 10, 104, 111, 10], []]
    ∧ w₁.connections.map (·.peer.closed) = [false, true, true, true, true]
    ∧ World.Agree [⟨⟨2, 2⟩, [leaves 2, leaves 3]⟩, ⟨⟨0, 1⟩, [leaves 4]⟩]
      [⟨⟨2, 2⟩, [leaves 3, leaves 2]⟩, ⟨⟨0, 1⟩, [leaves 4]⟩] w₁ w₂ := by
  let down (id : PeerId) : Nat := 5 - id.raw.toNat
  let solo (w : World) (rank : PeerId → Nat) (sender : PeerId) (line : Line) : World :=
    (w.spawn (.broadcast (.begin 0 sender line))).run (w.rounds rank 20)
  let hi := solo crowd World.byId ⟨9⟩ (.ofString "hi")
  let hi' := solo crowd down ⟨9⟩ (.ofString "hi")
  have h₁ : World.Series crowd chatter [World.byId, World.byId]
      [⟨⟨2, 2⟩, [leaves 2, leaves 3]⟩, ⟨⟨0, 1⟩, [leaves 4]⟩]
      (solo hi World.byId ⟨1⟩ (.ofString "ho")) :=
    .cons ⟨⟨_, crowd.alone_rounds World.byId 20, rfl⟩, by decide +kernel, by decide +kernel⟩
      (.cons ⟨⟨_, hi.alone_rounds World.byId 20, rfl⟩, by decide +kernel, by decide +kernel⟩ .nil)
  have h₂ : World.Series crowd chatter [down, World.byId]
      [⟨⟨2, 2⟩, [leaves 3, leaves 2]⟩, ⟨⟨0, 1⟩, [leaves 4]⟩]
      (solo hi' World.byId ⟨1⟩ (.ofString "ho")) :=
    .cons ⟨⟨_, crowd.alone_rounds down 20, rfl⟩, by decide +kernel, by decide +kernel⟩
      (.cons ⟨⟨_, hi'.alone_rounds World.byId 20, rfl⟩, by decide +kernel, by decide +kernel⟩ .nil)
  exact ⟨ready_crowd, down, _, _, h₁, h₂, by decide +kernel, by decide +kernel,
    (orders_agree ready_crowd chatter).2.2 h₁ h₂⟩

end LineRelay
