/-
# Several servers on one registry

Each server numbers the connections that it takes in, beginning with 1, and
knows nothing of the others.  So a connection has the number that it has
among those of its server (`Numbered`): two connections of one server have
two ids, and the n-th connections of two servers have the same.

The registry tells connections apart by their ids alone.  While all ids
differ, `Distinguished` says what every connection can rely on.  In `twins`
two servers take in one connection each.
-/
import LineRelay.Proofs.Relay.Staff
import LineRelay.Proofs.Relay.Enrolment
import LineRelay.Proofs.Relay.Inputs

namespace LineRelay

/-! ## Runs of several servers -/

/-- Whether a server is one that someone has just made. -/
def Server.IsFresh (s : Server) : Prop := s.stage = .starting ∧ s.nextId = 1

/-- Whether a move is one that happens around servers that have their peers
to themselves. -/
def Move.Shared : Move → Prop
  | .spawn (.server s) => s.IsFresh
  | .request c => c.Looks
  | .connect _ | .spawn _ | .close _ | .fire _ => False
  | .serve _ | .turn _ | .supply _ _ | .wake _ | .answer _ _ | .arrive _ _ | .shutdown | .elapse _
  | .stopRegistry => True

instance decFreshServer (s : Server) : Decidable s.IsFresh := inferInstanceAs (Decidable (_ ∧ _))

instance decShared : ∀ m : Move, Decidable m.Shared
  | .spawn (.server s) => inferInstanceAs (Decidable s.IsFresh)
  | .request c => inferInstanceAs (Decidable c.Looks)
  | .connect _ | .close _ | .fire _ | .spawn (.send _ _) | .spawn (.awaitClose _ _)
  | .spawn (.broadcast _) | .spawn (.worker _) | .spawn (.monitor _) =>
      inferInstanceAs (Decidable False)
  | .serve _ | .turn _ | .supply _ _ | .wake _ | .answer _ _ | .arrive _ _ | .shutdown | .elapse _
  | .stopRegistry => inferInstanceAs (Decidable True)

theorem Move.Shared.orderly {m : Move} (h : m.Shared) : m.Orderly := by
  match m with
  | .connect _ | .spawn (.worker _) => cases h
  | .spawn (.send _ _) | .spawn (.awaitClose _ _) | .spawn (.broadcast _) | .spawn (.monitor _)
  | .spawn (.server _) | .serve _ | .turn _ | .supply _ _ | .wake _ | .answer _ _ | .arrive _ _
  | .shutdown | .elapse _ | .stopRegistry | .close _ | .fire _ | .request _ => trivial

theorem Move.Shared.permits {m : Move} (h : m.Shared) (w : World) : w.Permits m := by
  match m with
  | .connect _ | .spawn (.send _ _) | .spawn (.awaitClose _ _) | .spawn (.broadcast _)
  | .spawn (.worker _) | .spawn (.monitor _) => cases h
  | .spawn (.server _) => exact h.1
  | .request (.register _) => cases h
  | .request (.unregister _ _) | .request (.snapshot _) | .request .size | .request (.contains _)
  | .serve _ | .turn _ | .supply _ _ | .wake _ | .answer _ _ | .arrive _ _ | .shutdown | .elapse _
  | .stopRegistry | .close _ | .fire _ => trivial

theorem permitted_of_shared {moves : List Move} (h : ∀ m ∈ moves, m.Shared) (w : World) :
    w.Permitted moves := World.permitted_of_forall Move.Shared.permits h w

/-- What holds of a world with nothing in it, and is kept by every move
around servers, holds after every run of such moves. -/
theorem World.shared_induction {P : List Move → Prop} (nil : P [])
    (step : ∀ {moves m}, (∀ m ∈ moves, m.Shared) → m.Shared → P moves →
      MoveStep (World.run {} moves) m (World.run {} (moves ++ [m])) → P (moves ++ [m]))
    {moves : List Move} (h : ∀ m ∈ moves, m.Shared) : P moves :=
  World.forall_induction Move.Shared.permits nil step h

/-! ## The connections of a server -/

namespace World

variable {w : World} {moves : List Move} {m : Move} {s t : TaskKey} {k : PeerKey} {p : Peer}

/-- The connection that the server `s` takes in in a move, if it does. -/
def intake (s : TaskKey) (w : World) : Move → List PeerKey
  | .turn t =>
      if t = s ∧ w.connections.length < (w.move (.turn t)).connections.length
        then [w.connections.length] else []
  | _ => []

/-- The connections that the server `s` takes in in a run, in order. -/
def taken (s : TaskKey) (w : World) (moves : List Move) : List PeerKey := record (intake s) w moves

/-- A move takes no connection in, or one, for one server. -/
theorem intake_cases (hstep : MoveStep w m (w.move m)) (hm : m.Orderly) :
    (w.move m).connections.length = w.connections.length ∧ (∀ s, w.intake s m = [])
    ∨ ∃ t, w.Accepts t (w.move m) ∧ m = .turn t ∧ w.intake t m = [w.connections.length]
      ∧ ∀ s ≠ t, w.intake s m = [] := by
  rcases hstep.accepts hm with hsame | ⟨t, rfl, haccepts⟩
  · refine .inl ⟨hsame, fun s => ?_⟩
    cases m with
    | turn t =>
        simp only [intake]
        rw [if_neg fun h => h.2.ne' hsame]
    | connect _ | spawn _ | serve _ | supply _ _ | wake _ | answer _ _ | arrive _ _ | shutdown
    | elapse _ | stopRegistry | close _ | fire _ | request _ => rfl
  · have hmore : w.connections.length < (w.move (.turn t)).connections.length := by
      rw [haccepts.length_connections]
      exact Nat.lt_succ_self _
    refine .inr ⟨t, haccepts, rfl, if_pos ⟨rfl, hmore⟩, fun s hs => if_neg fun h => hs h.1.symm⟩

/-- What holds of numbers in every world of a run of several servers. -/
structure Numbered (moves : List Move) : Prop where
  next : ∀ {s : TaskKey} {sv : Server}, (run {} moves).tasks[s]? = some (.server sv) →
    PeerId.ofKey (taken s {} moves).length = ⟨sv.nextId⟩
  idle : ∀ {s : TaskKey}, (∀ sv, (run {} moves).tasks[s]? ≠ some (.server sv)) →
    taken s {} moves = []
  number : ∀ {s : TaskKey} {n : Nat} {k : PeerKey}, (taken s {} moves)[n]? = some k →
    ∃ p, (run {} moves).peer? k = some p ∧ p.info.id = .ofKey n
  origin : ∀ {k : PeerKey} {p : Peer}, (run {} moves).peer? k = some p →
    ∃ (s : TaskKey) (n : Nat), (taken s {} moves)[n]? = some k
  once : ∀ {s s' : TaskKey} {n n' : Nat} {k : PeerKey}, (taken s {} moves)[n]? = some k →
    (taken s' {} moves)[n']? = some k → s = s' ∧ n = n'

theorem taken_concat (s : TaskKey) (moves : List Move) (m : Move) :
    taken s {} (moves ++ [m]) = taken s {} moves ++ (run {} moves).intake s m :=
  record_concat _ _ _ _

/-- A server that takes nothing in has the number it had, and one that begins
has the first. -/
theorem nextId_cases {w' : World} {sv : Server} (hstep : MoveStep w m w') (hm : m.Shared)
    (hlength : w'.connections.length = w.connections.length)
    (hs : w'.tasks[s]? = some (.server sv)) :
    (∃ sv₀, w.tasks[s]? = some (.server sv₀) ∧ sv₀.nextId = sv.nextId)
      ∨ w.tasks[s]? = none ∧ sv.nextId = 1 := by
  cases hstep.was hs with
  | stays _ hs₀ => exact .inl ⟨sv, hs₀, rfl⟩
  | arrives _ hs₀ => exact .inl ⟨_, hs₀, rfl⟩
  | begins hnone _ hby =>
      rcases hby with rfl | hhires
      · exact .inr ⟨hnone, hm.2⟩
      · cases hhires
  | turns _ htask hturn hw' =>
      cases hturn with
      | server hserver =>
          cases hserver with
          | starts _ | ends _ _ | misses _ _ _ | joins _ _ => exact .inl ⟨_, htask, rfl⟩
          | accepts _ _ _ =>
              rw [hw'] at hlength
              have hmore : (w.connections ++ [_]).length = w.connections.length := hlength
              simp at hmore

section Taking

variable {k₀ : PeerKey} {n : Nat}
  (hnew : taken t {} (moves ++ [m]) = taken t {} moves ++ [k₀])
  (hold : ∀ s ≠ t, taken s {} (moves ++ [m]) = taken s {} moves)

include hnew hold

theorem taken_cases (hk : (taken s {} (moves ++ [m]))[n]? = some k) :
    (taken s {} moves)[n]? = some k ∨ s = t ∧ n = (taken t {} moves).length ∧ k = k₀ := by
  rcases eq_or_ne s t with rfl | hs
  · rw [hnew] at hk
    rcases Nat.lt_trichotomy n (taken s {} moves).length with hn | rfl | hn
    · rw [List.getElem?_append_left hn] at hk
      exact .inl hk
    · rw [List.getElem?_concat_length] at hk
      exact .inr ⟨rfl, rfl, (Option.some.inj hk).symm⟩
    · rw [List.getElem?_eq_none (by simpa using hn)] at hk
      cases hk
  · rw [hold s hs] at hk
    exact .inl hk

theorem taken_stays (hk : (taken s {} moves)[n]? = some k) :
    (taken s {} (moves ++ [m]))[n]? = some k := by
  rcases eq_or_ne s t with rfl | hs
  · obtain ⟨hn, -⟩ := List.getElem?_eq_some_iff.1 hk
    rw [hnew, List.getElem?_append_left hn, hk]
  · rw [hold s hs, hk]

end Taking

namespace Numbered

/-- A move that takes nothing in changes no number. -/
theorem keeps (h : Numbered moves) (hm : m.Shared)
    (hstep : MoveStep (run {} moves) m (run {} (moves ++ [m])))
    (hlength : (run {} (moves ++ [m])).connections.length = (run {} moves).connections.length)
    (htaken : ∀ s, taken s {} (moves ++ [m]) = taken s {} moves) : Numbered (moves ++ [m]) where
  next := by
    intro s sv hs
    rw [htaken]
    rcases nextId_cases hstep hm hlength hs with ⟨sv₀, hs₀, hnext⟩ | ⟨hnone, hone⟩
    · rw [← hnext]
      exact h.next hs₀
    · -- a server that begins has taken in nothing
      have hidle : taken s {} moves = [] := h.idle fun sv₀ hs₀ => by
        cases hnone.symm.trans hs₀
      rw [hidle, hone]
      rfl
  idle := by
    intro s hno
    rw [htaken]
    refine h.idle fun sv hs => ?_
    cases hstep.becomes hs with
    | stays _ hs' | arrives _ hs' => exact hno _ hs'
    | turns _ hturn _ hs' =>
        cases hturn with
        | server _ => exact hno _ hs'
  number := by
    intro s n k hk
    rw [htaken] at hk
    obtain ⟨p, hp, hid⟩ := h.number hk
    obtain ⟨q, hq, hlasts⟩ := hstep.lasts hp
    exact ⟨q, hq, by rw [hlasts.info, hid]⟩
  origin := by
    intro k q hq
    have hlt := lt_length_of_peer? hq
    rw [hlength] at hlt
    cases hp : (run {} moves).peer? k with
    | none => exact absurd ((peer?_eq_none_iff _).1 hp) (Nat.not_le.2 hlt)
    | some p =>
        obtain ⟨s, n, hk⟩ := h.origin hp
        exact ⟨s, n, by rw [htaken, hk]⟩
  once := by
    intro s s' n n' k hk hk'
    rw [htaken] at hk hk'
    exact h.once hk hk'

/-- What a server has taken in is there. -/
theorem lt_length (h : Numbered moves) {n : Nat} (hk : (taken s {} moves)[n]? = some k) :
    k < (run {} moves).connections.length := by
  obtain ⟨p, hp, -⟩ := h.number hk
  exact lt_length_of_peer? hp

/-- A connection that is taken in gets the next number of its server. -/
theorem accepts (h : Numbered moves)
    (hstep : MoveStep (run {} moves) m (run {} (moves ++ [m])))
    (haccepts : (run {} moves).Accepts t (run {} (moves ++ [m])))
    (hnew : taken t {} (moves ++ [m])
      = taken t {} moves ++ [(run {} moves).connections.length])
    (hold : ∀ s ≠ t, taken s {} (moves ++ [m]) = taken s {} moves) : Numbered (moves ++ [m]) := by
  obtain ⟨sv, sv', p, hsv, hsv', hnext, hp, hid, hothers⟩ := haccepts.spec
  refine ⟨?_, ?_, ?_, ?_, ?_⟩
  · intro s sv₁ hs
    rcases eq_or_ne s t with rfl | hne
    · cases hs.symm.trans hsv'
      rw [hnew, List.length_append, List.length_singleton, PeerId.ofKey_succ, h.next hsv, hnext]
    · rw [hold s hne]
      exact h.next ((hothers s hne sv₁).1 hs)
  · intro s hno
    rcases eq_or_ne s t with rfl | hne
    · exact absurd hsv' (hno sv')
    · rw [hold s hne]
      exact h.idle fun sv₁ hs => hno sv₁ ((hothers s hne sv₁).2 hs)
  · intro s n k hk
    rcases taken_cases hnew hold hk with hk | ⟨rfl, rfl, rfl⟩
    · obtain ⟨p₁, hp₁, hid₁⟩ := h.number hk
      obtain ⟨q, hq, hlasts⟩ := hstep.lasts hp₁
      exact ⟨q, hq, by rw [hlasts.info, hid₁]⟩
    · exact ⟨p, hp, by rw [hid, h.next hsv]⟩
  · intro k q hq
    have hlt := lt_length_of_peer? hq
    rw [haccepts.length_connections] at hlt
    rcases Nat.lt_succ_iff_lt_or_eq.1 hlt with hlt | rfl
    · cases hp₁ : (run {} moves).peer? k with
      | none => exact absurd ((peer?_eq_none_iff _).1 hp₁) (Nat.not_le.2 hlt)
      | some p₁ =>
          obtain ⟨s, n, hk⟩ := h.origin hp₁
          exact ⟨s, n, taken_stays hnew hold hk⟩
    · exact ⟨t, _, by rw [hnew, List.getElem?_concat_length]⟩
  · intro s s' n n' k hk hk'
    rcases taken_cases hnew hold hk with hk | ⟨rfl, rfl, rfl⟩
    · rcases taken_cases hnew hold hk' with hk' | ⟨rfl, rfl, rfl⟩
      · exact h.once hk hk'
      · exact absurd (h.lt_length hk) (Nat.lt_irrefl _)
    · rcases taken_cases hnew hold hk' with hk' | ⟨rfl, rfl, -⟩
      · exact absurd (h.lt_length hk') (Nat.lt_irrefl _)
      · exact ⟨rfl, rfl⟩

end Numbered

/-- In every world of a run of several servers, a connection has the number
that it has among those of its server. -/
theorem numbered_run (hmoves : ∀ m ∈ moves, m.Shared) : Numbered moves := by
  refine shared_induction (P := Numbered) ⟨?_, ?_, ?_, ?_, ?_⟩
    (fun {moves m} _ hm h hstep => ?_) hmoves
  · intro s sv hs
    cases hs
  · intro s _
    rfl
  · intro s n k hk
    cases hk
  · intro k p hp
    cases hp
  · intro s s' n n' k hk
    cases hk
  · have hmove := hstep
    rw [run_concat] at hmove
    rcases intake_cases hmove hm.orderly with ⟨hlength, hnone⟩ | ⟨t, haccepts, -, hnew, hold⟩
    · refine h.keeps hm hstep (by rw [run_concat, hlength]) fun s => ?_
      rw [taken_concat, hnone, List.append_nil]
    · rw [← run_concat] at haccepts
      refine h.accepts hstep haccepts (by rw [taken_concat, hnew]) fun s hs => ?_
      rw [taken_concat, hold s hs, List.append_nil]

/-! ## What a connection can rely on -/

/-- No two connections have one id. -/
def Apart (w : World) : Prop :=
  ∀ {j k : PeerKey} {p q : Peer}, w.peer? j = some p → w.peer? k = some q →
    p.info.id = q.info.id → j = k

/-- What holds of registrations if no two connections have one id.

* `new`: every registration adds its peer;
* `member`: the peer of a worker that reads, or relays what it has read, is a
  member until it closes;
* `own`: who has a connection removed has no other one removed.
-/
structure Distinguished (w : World) : Prop where
  new : ∀ {s : Served} {a : Member}, s ∈ w.registry.served → s.command = .register a →
    s.reply = .registered true
  member : ∀ {t : TaskKey} {wk : Worker} {p : Peer}, w.tasks[t]? = some (.worker wk) →
    wk.stage = .reading ∨ (∃ b, wk.stage = .relaying b) → w.peer? wk.peer = some p →
    p.closed = false → ⟨p.info, wk.peer⟩ ∈ w.registry.membership.members
  own : ∀ {s : Served} {k : PeerKey} {p : Peer} {reason : Reason} {a : Member},
    s ∈ w.registry.served → w.peer? k = some p → s.command = .unregister p.info.id reason →
    s.reply = .removed (some a) → a = ⟨p.info, k⟩

theorem oneWorkerEach_run (hmoves : ∀ m ∈ moves, m.Shared) : (run {} moves).OneWorkerEach := by
  refine shared_induction (P := fun moves => (run {} moves).OneWorkerEach) ⟨?_, ?_⟩
    (fun hmoves hm h hstep => ?_) hmoves
  · intro k p hp
    cases hp
  · intro t t' wk wk' ht
    cases ht
  · exact h.step (requests_run isNew_empty.requests (permitted_of_shared hmoves _)) hstep hm.orderly

/-- A connection that shares its id with none is registered by its worker
alone. -/
theorem Apart.enrols (hapart : (run {} moves).Apart) (hmoves : ∀ m ∈ moves, m.Shared)
    (hserving : (run {} moves).registry.service = .serving) {wk : Worker}
    (ht : (run {} moves).tasks[t]? = some (.worker wk))
    (hp : (run {} moves).peer? wk.peer = some p) :
    Enrols {} moves t wk.peer p.info.id where
  serving := hserving
  identifies := by
    refine ⟨fun hq => ?_, fun hq hid => hapart hq hp hid⟩
    rw [Option.some.inj (hq.symm.trans hp)]
  sole := fun t' wk' ht' hpeer => (oneWorkerEach_run hmoves).sole ht' ht hpeer
  alone := fun a ha => absurd (hmoves _ ha) id

theorem Apart.distinguished (hapart : (run {} moves).Apart) (hmoves : ∀ m ∈ moves, m.Shared)
    (hserving : (run {} moves).registry.service = .serving) : (run {} moves).Distinguished := by
  have hpermitted := permitted_of_shared hmoves {}
  have hrequests := requests_run isNew_empty.requests hpermitted
  refine ⟨?_, ?_, ?_⟩
  · intro s a hs hc
    have hnames := names_served_run isNew_empty hpermitted hs
    rw [hc] at hnames
    obtain ⟨p, hp, hinfo⟩ := Option.map_eq_some_iff.1 hnames
    obtain ⟨t, wk, ht, hpeer⟩ := (oneWorkerEach_run hmoves).hired hp
    have henrols := hapart.enrols hmoves hserving ht (hpeer ▸ hp)
    exact (enrolment_run isNew_empty hpermitted henrols).granted hs hc (by rw [hinfo])
  · intro t wk p ht hstage hp hopen
    have henrols := hapart.enrols hmoves hserving ht hp
    have henrolled : (run {} moves).Enrolled t wk.peer := by
      refine ⟨⟨wk, ht, rfl⟩, fun hcall => ?_⟩
      obtain ⟨wk', ht', -, hstage'⟩ := makes_of_call? hcall
      cases ht.symm.trans ht'
      rcases hstage with hstage | ⟨b, hstage⟩ <;> cases hstage.symm.trans hstage'
    have hone := (enrolment_run isNew_empty hpermitted henrols).after henrolled
    have hretained := retained_run isNew_empty hpermitted henrols fun reason hmem => hmoves _ hmem
    cases hcontains : (run {} moves).registry.membership.contains p.info.id with
    | true =>
        obtain ⟨a, ha, hid⟩ := Membership.contains_iff.1 hcontains
        have hnames := hrequests.names_member ha
        obtain ⟨q, hq, hinfo⟩ := Option.map_eq_some_iff.1 hnames
        have hhandle := henrols.identifies.handle_eq hnames hid
        rw [hhandle, hp] at hq
        cases hq
        rwa [show (⟨p.info, wk.peer⟩ : Member) = a by rw [hinfo, ← hhandle]]
    | false =>
        rcases hretained p hp hone.ge hcontains with
          hclosed | ⟨t', wk', reason, tk, ht', hpeer, hleaving⟩
        · cases hopen.symm.trans hclosed
        · -- the worker that leaves is this one
          obtain rfl := henrols.sole t' wk' ht' hpeer
          cases ht.symm.trans ht'
          rcases hstage with hstage | ⟨b, hstage⟩ <;> cases hstage.symm.trans hleaving
  · intro s k p reason a hs hp hc hreply
    obtain ⟨⟨reason', hc'⟩, hnames⟩ := removed_run isNew_empty hpermitted hs hreply
    obtain ⟨q, hq, hinfo⟩ := Option.map_eq_some_iff.1 hnames
    obtain ⟨hid, -⟩ := Command.unregister.inj (hc.symm.trans hc')
    obtain rfl := hapart hp hq (by rw [hid, hinfo])
    cases hp.symm.trans hq
    rw [hinfo]

end World

/-- What servers make of the connections that they take in, and what the
registry makes of those.

* `numbered`: every connection was taken in by a server, has the number that
  it has among those of its server, and was taken in once;
* `twins`: while the numbers last, two connections have one id exactly when
  they are the n-th ones of their servers;
* `distinguished`: while the registry serves, it tells connections apart
  whose ids differ.
-/
structure Identified (moves : List Move) : Prop where
  numbered : World.Numbered moves
  twins : (World.run {} moves).connections.length ≤ UInt64.size →
    ∀ {s s' : TaskKey} {n n' : Nat} {k k' : PeerKey} {p p' : Peer},
      (World.taken s {} moves)[n]? = some k → (World.taken s' {} moves)[n']? = some k' →
      (World.run {} moves).peer? k = some p → (World.run {} moves).peer? k' = some p' →
      (p.info.id = p'.info.id ↔ n = n')
  distinguished : (World.run {} moves).registry.service = .serving → (World.run {} moves).Apart →
    (World.run {} moves).Distinguished

/-- A server takes in no connection twice. -/
theorem World.Numbered.nodup_taken {moves : List Move} (h : Numbered moves) (s : TaskKey) :
    (taken s {} moves).Nodup := by
  rw [List.nodup_iff_getElem?_ne_getElem?]
  intro i j hij hj hsame
  rw [List.getElem?_eq_getElem hj] at hsame
  exact hij.ne (h.once hsame (List.getElem?_eq_getElem hj)).2

/-- There are not more connections of one server than there are. -/
theorem World.Numbered.length_taken_le {moves : List Move} (h : Numbered moves) (s : TaskKey) :
    (taken s {} moves).length ≤ (World.run {} moves).connections.length := by
  have hsub : taken s {} moves ⊆ List.range (World.run {} moves).connections.length := by
    intro k hk
    obtain ⟨n, hn⟩ := List.mem_iff_getElem?.1 hk
    exact List.mem_range.2 (h.lt_length hn)
  simpa using ((h.nodup_taken s).subperm hsub).length_le

/-- In every run of servers that share a registry, ids tell apart the connections
of one server, and the registry those whose ids differ. -/
theorem shared_ids {moves : List Move} (hmoves : ∀ m ∈ moves, m.Shared) : Identified moves := by
  have hnumbered := World.numbered_run hmoves
  refine ⟨hnumbered, ?_, fun hserving hapart => hapart.distinguished hmoves hserving⟩
  intro hsize s s' n n' k k' p p' hk hk' hp hp'
  have hbound : ∀ {s : TaskKey} {n : Nat} {k : PeerKey},
      (World.taken s {} moves)[n]? = some k → n < UInt64.size := by
    intro s n k hk
    obtain ⟨hn, -⟩ := List.getElem?_eq_some_iff.1 hk
    exact hn.trans_le ((hnumbered.length_taken_le s).trans hsize)
  obtain ⟨q, hq, hid⟩ := hnumbered.number hk
  obtain ⟨q', hq', hid'⟩ := hnumbered.number hk'
  cases hq.symm.trans hp
  cases hq'.symm.trans hp'
  rw [hid, hid']
  exact ⟨PeerId.ofKey_inj (hbound hk) (hbound hk'), fun h => by rw [h]⟩

/-- A connection that arrives at the server `s`, whose worker will be the task
`t`, and registers. -/
def joining (s t : TaskKey) (label : String) : List Move :=
  [.arrive s (.connection ⟨label⟩ {} .silent), .turn s, .turn t, .serve World.byId, .turn t]

/-- A server takes in two connections. -/
def siblings : List Move :=
  [.spawn (.server ⟨"here", none, 1000, 1, [], .starting⟩), .turn 0] ++ joining 0 2 "a"
    ++ joining 0 3 "b"

set_option maxRecDepth 4000 in
/-- The connections of `siblings` are told apart, and both are members. -/
theorem shared_ids_siblings : (∀ m ∈ siblings, m.Shared) ∧ (World.run {} siblings).Apart
    ∧ (World.run {} siblings).registry.service = .serving ∧ Identified siblings
    ∧ (World.run {} siblings).Distinguished := by
  have hmoves : ∀ m ∈ siblings, m.Shared := by decide
  have hids : (World.run {} siblings).connections.map (·.peer.info.id) = [⟨1⟩, ⟨2⟩] := by
    decide +kernel
  have hserving : (World.run {} siblings).registry.service = .serving := by decide +kernel
  have hid : ∀ {k : PeerKey} {p : Peer}, (World.run {} siblings).peer? k = some p →
      ([⟨1⟩, ⟨2⟩] : List PeerId)[k]? = some p.info.id := by
    intro k p hp
    obtain ⟨c, hc, rfl⟩ := Option.map_eq_some_iff.1 hp
    rw [← hids, List.getElem?_map, hc]
    rfl
  have hapart : (World.run {} siblings).Apart := by
    intro j k p q hp hq heq
    have hj := hid hp
    have hk := hid hq
    rw [heq] at hj
    obtain ⟨hlt, -⟩ := List.getElem?_eq_some_iff.1 hj
    exact (List.getElem?_inj hlt (by decide)).1 (hj.trans hk.symm)
  have hidentified := shared_ids hmoves
  exact ⟨hmoves, hapart, hserving, hidentified, hidentified.distinguished hserving hapart⟩

/-- Two servers on one registry take in one connection each, and the second
connection leaves. -/
def twins : List Move :=
  let server : Task := .server ⟨"here", none, 1000, 1, [], .starting⟩
  [.spawn server, .turn 0] ++ joining 0 2 "a" ++ [.spawn server, .turn 3] ++ joining 3 5 "b"

set_option maxRecDepth 4000 in
/-- The connections of `twins` have one id.  The second reads and is open, but
its registration was refused, and when it leaves, the first is removed. -/
theorem second_server_repeats_ids : (∀ m ∈ twins, m.Shared)
    ∧ (World.run {} twins).connections.map (·.peer.info.id) = [⟨1⟩, ⟨1⟩]
    ∧ (World.run {} twins).registry.served.map (·.reply) = [.registered true, .registered false]
    ∧ (World.run {} twins).tasks[5]? = some (.worker ⟨1, ⟨none, [], []⟩, 0, .reading⟩)
    ∧ (World.run {} twins).connections.map (·.peer.closed) = [false, false]
    ∧ (World.run {} twins).registry.membership.members.map (·.handle) = [0]
    ∧ (World.run {} (twins ++ [.supply 1 .ended, .turn 5, .turn 5, .serve World.byId])
        ).registry.membership.members = [] := by
  decide +kernel

end LineRelay
