/-
# The registry as a map that is asked one thing at a time

`Directory.Serves` says what a map from ids to members replies to one
command, with no word on how the members are kept or in which order they
are listed:

| command | when | reply | the map after it |
| :-- | :-- | :-- | :-- |
| register | the id is free | new | with the member |
| register | the id is taken | not new | as it was |
| unregister | the id is taken | the member | without it |
| unregister | the id is free | nobody | as it was |
| snapshot | | the members, each once | as it was |
| size, contains | | how many, whether | as it was |

`Directory.Executes` carries out one command after the other.  A registry
that came to be by steps has replied to what it served as that map would,
in the order of the tickets, and has published the events of that map and
no other (`Registry.Linear`).

## What this is not

It is not said that a request is served: a registry that stops drops those
that wait.  That is a matter of runs.
-/
import LineRelay.Proofs.Registry.Serving

namespace LineRelay

/-! ## A map -/

/-- Who is registered under which id. -/
abbrev Directory := PeerId → Option Member

namespace Directory

/-- The map in which nobody is registered. -/
def empty : Directory := fun _ => none

/-- One command, carried out by itself: the reply, the event that it
publishes if it changes anything, and the map after it. -/
inductive Serves (d : Directory) : Command → Reply → Option Change → Directory → Prop
  | adds {a : Member} : d a.info.id = none →
      Serves d (.register a) (.registered true) (some (.registered a.info))
        (Function.update d a.info.id (some a))
  | keeps {a b : Member} : d a.info.id = some b →
      Serves d (.register a) (.registered false) none d
  | removes {id : PeerId} {reason : Reason} {a : Member} : d id = some a →
      Serves d (.unregister id reason) (.removed (some a)) (some (.removed a.info reason))
        (Function.update d id none)
  | misses {id : PeerId} {reason : Reason} : d id = none →
      Serves d (.unregister id reason) (.removed none) none d
  | lists {except : Option PeerId} {ms : List Member} : (ms.map (·.info.id)).Nodup →
      (∀ a, a ∈ ms ↔ d a.info.id = some a ∧ some a.info.id ≠ except) →
      Serves d (.snapshot except) (.members ms) none d
  | counts {ids : Finset PeerId} : (∀ id, id ∈ ids ↔ (d id).isSome) →
      Serves d .size (.count ids.card) none d
  | tells {id : PeerId} : Serves d (.contains id) (.present (d id).isSome) none d

/-- What was served, carried out one after the other from the empty map, and
the events that it published. -/
inductive Executes : List Served → List Change → Directory → Prop
  | nil : Executes [] [] empty
  | concat {log : List Served} {events : List Change} {d d' : Directory} {s : Served}
      {event : Option Change} : Executes log events d → Serves d s.command s.reply event d' →
      Executes (log ++ [s]) (events ++ event.toList) d'

variable {log front mid : List Served} {events : List Change} {d : Directory} {s : Served}

theorem Executes.of_concat (h : Executes (log ++ [s]) events d) :
    ∃ events₀ d₀ event, Executes log events₀ d₀ ∧ Serves d₀ s.command s.reply event d := by
  generalize hlog : log ++ [s] = log' at h
  cases h with
  | nil => simp at hlog
  | concat h hserves =>
      obtain ⟨rfl, hs⟩ := List.append_inj' hlog rfl
      obtain rfl := List.singleton_inj.1 hs
      exact ⟨_, _, _, h, hserves⟩

/-- What was served first was carried out first. -/
theorem Executes.of_append (h : Executes (front ++ log) events d) :
    ∃ events₀ d₀, Executes front events₀ d₀ := by
  induction log using List.reverseRecOn generalizing events d with
  | nil => exact ⟨events, d, by rwa [List.append_nil] at h⟩
  | append_singleton log s ih =>
      rw [← List.append_assoc] at h
      obtain ⟨_, _, _, h, -⟩ := h.of_concat
      exact ih h

end Directory

/-! ## Removals of one registration -/

/-- What the removal of an id was replied, if the request is one. -/
def Served.removal? (id : PeerId) (s : Served) : Option (Option Member) :=
  match s.command, s.reply with
  | .unregister id' _, .removed a => if id' = id then some a else none
  | _, _ => none

/-- Whether the request registered an id that was free. -/
def Served.Adds (id : PeerId) (s : Served) : Prop :=
  ∃ a, s.command = .register a ∧ a.info.id = id ∧ s.reply = .registered true

/-- A request that does not register an id leaves it as it is, or it is a
removal of the id, which gets whoever is there. -/
theorem Directory.Serves.removal? {d d' : Directory} {s : Served} {event : Option Change}
    (h : d.Serves s.command s.reply event d') {id : PeerId} (hadds : ¬ s.Adds id) :
    s.removal? id = none ∧ d' id = d id ∨ s.removal? id = some (d id) ∧ d' id = none := by
  obtain ⟨ticket, command, reply⟩ := s
  cases h with
  | @adds a _ =>
      refine .inl ⟨rfl, Function.update_of_ne ?_ _ _⟩
      rintro rfl
      exact hadds ⟨a, rfl, rfl, rfl⟩
  | keeps | lists _ _ | counts _ | tells => exact .inl ⟨rfl, rfl⟩
  | @removes id' reason a htaken =>
      rcases eq_or_ne id id' with rfl | hne
      · exact .inr ⟨by simp [Served.removal?, htaken], Function.update_self _ _ _⟩
      · exact .inl ⟨by simp [Served.removal?, hne.symm], Function.update_of_ne hne _ _⟩
  | @misses id' reason hfree =>
      rcases eq_or_ne id id' with rfl | hne
      · exact .inr ⟨by simp [Served.removal?, hfree], hfree⟩
      · exact .inl ⟨by simp [Served.removal?, hne.symm], rfl⟩

/-- Of the removals of one registration the first gets the member, and the
others get nobody. -/
theorem Directory.Executes.removals {front mid : List Served} {events : List Change}
    {d : Directory} {s : Served} {a : Member} (h : Executes (front ++ s :: mid) events d)
    (hcommand : s.command = .register a) (hreply : s.reply = .registered true)
    (honce : ∀ s' ∈ mid, ¬ s'.Adds a.info.id) :
    d a.info.id = some a ∧ mid.filterMap (Served.removal? a.info.id) = []
    ∨ d a.info.id = none
      ∧ ∃ n, mid.filterMap (Served.removal? a.info.id) = some a :: List.replicate n none := by
  induction mid using List.reverseRecOn generalizing events d with
  | nil =>
      obtain ⟨_, d₀, _, -, hserves⟩ := h.of_concat
      rw [hcommand, hreply] at hserves
      cases hserves with
      | adds _ => exact .inl ⟨Function.update_self _ _ _, rfl⟩
  | append_singleton mid s' ih =>
      have hsplit : front ++ s :: (mid ++ [s']) = (front ++ s :: mid) ++ [s'] := by simp
      rw [hsplit] at h
      obtain ⟨_, d₀, _, h₀, hserves⟩ := h.of_concat
      have hbefore := ih h₀ fun s'' hs'' => honce s'' (List.mem_append_left _ hs'')
      rw [List.filterMap_append]
      rcases hserves.removal? (honce s' (by simp)) with ⟨hnone, hd⟩ | ⟨hsome, hd⟩
      · rw [List.filterMap_cons_none hnone, List.filterMap_nil, List.append_nil, hd]
        exact hbefore
      · rw [List.filterMap_cons_some hsome, List.filterMap_nil]
        rcases hbefore with ⟨hthere, hempty⟩ | ⟨hgone, n, hremovals⟩
        · exact .inr ⟨hd, 0, by rw [hempty, hthere]; rfl⟩
        · refine .inr ⟨hd, n + 1, ?_⟩
          rw [hremovals, hgone, List.replicate_succ', List.cons_append]

/-! ## The members as a map -/

namespace Membership

variable {m : Membership}

/-- The member with an id is the one that has it. -/
theorem find?_eq_some_iff (hids : (m.members.map (·.info.id)).Nodup) {id : PeerId} {a : Member} :
    m.find? id = some a ↔ a ∈ m.members ∧ a.info.id = id := by
  constructor
  · exact find?_eq_some
  · rintro ⟨ha, rfl⟩
    cases hfind : m.find? a.info.id with
    | none =>
        rw [find?_eq_none, contains_eq_false_iff] at hfind
        exact absurd rfl (hfind a ha)
    | some b =>
        obtain ⟨hb, hid⟩ := find?_eq_some hfind
        rw [List.inj_on_of_nodup_map hids hb ha hid]

theorem find?_append {a : Member} (hfree : m.contains a.info.id = false) :
    (⟨m.members ++ [a]⟩ : Membership).find? = Function.update m.find? a.info.id (some a) := by
  funext id
  rcases eq_or_ne id a.info.id with rfl | hne
  · rw [Function.update_self]
    have hnone : m.members.find? (·.info.id = a.info.id) = none := find?_eq_none.2 hfree
    simp [find?, List.find?_append, hnone]
  · rw [Function.update_of_ne hne]
    simp [find?, List.find?_append, hne.symm]

theorem find?_erase (id : PeerId) : (m.erase id).find? = Function.update m.find? id none := by
  funext id'
  rcases eq_or_ne id' id with rfl | hne
  · rw [Function.update_self, find?_eq_none, contains_eq_false_iff]
    intro a ha
    simpa using (List.mem_filter.1 ha).2
  · rw [Function.update_of_ne hne]
    simp only [find?, erase, List.find?_filter]
    refine congrArg (fun p => m.members.find? p) ?_
    funext a
    rcases eq_or_ne a.info.id id' with rfl | hne'
    · simp [hne]
    · simp [hne']

/-- Carrying out a command is to ask the map. -/
theorem serves_apply (hids : (m.members.map (·.info.id)).Nodup) (rank : PeerId → Nat)
    (c : Command) :
    Directory.Serves m.find? c (m.apply rank c).2.1 (m.apply rank c).2.2
      (m.apply rank c).1.find? := by
  cases c with
  | register a =>
      simp only [apply]
      split_ifs with hcontains
      · obtain ⟨b, hb⟩ := Option.isSome_iff_exists.1 hcontains
        exact .keeps hb
      · have hfree := Bool.eq_false_iff.2 hcontains
        rw [find?_append hfree]
        exact .adds (find?_eq_none.2 hfree)
  | unregister id reason =>
      simp only [apply]
      split
      · next hnone => exact .misses hnone
      · next a ha =>
          rw [find?_erase]
          exact .removes ha
  | snapshot except =>
      have hperm := perm_ranked (fun a : Member => rank a.info.id)
        (m.members.filter fun a => some a.info.id ≠ except)
      refine .lists ?_ ?_
      · exact ((hperm.map _).nodup_iff).2 (hids.sublist (List.filter_sublist.map _))
      · intro a
        rw [find?_eq_some_iff hids, list, hperm.mem_iff, List.mem_filter]
        simp
  | size =>
      have hcard : m.size = (m.members.map (·.info.id)).toFinset.card := by
        rw [List.toFinset_card_of_nodup hids, List.length_map]
        rfl
      show Directory.Serves m.find? .size (.count m.size) none m.find?
      rw [hcard]
      refine .counts ?_
      intro id
      rw [List.mem_toFinset, List.mem_map, ← contains, contains_iff]
  | contains id => exact .tells

end Membership

/-! ## A registry -/

namespace Registry

variable {r r' : Registry} {tk : Ticket} {c : Command}

/-- What is known of a registry that came to be by steps, none of which made
it deaf. -/
structure Linear (r : Registry) : Prop where
  ordered : r.Ordered
  sorted : (r.served.map (·.ticket) ++ r.queue.map (·.1)).Pairwise (· < ·)
  live : r.service = .serving ∨ r.service = .stopped ∧ r.queue = []
  executes : ∃ d, Directory.Executes r.served r.events d
    ∧ (r.service = .serving → d = r.membership.find?)

theorem linear_empty : Linear {} where
  ordered := ⟨fun _ htk => absurd htk List.not_mem_nil, List.nodup_nil, List.nodup_nil⟩
  sorted := .nil
  live := .inl rfl
  executes := ⟨_, .nil, fun _ => rfl⟩

theorem Linear.step (h : r.Linear) (hstep : RegistryStep r r') : r'.Linear := by
  have hordered := h.ordered.step hstep
  obtain ⟨d, hexecutes, hd⟩ := h.executes
  cases hstep with
  | keeps => exact h
  | @takes c _ =>
      refine ⟨hordered, ?_, ?_, d, hexecutes, hd⟩
      · simp only [request]
        split_ifs
        · exact h.sorted
        · -- the ticket is above those that were given before
          rw [List.map_append, ← List.append_assoc]
          refine List.pairwise_append.2 ⟨h.sorted, List.pairwise_singleton _ _, ?_⟩
          intro tk htk tk' htk'
          rw [List.mem_singleton.1 htk']
          refine h.ordered.below tk ?_
          rw [tickets, List.mem_append, or_comm]
          exact List.mem_append.1 htk
      · rcases h.live with hserving | ⟨hstopped, hqueue⟩
        · exact .inl hserving
        · exact .inr ⟨hstopped, by simp [request, hstopped, hqueue]⟩
  | @serves rank tk c queue hserving hqueue =>
      obtain rfl := hd hserving
      have hserves := Membership.serves_apply h.ordered.ids_nodup rank c
      refine ⟨hordered, ?_, .inl hserving, _,
        hexecutes.concat (s := ⟨tk, c, _⟩) hserves, fun _ => rfl⟩
      have hsorted := h.sorted
      rw [hqueue] at hsorted
      simpa using hsorted
  | drops hservice hqueue =>
      rcases h.live with hserving | ⟨-, hnil⟩
      · exact absurd hserving hservice
      · cases hnil.symm.trans hqueue
  | stops =>
      refine ⟨hordered, ?_, .inr ⟨rfl, rfl⟩, d, hexecutes, fun h => by cases h⟩
      exact h.sorted.sublist (List.append_sublist_append_left _ |>.2 (List.nil_sublist _))

/-- Once stopped, a registry serves nothing and publishes nothing. -/
theorem stopped_step (hstep : RegistryStep r r') (hstopped : r.service = .stopped) :
    r'.service = .stopped ∧ r'.served = r.served ∧ r'.events = r.events := by
  cases hstep with
  | keeps | takes _ | drops _ _ => exact ⟨hstopped, rfl, rfl⟩
  | serves hserving _ => cases hstopped.symm.trans hserving
  | stops => exact ⟨rfl, rfl, rfl⟩

/-- Nothing waits for a registry that has stopped. -/
theorem Linear.queue_eq_nil (h : r.Linear) (hstopped : r.service = .stopped) : r.queue = [] := by
  rcases h.live with hserving | ⟨-, hnil⟩
  · cases hstopped.symm.trans hserving
  · exact hnil

/-- What was served stays. -/
theorem mem_served_step (hstep : RegistryStep r r') {s : Served} (hs : s ∈ r.served) :
    s ∈ r'.served := by
  cases hstep with
  | keeps | takes _ | drops _ _ | stops => exact hs
  | serves _ _ => exact List.mem_append_left _ hs

/-! ### Answers -/

/-- What was served is answered with its reply. -/
theorem Ordered.answer?_served (h : r.Ordered) {s : Served} (hs : s ∈ r.served) :
    r.answer? s.ticket = some (.ok s.reply) := by
  have hnodup := (List.nodup_append.1 h.tickets_nodup).2.1
  unfold answer?
  split
  · next s' hs' =>
      have hticket : s'.ticket = s.ticket := by simpa using List.find?_some hs'
      rw [List.inj_on_of_nodup_map hnodup (List.mem_of_find?_eq_some hs') hs hticket]
  · next hnone => simpa using List.find?_eq_none.1 hnone s hs

/-- What waits is not answered. -/
theorem Ordered.answer?_queued (h : r.Ordered) (hmem : (tk, c) ∈ r.queue) :
    r.answer? tk = none := by
  unfold answer?
  split
  · next s hs =>
      have hticket : s.ticket = tk := by simpa using List.find?_some hs
      obtain ⟨ticket, command, reply⟩ := s
      obtain rfl : ticket = tk := hticket
      exact absurd hmem (not_mem_queue_of_served h (List.mem_of_find?_eq_some hs) c)
  · rw [if_pos (List.any_eq_true.2 ⟨_, hmem, by simp⟩)]

/-- What neither waits nor was served is answered with an error. -/
theorem answer?_lost (hserved : ∀ s ∈ r.served, s.ticket ≠ tk) (hqueue : r.queue = []) :
    r.answer? tk = some (.error .unserved) := by
  unfold answer?
  split
  · next s hs =>
      have hticket : s.ticket = tk := by simpa using List.find?_some hs
      exact absurd hticket (hserved s (List.mem_of_find?_eq_some hs))
  · simp [hqueue]

end Registry

end LineRelay
