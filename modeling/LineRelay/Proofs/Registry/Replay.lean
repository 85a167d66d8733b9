/-
# The ids of the members, told from the events

Whoever is given the events of a registry can keep the ids of the members
without asking: a registration puts an id in, a removal takes it out
(`replay`).  Two facts make that work.

| | |
| :-- | :-- |
| `replay_again` | events that are replayed a second time change nothing, even if others stand before them |
| `Directory.Told` | what a map has published, replayed from nothing, is the ids it has |

The second says more.  An id is registered, then that same member is
removed, then another may be registered, and so on (`Alternates`).  So the
events count the members.
-/
import LineRelay.Proofs.Registry.Linear

namespace LineRelay

/-! ## Replaying -/

/-- The ids of a list of members. -/
def Member.ids (ms : List Member) : Finset PeerId := (ms.map (·.info.id)).toFinset

theorem Member.mem_ids {ms : List Member} {id : PeerId} :
    id ∈ Member.ids ms ↔ ∃ a ∈ ms, a.info.id = id := by
  simp [Member.ids]

/-- The id that a change is about. -/
def Change.id : Change → PeerId
  | .registered peer | .removed peer _ => peer.id

/-- Whether a change is a registration. -/
def Change.isArrival : Change → Bool
  | .registered _ => true
  | .removed _ _ => false

/-- Whether a change is a removal. -/
def Change.isDeparture : Change → Bool
  | .registered _ => false
  | .removed _ _ => true

/-- What a change makes of a set of ids. -/
def Change.replay (ids : Finset PeerId) : Change → Finset PeerId
  | .registered peer => insert peer.id ids
  | .removed peer _ => ids.erase peer.id

/-- What changes make of a set of ids, one after the other. -/
def replay (ids : Finset PeerId) (changes : List Change) : Finset PeerId :=
  changes.foldl Change.replay ids

section

variable {ids ids' : Finset PeerId} {id : PeerId} {e : Change} {es : List Change}

theorem replay_append (ids : Finset PeerId) (es es' : List Change) :
    replay ids (es ++ es') = replay (replay ids es) es' := List.foldl_append

theorem replay_concat (ids : Finset PeerId) (es : List Change) (e : Change) :
    replay ids (es ++ [e]) = e.replay (replay ids es) := replay_append ids es [e]

/-- A change leaves the other ids as they are. -/
theorem Change.mem_replay_of_ne (h : e.id ≠ id) : id ∈ e.replay ids ↔ id ∈ ids := by
  cases e with
  | registered peer => exact Finset.mem_insert.trans (or_iff_right h.symm)
  | removed peer reason => exact Finset.mem_erase.trans (and_iff_right h.symm)

/-- Whether an id is there after a change about it does not depend on what
was there before. -/
theorem Change.mem_replay_id : e.id ∈ e.replay ids ↔ e.id ∈ e.replay ids' := by
  cases e with
  | registered peer => simp [replay, id]
  | removed peer reason => simp [replay, id]

theorem mem_replay_of_forall_ne (h : ∀ e ∈ es, e.id ≠ id) : id ∈ replay ids es ↔ id ∈ ids := by
  induction es using List.reverseRecOn with
  | nil => exact Iff.rfl
  | append_singleton es e ih =>
      rw [replay_concat, Change.mem_replay_of_ne (h e (by simp))]
      exact ih fun e he => h e (List.mem_append_left _ he)

theorem mem_replay_of_exists (h : ∃ e ∈ es, e.id = id) :
    id ∈ replay ids es ↔ id ∈ replay ids' es := by
  induction es using List.reverseRecOn with
  | nil =>
      obtain ⟨_, he, -⟩ := h
      cases he
  | append_singleton es e ih =>
      rw [replay_concat, replay_concat]
      rcases eq_or_ne e.id id with rfl | hne
      · exact Change.mem_replay_id
      · rw [Change.mem_replay_of_ne hne, Change.mem_replay_of_ne hne]
        obtain ⟨e', he', hid⟩ := h
        rcases List.mem_append.1 he' with he' | he'
        · exact ih ⟨e', he', hid⟩
        · exact absurd (List.mem_singleton.1 he' ▸ hid) hne

/-- Changes that are replayed again change nothing: the last of them about an
id settles whether it is there, and an id that none of them is about is as
those before have left it. -/
theorem replay_again (ids : Finset PeerId) (es es' : List Change) :
    replay (replay ids (es ++ es')) es' = replay ids (es ++ es') := by
  ext id
  by_cases h : ∃ e ∈ es', e.id = id
  · rw [replay_append ids]
    exact mem_replay_of_exists h
  · push Not at h
    exact mem_replay_of_forall_ne h

end

/-! ## What requests change -/

/-- What a request changed: a member was added or removed. -/
inductive Effect where
  | added (a : Member)
  | removed (a : Member) (reason : Reason)

namespace Effect

/-- Who was added or removed. -/
def member : Effect → Member
  | .added a | .removed a _ => a

/-- The id that was taken or freed. -/
def id (e : Effect) : PeerId := e.member.info.id

/-- Who has the id before. -/
def before : Effect → Option Member
  | .added _ => none
  | .removed a _ => some a

/-- Who has the id afterwards. -/
def holder : Effect → Option Member
  | .added a => some a
  | .removed _ _ => none

/-- The event that tells of it. -/
def change : Effect → Change
  | .added a => .registered a.info
  | .removed a reason => .removed a.info reason

theorem id_change (e : Effect) : e.change.id = e.id := by cases e <;> rfl

theorem id_of_holder {e : Effect} {a : Member} (h : e.holder = some a) : a.info.id = e.id := by
  cases e with
  | added b => cases h; rfl
  | removed b reason => cases h

/-- Replaying the event tells whether the id is taken. -/
theorem mem_replay_change (e : Effect) (ids : Finset PeerId) :
    e.id ∈ e.change.replay ids ↔ e.holder.isSome := by
  cases e with
  | added a => simp [change, Change.replay, holder, id, member]
  | removed a reason => simp [change, Change.replay, holder, id, member]

end Effect

/-- What a request that was served changed, if it changed anything. -/
def Served.effect? (s : Served) : Option Effect :=
  match s.command, s.reply with
  | .register a, .registered true => some (.added a)
  | .unregister _ reason, .removed (some a) => some (.removed a reason)
  | _, _ => none

/-- What the requests that were served changed, in their order. -/
def effects (log : List Served) : List Effect := log.filterMap Served.effect?

theorem effects_concat (log : List Served) (s : Served) :
    effects (log ++ [s]) = effects log ++ s.effect?.toList := by
  rw [effects, List.filterMap_append, ← effects]
  cases h : s.effect? with
  | none => rw [List.filterMap_cons_none h]; rfl
  | some e => rw [List.filterMap_cons_some h]; rfl

/-- What happens to one id, from when it is free: a member is added, that
very member is removed, and so on.  `holder` has the id in the end. -/
inductive Alternates : List Effect → Option Member → Prop
  | nil : Alternates [] none
  | adds {log : List Effect} {a : Member} :
      Alternates log none → Alternates (log ++ [.added a]) (some a)
  | removes {log : List Effect} {a : Member} {reason : Reason} :
      Alternates log (some a) → Alternates (log ++ [.removed a reason]) none

theorem Alternates.concat {log : List Effect} {e : Effect} (h : Alternates log e.before) :
    Alternates (log ++ [e]) e.holder := by
  cases e with
  | added a => exact h.adds
  | removed a reason => exact h.removes

namespace Directory

variable {d d' : Directory} {s : Served} {event : Option Change} {log : List Served}
  {events : List Change}

/-- What one request does to a map that has its members under their ids. -/
inductive Affects (d : Directory) : Option Effect → Directory → Prop
  | keeps : Affects d none d
  | changes {e : Effect} : d e.id = e.before →
      Affects d (some e) (Function.update d e.id e.holder)

/-- The effect of a request can be read off its reply. -/
theorem Serves.affects (h : d.Serves s.command s.reply event d')
    (hkeyed : ∀ {id a}, d id = some a → a.info.id = id) :
    event = s.effect?.map Effect.change ∧ d.Affects s.effect? d' := by
  obtain ⟨ticket, command, reply⟩ := s
  cases h with
  | @adds a hfree => exact ⟨rfl, .changes (e := .added a) hfree⟩
  | @removes id reason a htaken =>
      obtain rfl := hkeyed htaken
      exact ⟨rfl, .changes (e := .removed a reason) htaken⟩
  | keeps _ | misses _ | lists _ _ | counts _ | tells => exact ⟨rfl, .keeps⟩

/-- What is known of a map from what was served and published. -/
structure Told (d : Directory) (log : List Served) (events : List Change) : Prop where
  keyed : ∀ {id a}, d id = some a → a.info.id = id
  published : events = (effects log).map Effect.change
  alternates : ∀ id, Alternates ((effects log).filter (·.id = id)) (d id)
  replayed : ∀ id, id ∈ replay ∅ events ↔ (d id).isSome
  counted : (replay ∅ events).card + events.countP Change.isDeparture
    = events.countP Change.isArrival

theorem told_empty : Told empty [] [] where
  keyed := fun h => by cases h
  published := rfl
  alternates := fun _ => .nil
  replayed := fun id => by simp [replay, empty]
  counted := rfl

/-- An id that is put in or taken out is counted once. -/
theorem Told.counted_change (h : d.Told log events) {e : Effect} (hbefore : d e.id = e.before) :
    (replay ∅ (events ++ [e.change])).card + (events ++ [e.change]).countP Change.isDeparture
      = (events ++ [e.change]).countP Change.isArrival := by
  have hcounted := h.counted
  have hthere := h.replayed e.id
  rw [hbefore] at hthere
  rw [replay_concat, List.countP_append, List.countP_append]
  cases e with
  | added a =>
      have hnew : a.info.id ∉ replay ∅ events := fun hmem => Bool.false_ne_true (hthere.1 hmem)
      have hcard : (insert a.info.id (replay ∅ events)).card = (replay ∅ events).card + 1 :=
        Finset.card_insert_of_notMem hnew
      simp only [Effect.change, Change.replay, hcard, List.countP_singleton, Change.isDeparture,
        Change.isArrival, Bool.false_eq_true, if_false, if_true]
      omega
  | removed a reason =>
      have hcard : ((replay ∅ events).erase a.info.id).card + 1 = (replay ∅ events).card :=
        Finset.card_erase_add_one (hthere.2 rfl)
      simp only [Effect.change, Change.replay, List.countP_singleton, Change.isDeparture,
        Change.isArrival, Bool.false_eq_true, if_false, if_true]
      omega

theorem Told.changes (h : d.Told log events) {e : Effect} (hbefore : d e.id = e.before)
    (heffect : s.effect? = some e) :
    Told (Function.update d e.id e.holder) (log ++ [s]) (events ++ [e.change]) where
  keyed := by
    intro id a ha
    rcases eq_or_ne id e.id with rfl | hne
    · rw [Function.update_self] at ha
      exact Effect.id_of_holder ha
    · rw [Function.update_of_ne hne] at ha
      exact h.keyed ha
  published := by
    rw [effects_concat, heffect, h.published, Option.toList_some, List.map_append]
    rfl
  alternates := by
    intro id
    rw [effects_concat, heffect, Option.toList_some, List.filter_append]
    rcases eq_or_ne id e.id with rfl | hne
    · rw [Function.update_self, List.filter_cons_of_pos (by simp), List.filter_nil]
      exact (hbefore ▸ h.alternates e.id).concat
    · rw [Function.update_of_ne hne, List.filter_cons_of_neg (by simpa using hne.symm),
        List.filter_nil, List.append_nil]
      exact h.alternates id
  replayed := by
    intro id
    rw [replay_concat]
    rcases eq_or_ne id e.id with rfl | hne
    · rw [Function.update_self]
      exact e.mem_replay_change _
    · rw [Function.update_of_ne hne, ← h.replayed id]
      exact Change.mem_replay_of_ne (e.id_change ▸ hne.symm)
  counted := h.counted_change hbefore

theorem Told.keeps (h : d.Told log events) (heffect : s.effect? = none) :
    d.Told (log ++ [s]) events := by
  have heffects : effects (log ++ [s]) = effects log := by
    rw [effects_concat, heffect, Option.toList_none, List.append_nil]
  exact { h with
    published := heffects ▸ h.published
    alternates := heffects ▸ h.alternates }

/-- What is known of a map holds of every one that requests have led to. -/
theorem Executes.told (h : Executes log events d) : d.Told log events := by
  induction h with
  | nil => exact told_empty
  | concat _ hserves ih =>
      obtain ⟨rfl, haffects⟩ := hserves.affects ih.keyed
      generalize heffect : Served.effect? _ = effect at haffects
      cases haffects with
      | keeps => simpa using ih.keeps heffect
      | changes hbefore => exact ih.changes hbefore heffect

/-- The ids that a map counts or lists are those of its events. -/
theorem Told.eq_replay (h : d.Told log events) {ids : Finset PeerId}
    (hids : ∀ id, id ∈ ids ↔ (d id).isSome) : ids = replay ∅ events := by
  ext id
  rw [hids, h.replayed]

/-- A reply that lists the members has the ids that the events before it tell. -/
theorem Executes.ids_of_snapshot {tk : Ticket} {reply : Reply}
    (h : Executes (log ++ [⟨tk, .snapshot none, reply⟩]) events d) :
    ∃ ms, reply = .members ms ∧ Member.ids ms = replay ∅ events := by
  obtain ⟨events₀, d₀, event, h₀, hserves⟩ := h.of_concat
  have hpublished := h.told.published
  rw [effects_concat] at hpublished
  generalize hcommand : Command.snapshot none = c at hserves
  cases hserves with
  | @lists except ms _ hms =>
      cases hcommand
      refine ⟨ms, rfl, ?_⟩
      have hevents : events = events₀ := by
        rw [hpublished, h₀.told.published]
        simp [Served.effect?]
      rw [hevents]
      refine h₀.told.eq_replay ?_
      intro id
      rw [Member.mem_ids]
      constructor
      · rintro ⟨a, ha, rfl⟩
        rw [((hms a).1 ha).1]
        rfl
      · intro hsome
        obtain ⟨a, ha⟩ := Option.isSome_iff_exists.1 hsome
        obtain rfl := h₀.told.keyed ha
        exact ⟨a, (hms a).2 ⟨ha, by simp⟩, rfl⟩
  | adds _ | keeps _ | removes _ | misses _ | counts _ | tells => cases hcommand

/-- A reply that counts the members gives the number of registrations less
the number of removals before it. -/
theorem Executes.count_of_size {tk : Ticket} {n : Nat}
    (h : Executes (log ++ [⟨tk, .size, .count n⟩]) events d) :
    n + ((effects log).map Effect.change).countP Change.isDeparture
      = ((effects log).map Effect.change).countP Change.isArrival := by
  obtain ⟨events₀, d₀, event, h₀, hserves⟩ := h.of_concat
  rw [← h₀.told.published, ← h₀.told.counted]
  cases hserves with
  | counts hids => rw [h₀.told.eq_replay hids]

end Directory

namespace Registry

variable {r : Registry}

/-- While a registry serves, the ids of its members are those of its events. -/
theorem Linear.ids_members (h : r.Linear) (hserving : r.service = .serving) :
    Member.ids r.membership.members = replay ∅ r.events := by
  obtain ⟨d, hexecutes, hd⟩ := h.executes
  obtain rfl := hd hserving
  refine hexecutes.told.eq_replay ?_
  intro id
  rw [Member.mem_ids, ← Membership.contains, Membership.contains_iff]

/-- While a registry serves, it has as many members as were registered and
not removed. -/
theorem Linear.size (h : r.Linear) (hserving : r.service = .serving) :
    r.membership.size + r.events.countP Change.isDeparture
      = r.events.countP Change.isArrival := by
  obtain ⟨d, hexecutes, -⟩ := h.executes
  have hsize : r.membership.size = (replay ∅ r.events).card := by
    rw [← h.ids_members hserving, Member.ids, List.toFinset_card_of_nodup h.ordered.ids_nodup,
      List.length_map]
    rfl
  rw [hsize]
  exact hexecutes.told.counted

end Registry

end LineRelay
