/-
# What a registry does with requests

`RegistryStep` lists what can happen to a registry: it takes a command, it
serves one, it drops one, it stops.  What follows for every registry that
comes to be this way:

| | |
| :-- | :-- |
| `Ordered` | a ticket stands for one request, and an id for one member |
| `Holds` | while it serves, no request is lost |
| `Balanced` | a member has been registered once more than removed |
| `Gone` | a removed peer is absent until an id is registered a second time |
-/
import Mathlib
import LineRelay.Registry.Basic

namespace LineRelay

/-! ## The members -/

namespace Membership

theorem contains_iff {m : Membership} {id : PeerId} :
    m.contains id = true ↔ ∃ a ∈ m.members, a.info.id = id := by
  simp [contains, find?, List.find?_isSome]

theorem contains_eq_false_iff {m : Membership} {id : PeerId} :
    m.contains id = false ↔ ∀ a ∈ m.members, a.info.id ≠ id := by
  rw [Bool.eq_false_iff, ne_eq, contains_iff]
  push Not
  rfl

theorem find?_eq_some {m : Membership} {id : PeerId} {a : Member} (h : m.find? id = some a) :
    a ∈ m.members ∧ a.info.id = id :=
  ⟨List.mem_of_find?_eq_some h, by simpa using List.find?_some h⟩

theorem find?_eq_none {m : Membership} {id : PeerId} :
    m.find? id = none ↔ m.contains id = false := by
  simp [contains]

/-- The members after a command are those before it, but for the one that
it adds or removes. -/
theorem mem_apply {m : Membership} {rank : PeerId → Nat} {c : Command} {a : Member}
    (h : a ∈ (m.apply rank c).1.members) : a ∈ m.members ∨ c = .register a := by
  cases c with
  | register b =>
      simp only [apply] at h
      split_ifs at h
      · exact .inl h
      · rcases List.mem_append.1 h with h | h
        · exact .inl h
        · exact .inr (by rw [List.mem_singleton.1 h])
  | unregister id reason =>
      simp only [apply] at h
      split at h
      · exact .inl h
      · exact .inl (List.mem_of_mem_filter h)
  | snapshot _ | size | contains _ => exact .inl h

/-- A command that removes someone is the removal of the id of a member. -/
theorem of_apply_removed {m : Membership} {rank : PeerId → Nat} {c : Command} {a : Member}
    (h : (m.apply rank c).2.1 = .removed (some a)) :
    ∃ reason, c = .unregister a.info.id reason ∧ a ∈ m.members := by
  cases c with
  | register b =>
      simp only [apply] at h
      split_ifs at h
  | unregister id reason =>
      simp only [apply] at h
      split at h
      · cases h
      · next hfind =>
          cases h
          obtain ⟨ha, rfl⟩ := find?_eq_some hfind
          exact ⟨reason, rfl, ha⟩
  | snapshot _ | size | contains _ => cases h

/-- A command that publishes a removal is that removal. -/
theorem of_apply_departed {m : Membership} {rank : PeerId → Nat} {c : Command} {peer : Identity}
    {reason : Reason} (h : (m.apply rank c).2.2 = some (.removed peer reason)) :
    c = .unregister peer.id reason := by
  cases c with
  | register b =>
      simp only [apply] at h
      split_ifs at h
      cases h
  | unregister id reason' =>
      simp only [apply] at h
      split at h
      · cases h
      · next hfind =>
          cases h
          rw [(find?_eq_some hfind).2]
  | snapshot _ | size | contains _ => cases h

theorem contains_apply_register (m : Membership) (rank : PeerId → Nat) (a : Member) (id : PeerId) :
    (m.apply rank (.register a)).1.contains id = (m.contains id || a.info.id = id) := by
  simp only [apply]
  split_ifs with h
  · rcases eq_or_ne a.info.id id with rfl | hne
    · simp [h]
    · simp [hne]
  · rw [Bool.eq_iff_iff, Bool.or_eq_true, contains_iff, contains_iff]
    simp [or_and_right, exists_or]

theorem contains_apply_unregister (m : Membership) (rank : PeerId → Nat) (id' id : PeerId)
    (reason : Reason) :
    (m.apply rank (.unregister id' reason)).1.contains id = (m.contains id && id ≠ id') := by
  simp only [apply]
  split
  · next h =>
      rcases eq_or_ne id id' with rfl | hne
      · simp [find?_eq_none.1 h]
      · simp [hne]
  · rw [Bool.eq_iff_iff, Bool.and_eq_true, contains_iff, contains_iff]
    simp only [erase, List.mem_filter, decide_eq_true_eq]
    constructor
    · rintro ⟨a, ⟨ha, hne⟩, rfl⟩
      exact ⟨⟨a, ha, rfl⟩, hne⟩
    · rintro ⟨⟨a, ha, rfl⟩, hne⟩
      exact ⟨a, ⟨ha, hne⟩, rfl⟩

theorem nodup_apply {m : Membership} {rank : PeerId → Nat} {c : Command}
    (h : (m.members.map (·.info.id)).Nodup) :
    ((m.apply rank c).1.members.map (·.info.id)).Nodup := by
  cases c with
  | register a =>
      simp only [apply]
      split_ifs with hcontains
      · exact h
      · have hnew := contains_eq_false_iff.1 (Bool.eq_false_iff.2 hcontains)
        rw [List.map_append, List.nodup_append]
        refine ⟨h, by simp, ?_⟩
        intro id hid id' hid'
        obtain ⟨b, hb, rfl⟩ := List.mem_map.1 hid
        obtain rfl : id' = a.info.id := by simpa using hid'
        exact hnew b hb
  | unregister id reason =>
      simp only [apply]
      split
      · exact h
      · exact h.sublist (List.filter_sublist.map _)
  | snapshot _ | size | contains _ => exact h

end Membership

/-! ## Steps -/

/-- One thing that happens to a registry. -/
inductive RegistryStep (r : Registry) : Registry → Prop
  | keeps : RegistryStep r r
  | takes {c : Command} : r.admits = true → RegistryStep r (r.request c).1
  | serves {rank : PeerId → Nat} {tk : Ticket} {c : Command} {queue : List (Ticket × Command)} :
      r.service = .serving → r.queue = (tk, c) :: queue →
      RegistryStep r { r with
        membership := (r.membership.apply rank c).1
        queue
        served := r.served ++ [⟨tk, c, (r.membership.apply rank c).2.1⟩]
        events := r.events ++ (r.membership.apply rank c).2.2.toList }
  | drops {q : Ticket × Command} {queue : List (Ticket × Command)} :
      r.service ≠ .serving → r.queue = q :: queue → RegistryStep r { r with queue }
  | stops : RegistryStep r r.stop

namespace Registry

variable {r r' : Registry} {tk : Ticket} {c : Command} {id : PeerId}

/-- Serving takes the request at the front of the queue. -/
theorem serve_cases {rank : PeerId → Nat} {change : Option Change}
    (h : r.serve rank = some (r', change)) :
    ∃ tk c queue, r.queue = (tk, c) :: queue
      ∧ (r.service = .serving ∧ change = (r.membership.apply rank c).2.2
          ∧ r' = { r with
            membership := (r.membership.apply rank c).1
            queue
            served := r.served ++ [⟨tk, c, (r.membership.apply rank c).2.1⟩]
            events := r.events ++ (r.membership.apply rank c).2.2.toList }
        ∨ r.service ≠ .serving ∧ change = none ∧ r' = { r with queue }) := by
  unfold serve at h
  split at h
  · cases h
  · next tk c queue hqueue =>
      refine ⟨tk, c, queue, hqueue, ?_⟩
      split_ifs at h with hservice
      · cases h
        exact .inl ⟨hservice, rfl, rfl⟩
      · cases h
        exact .inr ⟨hservice, rfl, rfl⟩

theorem registryStep_of_serve {rank : PeerId → Nat} {change : Option Change}
    (h : r.serve rank = some (r', change)) : RegistryStep r r' := by
  obtain ⟨tk, c, queue, hqueue, ⟨hservice, -, rfl⟩ | ⟨hservice, -, rfl⟩⟩ := serve_cases h
  · exact .serves hservice hqueue
  · exact .drops hservice hqueue

/-- A registry that serves has always done so. -/
theorem serving_of_step (h : RegistryStep r r') (hserving : r'.service = .serving) :
    r.service = .serving := by
  cases h with
  | keeps | takes _ | serves _ _ | drops _ _ => exact hserving
  | stops => cases hserving

/-! ## Tickets -/

/-- The tickets of the requests that wait or were served. -/
def tickets (r : Registry) : List Ticket := r.queue.map (·.1) ++ r.served.map (·.ticket)

/-- No ticket stands for two requests, and no id for two members. -/
structure Ordered (r : Registry) : Prop where
  below : ∀ tk ∈ r.tickets, tk < r.nextTicket
  tickets_nodup : r.tickets.Nodup
  ids_nodup : (r.membership.members.map (·.info.id)).Nodup

theorem Ordered.step (h : r.Ordered) (hstep : RegistryStep r r') : r'.Ordered := by
  cases hstep with
  | keeps => exact h
  | @takes c _ =>
      cases hservice : decide (r.service = .stopped) with
      | true =>
          have hservice := of_decide_eq_true hservice
          have htickets : (r.request c).1.tickets = r.tickets := by
            simp [request, tickets, hservice]
          exact ⟨fun tk htk => Nat.lt_succ_of_lt (h.below tk (htickets ▸ htk)),
            htickets ▸ h.tickets_nodup, h.ids_nodup⟩
      | false =>
          have hservice := of_decide_eq_false hservice
          have htickets : (r.request c).1.tickets.Perm (r.nextTicket :: r.tickets) := by
            simp only [request, tickets, hservice, if_false, List.map_append, List.map_cons,
              List.map_nil, List.append_assoc, List.singleton_append]
            exact List.perm_middle
          refine ⟨?_, htickets.nodup_iff.2 (List.nodup_cons.2
            ⟨fun hnext => Nat.lt_irrefl _ (h.below _ hnext), h.tickets_nodup⟩), h.ids_nodup⟩
          intro tk htk
          show tk < r.nextTicket + 1
          rcases List.mem_cons.1 (htickets.mem_iff.1 htk) with rfl | htk
          · exact Nat.lt_succ_self _
          · exact Nat.lt_succ_of_lt (h.below tk htk)
  | @serves rank tk c queue _ hqueue =>
      have htickets : (queue.map (·.1) ++ (r.served ++
          [(⟨tk, c, (r.membership.apply rank c).2.1⟩ : Served)]).map (·.ticket)).Perm
            r.tickets := by
        rw [tickets, hqueue, List.map_append, ← List.append_assoc]
        exact List.perm_append_singleton tk _
      exact ⟨fun tk htk => h.below tk (htickets.mem_iff.1 htk),
        htickets.nodup_iff.2 h.tickets_nodup,
        Membership.nodup_apply h.ids_nodup⟩
  | @drops q queue _ hqueue =>
      have hsub : (queue.map (·.1) ++ r.served.map (·.ticket)).Sublist r.tickets := by
        rw [tickets, hqueue]
        exact List.sublist_cons_self _ _
      exact ⟨fun tk htk => h.below tk (hsub.subset htk), h.tickets_nodup.sublist hsub, h.ids_nodup⟩
  | stops =>
      have hsub : (r.served.map (·.ticket)).Sublist r.tickets := List.sublist_append_right _ _
      exact ⟨fun tk htk => h.below tk (hsub.subset htk), h.tickets_nodup.sublist hsub,
        List.nodup_nil⟩

/-- The request with a ticket is a certain command, and while the registry
serves it waits or was served. -/
structure Holds (r : Registry) (tk : Ticket) (c : Command) : Prop where
  below : tk < r.nextTicket
  queue : ∀ {c'}, (tk, c') ∈ r.queue → c' = c
  served : ∀ {s}, s ∈ r.served → s.ticket = tk → s.command = c
  kept : r.service = .serving → (tk, c) ∈ r.queue ∨ ∃ reply, ⟨tk, c, reply⟩ ∈ r.served

theorem mem_queue_request {c' : Command} (h : (tk, c) ∈ (r.request c').1.queue) :
    (tk, c) ∈ r.queue ∨ tk = r.nextTicket ∧ c = c' := by
  simp only [request] at h
  split_ifs at h
  · exact .inl h
  · rcases List.mem_append.1 h with h | h
    · exact .inl h
    · cases List.mem_singleton.1 h
      exact .inr ⟨rfl, rfl⟩

/-- While the registry serves, no request is lost. -/
theorem Holds.step (h : r.Holds tk c) (hstep : RegistryStep r r') : r'.Holds tk c := by
  cases hstep with
  | keeps => exact h
  | @takes c₁ _ =>
      refine ⟨Nat.lt_succ_of_lt h.below, ?_, h.served, ?_⟩
      · intro c' hmem
        rcases mem_queue_request hmem with hmem | ⟨rfl, -⟩
        · exact h.queue hmem
        · exact absurd h.below (Nat.lt_irrefl _)
      · intro hserving
        refine (h.kept hserving).imp_left ?_
        intro hmem
        simp only [request]
        split_ifs
        · exact hmem
        · exact List.mem_append_left _ hmem
  | @serves rank tk₁ c₁ queue hservice hqueue =>
      refine ⟨h.below, fun hmem => h.queue (hqueue ▸ List.mem_cons_of_mem _ hmem),
        ?_, fun _ => ?_⟩
      · intro s hs htk
        rcases List.mem_append.1 hs with hs | hs
        · exact h.served hs htk
        · obtain rfl := List.mem_singleton.1 hs
          obtain rfl : tk₁ = tk := htk
          exact h.queue (by rw [hqueue]; exact List.mem_cons_self)
      · rcases h.kept hservice with hmem | ⟨reply, hmem⟩
        · rw [hqueue] at hmem
          rcases List.mem_cons.1 hmem with hmem | hmem
          · cases hmem
            exact .inr ⟨_, List.mem_append_right _ (List.mem_singleton_self _)⟩
          · exact .inl hmem
        · exact .inr ⟨reply, List.mem_append_left _ hmem⟩
  | drops hservice hqueue =>
      exact ⟨h.below, fun hmem => h.queue (hqueue ▸ List.mem_cons_of_mem _ hmem), h.served,
        fun hserving => absurd hserving hservice⟩
  | stops =>
      exact ⟨h.below, fun hmem => absurd hmem List.not_mem_nil, h.served,
        fun hserving => Service.noConfusion hserving⟩

/-- A request that was taken is held. -/
theorem Ordered.holds_request (h : r.Ordered) (c : Command) :
    (r.request c).1.Holds r.nextTicket c := by
  refine ⟨Nat.lt_succ_self _, ?_, ?_, ?_⟩
  · intro c' hmem
    rcases mem_queue_request hmem with hmem | ⟨-, rfl⟩
    · exact absurd (h.below _ (List.mem_append_left _ (List.mem_map.2 ⟨_, hmem, rfl⟩)))
        (Nat.lt_irrefl _)
    · rfl
  · intro s hs htk
    exact absurd (htk ▸ h.below _ (List.mem_append_right _ (List.mem_map.2 ⟨s, hs, rfl⟩)))
      (Nat.lt_irrefl _)
  · intro hserving
    have hserving : r.service = .serving := hserving
    exact .inl (by simp [request, hserving])

/-- An answer to a request that is held is the reply to that request, or
the registry does not serve. -/
theorem Holds.answer (hholds : r.Holds tk c) {answer : Except RequestError Reply}
    (hanswer : r.answer? tk = some answer) :
    (∃ reply, answer = .ok reply ∧ ⟨tk, c, reply⟩ ∈ r.served)
    ∨ r.service ≠ .serving ∧ ∃ e, answer = .error e := by
  unfold answer? at hanswer
  split at hanswer
  · next s hs =>
      have hmem := List.mem_of_find?_eq_some hs
      have hticket : s.ticket = tk := by simpa using List.find?_some hs
      have hcommand := hholds.served hmem hticket
      cases hanswer
      refine .inl ⟨s.reply, rfl, ?_⟩
      rwa [← hticket, ← hcommand]
  · next hnone =>
      split_ifs at hanswer with hany
      cases hanswer
      refine .inr ⟨?_, _, rfl⟩
      intro hserving
      rcases hholds.kept hserving with hmem | ⟨reply, hmem⟩
      · exact hany (List.any_eq_true.2 ⟨_, hmem, by simp⟩)
      · simpa using List.find?_eq_none.1 hnone _ hmem

/-- A request that was served waits no longer. -/
theorem not_mem_queue_of_served (h : r.Ordered) {reply : Reply} (hs : ⟨tk, c, reply⟩ ∈ r.served)
    (c' : Command) : (tk, c') ∉ r.queue := fun hqueue =>
  (List.nodup_append.1 h.tickets_nodup).2.2 tk (List.mem_map.2 ⟨_, hqueue, rfl⟩) tk
    (List.mem_map.2 ⟨_, hs, rfl⟩) rfl

end Registry

/-! ## Events -/

/-- Whether a change is the registration of an id. -/
def Change.registers (id : PeerId) : Change → Bool
  | .registered peer => peer.id = id
  | .removed _ _ => false

/-- Whether a change is the removal of an id. -/
def Change.removes (id : PeerId) : Change → Bool
  | .registered _ => false
  | .removed peer _ => peer.id = id

/-- Whose registration a change is. -/
def Change.registered? : Change → Option PeerId
  | .registered peer => some peer.id
  | .removed _ _ => none

namespace Registry

variable {r r' : Registry} {tk : Ticket} {c : Command} {id : PeerId}

/-- How often an id was registered. -/
def arrivals (r : Registry) (id : PeerId) : Nat := r.events.countP (Change.registers id)

/-- Nobody was registered twice if the ids that were registered differ. -/
theorem arrivals_le_one (h : (r.events.filterMap Change.registered?).Nodup) (id : PeerId) :
    r.arrivals id ≤ 1 := by
  have hcount := List.nodup_iff_count_le_one.1 h id
  rw [List.count, List.countP_filterMap] at hcount
  refine (List.countP_congr ?_).trans_le hcount
  intro e _
  cases e <;> simp [Change.registers, Change.registered?]

/-- How often an id was removed. -/
def departures (r : Registry) (id : PeerId) : Nat := r.events.countP (Change.removes id)

/-- A member was registered once more than it was removed, anyone else as
often. -/
def Balanced (r : Registry) : Prop :=
  ∀ id, r.arrivals id = r.departures id + if r.membership.contains id then 1 else 0

/-- What the event of a command counts for, beside what the command does. -/
theorem balance_apply (m : Membership) (rank : PeerId → Nat) (c : Command) (id : PeerId) :
    (if m.contains id then 1 else 0) + (m.apply rank c).2.2.toList.countP (Change.registers id)
      = (m.apply rank c).2.2.toList.countP (Change.removes id)
        + if (m.apply rank c).1.contains id then 1 else 0 := by
  cases c with
  | register a =>
      rw [Membership.contains_apply_register]
      cases hin : m.contains a.info.id with
      | true =>
          rcases eq_or_ne a.info.id id with rfl | hne
          · simp [Membership.apply, hin]
          · simp [Membership.apply, hin, hne]
      | false =>
          rcases eq_or_ne a.info.id id with rfl | hne
          · simp [Membership.apply, hin, Change.registers, Change.removes]
          · simp [Membership.apply, hin, hne, Change.registers, Change.removes]
  | unregister id' reason =>
      rw [Membership.contains_apply_unregister]
      cases hfind : m.find? id' with
      | none =>
          have hnot := Membership.find?_eq_none.1 hfind
          rcases eq_or_ne id id' with rfl | hne
          · simp [Membership.apply, hfind, hnot]
          · simp [Membership.apply, hfind, hne]
      | some a =>
          obtain ⟨ha, rfl⟩ := Membership.find?_eq_some hfind
          rcases eq_or_ne id a.info.id with rfl | hne
          · have hin : m.contains a.info.id = true := Membership.contains_iff.2 ⟨a, ha, rfl⟩
            simp [Membership.apply, hfind, hin, Change.registers, Change.removes]
          · simp [Membership.apply, hfind, hne, hne.symm, Change.registers, Change.removes]
  | snapshot _ | size | contains _ => exact Nat.add_comm _ _

theorem Balanced.step (h : r.Balanced) (hstep : RegistryStep r r')
    (hserving : r'.service = .serving) : r'.Balanced := by
  cases hstep with
  | keeps | takes _ | drops _ _ => exact h
  | @serves rank tk c queue _ _ =>
      intro id
      have := h id
      have := balance_apply r.membership rank c id
      simp only [arrivals, departures, List.countP_append] at *
      omega
  | stops => cases hserving

theorem arrivals_le_step (hstep : RegistryStep r r') (id : PeerId) :
    r.arrivals id ≤ r'.arrivals id := by
  cases hstep with
  | keeps | takes _ | drops _ _ | stops => exact Nat.le_refl _
  | serves _ _ =>
      simp only [arrivals, List.countP_append]
      omega

/-- An id that was registered is absent, and will be until it is
registered again. -/
def Gone (r : Registry) (id : PeerId) : Prop :=
  r.membership.contains id = false ∧ 1 ≤ r.arrivals id ∨ 2 ≤ r.arrivals id

theorem Gone.step (h : r.Gone id) (hstep : RegistryStep r r') : r'.Gone id := by
  have hmono := arrivals_le_step hstep id
  rcases h with ⟨habsent, hone⟩ | htwo
  · cases hstep with
    | keeps | takes _ | drops _ _ => exact .inl ⟨habsent, hone⟩
    | stops => exact .inl ⟨rfl, hone⟩
    | @serves rank tk c queue _ _ =>
        have hbalance := balance_apply r.membership rank c id
        cases hcontains : (r.membership.apply rank c).1.contains id with
        | false => exact .inl ⟨hcontains, hone.trans hmono⟩
        | true =>
            refine .inr ?_
            simp only [habsent, hcontains, Bool.false_eq_true, if_false, if_true] at hbalance
            simp only [arrivals, List.countP_append] at hone ⊢
            omega
  · exact .inr (htwo.trans hmono)

/-- Serving the removal of an id that was registered makes it gone. -/
theorem gone_of_unregister {rank : PeerId → Nat} {reason : Reason} {queue : List (Ticket × Command)}
    (hone : 1 ≤ r.arrivals id) :
    Registry.Gone { r with
      membership := (r.membership.apply rank (.unregister id reason)).1
      queue
      served := r.served ++ [⟨tk, .unregister id reason,
        (r.membership.apply rank (.unregister id reason)).2.1⟩]
      events := r.events ++ (r.membership.apply rank (.unregister id reason)).2.2.toList } id := by
  refine .inl ⟨?_, ?_⟩
  · rw [Membership.contains_apply_unregister]
    simp
  · simp only [arrivals, List.countP_append] at hone ⊢
    omega

end Registry

end LineRelay
