/-
# What those who ask the registry are answered

A request enters the queue of the registry with one move of the run
(`Sent`).  What becomes of it then is one of three things (`Fate`):

| the request | its answer until then | its answer from then on |
| :-- | :-- | :-- |
| waits in the queue | none | |
| is served with one move | none | the reply |
| is lost when the registry stops | none | the error |

Only a request that is served is carried out, with that move.  So whoever
asks, in whatever order, and whether or not they wait for the reply, all
are answered as by a map that is asked one thing at a time
(`registry_linearizable`).  This holds of every list of moves: nothing that
is done from outside makes the registry say anything else.

## What this is not

It is not said that a request that waits is served in the end.
-/
import LineRelay.Proofs.Registry.Linear
import LineRelay.Proofs.Relay.Requests

namespace LineRelay

/-! ## Any move -/

namespace World

/-- What a move means for the registry, be it permitted or not. -/
theorem registryChange_move (w : World) (m : Move) : RegistryChange w m (w.move m) := by
  by_cases h : w.Permits m
  · exact (moveStep_move h).registryChange
  · cases m with
    | connect _ | spawn _ => exact .keeps rfl
    | request c =>
        simp only [move, request]
        split_ifs with hadmits
        · exact .takes hadmits (.outside rfl) rfl
        · exact .keeps rfl
    | _ => exact absurd trivial h

/-- A task that waits for a reply goes on waiting, or there is an answer. -/
theorem waits_or_answered {w : World} {t : TaskKey} {u : Purpose} {tk : Ticket}
    (ht : w.call? t = some (u, .waiting tk)) (m : Move) :
    (w.move m).call? t = some (u, .waiting tk) ∨ ∃ answer, w.registry.answer? tk = some answer := by
  by_cases h : w.Permits m
  · have hanswer : w.Released (w.call? t) → ∃ answer, w.registry.answer? tk = some answer := by
      intro hreleased
      obtain ⟨tk', answer, hcall, hanswer⟩ := hreleased _ _ ht
      cases hcall
      exact ⟨answer, hanswer⟩
    cases (moveStep_move h).call t with
    | stays hcall => exact .inl (hcall.trans ht)
    | begins hreleased _ _ _ | ends hreleased _ => exact .inr (hanswer hreleased)
    | enters hcall _ _ _ => cases hcall.symm.trans ht
  · refine .inl ?_
    cases m with
    | connect _ => exact ht
    | spawn task =>
        obtain ⟨task', htask, -⟩ := Option.bind_eq_some_iff.1 ht
        obtain ⟨hlt, -⟩ := List.getElem?_eq_some_iff.1 htask
        show (w.tasks ++ [task])[t]?.bind Task.call? = _
        rw [List.getElem?_append_left hlt]
        exact ht
    | request c =>
        simp only [move, request]
        split_ifs <;> exact ht
    | _ => exact absurd trivial h

end World

/-! ## The fate of a request -/

section

variable (w₀ : World) (moves : List Move)

/-- The request `tk` is the command `c`, which someone sent with the move `i`. -/
structure Sent (i : Nat) (tk : Ticket) (c : Command) : Prop where
  asks : ∃ m, moves[i]? = some m ∧ (w₀.after moves i).Asks m (w₀.after moves (i + 1)) c
  ticket : (w₀.after moves i).registry.nextTicket = tk
  taken : (w₀.after moves (i + 1)).registry = ((w₀.after moves i).registry.request c).1

/-- Behind the move `i`, and until `j` moves were made, this is the answer to
whoever waits for `tk`. -/
def Answers (tk : Ticket) (i j : Nat) (answer : Option (Except RequestError Reply)) : Prop :=
  ∀ n, i < n → n ≤ j → (w₀.after moves n).registry.answer? tk = answer

/-- What has become of the command `c` that was sent as `tk` with the move
`i`. -/
inductive Fate (i : Nat) (tk : Ticket) (c : Command) : Prop
  | waits : (tk, c) ∈ (w₀.run moves).registry.queue →
      Answers w₀ moves tk i moves.length none → Fate i tk c
  | served {j : Nat} {rank : PeerId → Nat} {reply : Reply} :
      i < j → moves[j]? = some (.serve rank) → Answers w₀ moves tk i j none →
      (w₀.after moves (j + 1)).registry.served
        = (w₀.after moves j).registry.served ++ [⟨tk, c, reply⟩] →
      ⟨tk, c, reply⟩ ∈ (w₀.run moves).registry.served →
      Answers w₀ moves tk j moves.length (some (.ok reply)) → Fate i tk c
  | lost {j : Nat} :
      i ≤ j → j < moves.length → Answers w₀ moves tk i j none →
      (w₀.after moves (j + 1)).registry.service = .stopped →
      (∀ s ∈ (w₀.run moves).registry.served, s.ticket ≠ tk) →
      Answers w₀ moves tk j moves.length (some (.error .unserved)) → Fate i tk c

end

variable {w₀ : World} {moves : List Move} {m : Move} {i j n : Nat} {tk : Ticket} {c : Command}
  {answer : Option (Except RequestError Reply)}

/-! ### More moves -/

theorem Sent.lt (h : Sent w₀ moves i tk c) : i < moves.length := by
  obtain ⟨m, hm, -⟩ := h.asks
  exact (List.getElem?_eq_some_iff.1 hm).1

theorem sent_concat_iff (hi : i < moves.length) :
    Sent w₀ (moves ++ [m]) i tk c ↔ Sent w₀ moves i tk c := by
  have hafter := World.after_append w₀ [m] hi.le
  have hafter' := World.after_append w₀ [m] (Nat.succ_le_of_lt hi)
  have hmove : (moves ++ [m])[i]? = moves[i]? := List.getElem?_append_left hi
  constructor
  · rintro ⟨hasks, hticket, htaken⟩
    rw [hafter, hafter', hmove] at hasks
    rw [hafter] at hticket
    rw [hafter, hafter'] at htaken
    exact ⟨hasks, hticket, htaken⟩
  · rintro ⟨hasks, hticket, htaken⟩
    rw [← hafter, ← hafter', ← hmove] at hasks
    rw [← hafter] at hticket
    rw [← hafter, ← hafter'] at htaken
    exact ⟨hasks, hticket, htaken⟩

theorem Answers.append (h : Answers w₀ moves tk i j answer) (hj : j ≤ moves.length) :
    Answers w₀ (moves ++ [m]) tk i j answer := by
  intro n hin hnj
  rw [World.after_append w₀ [m] (hnj.trans hj)]
  exact h n hin hnj

theorem Answers.concat (h : Answers w₀ moves tk i moves.length answer)
    (hlast : (w₀.run (moves ++ [m])).registry.answer? tk = answer) :
    Answers w₀ (moves ++ [m]) tk i (moves ++ [m]).length answer := by
  intro n hin hn
  rw [List.length_append, List.length_singleton] at hn
  rcases Nat.le_or_eq_of_le_succ hn with hn | rfl
  · exact h.append le_rfl n hin hn
  · rwa [World.after_concat_succ]

/-- An answer after the last move. -/
theorem answers_last (hlast : (w₀.run (moves ++ [m])).registry.answer? tk = answer) :
    Answers w₀ (moves ++ [m]) tk moves.length (moves ++ [m]).length answer :=
  Answers.concat (fun _ hin hn => absurd hin hn.not_gt) hlast

/-- A registry that has stopped does so for good. -/
theorem World.stopped_after (hn : n ≤ moves.length)
    (hstopped : (w₀.after moves n).registry.service = .stopped) :
    (w₀.run moves).registry.service = .stopped
      ∧ (w₀.run moves).registry.served = (w₀.after moves n).registry.served
      ∧ (w₀.run moves).registry.events = (w₀.after moves n).registry.events := by
  induction moves using List.reverseRecOn with
  | nil =>
      obtain rfl : n = 0 := Nat.le_zero.1 hn
      exact ⟨hstopped, rfl, rfl⟩
  | append_singleton moves m ih =>
      rw [List.length_append, List.length_singleton] at hn
      rcases Nat.le_or_eq_of_le_succ hn with hn | rfl
      · rw [World.after_append w₀ [m] hn] at hstopped ⊢
        obtain ⟨hservice, hserved, hevents⟩ := ih hn hstopped
        rw [World.run_concat, ← hserved, ← hevents]
        exact Registry.stopped_step ((w₀.run moves).registryChange_move m).step hservice
      · rw [World.after_concat_succ] at hstopped ⊢
        exact ⟨hstopped, rfl, rfl⟩

/-- What relates a registry to what a step makes of it relates two moments of
a run. -/
theorem World.registry_extends {R : Registry → Registry → Prop} (refl : ∀ r, R r r)
    (trans : ∀ {r₁ r₂ r₃}, R r₁ r₂ → R r₂ r₃ → R r₁ r₃)
    (step : ∀ {r r'}, RegistryStep r r' → R r r') (w₀ : World) (moves : List Move) (h : i ≤ j) :
    R (w₀.after moves i).registry (w₀.after moves j).registry :=
  after_extends (R := fun w w' => R w.registry w'.registry) (fun _ => refl _) trans
    (fun hm => by
      rw [after_succ w₀ hm]
      exact step (World.registryChange_move _ _).step) h

/-- Tickets are given in ascending order. -/
theorem World.nextTicket_le (w₀ : World) (moves : List Move) (h : i ≤ j) :
    (w₀.after moves i).registry.nextTicket ≤ (w₀.after moves j).registry.nextTicket := by
  refine registry_extends (R := fun r r' => r.nextTicket ≤ r'.nextTicket) (fun _ => le_rfl)
    le_trans ?_ w₀ moves h
  intro r r' hstep
  cases hstep with
  | keeps | serves _ _ | drops _ _ | stops => exact le_rfl
  | takes _ => exact Nat.le_succ _

/-- What was published stays, and what is published comes after it. -/
theorem World.events_isPrefix (w₀ : World) (moves : List Move) (h : i ≤ j) :
    (w₀.after moves i).registry.events <+: (w₀.after moves j).registry.events := by
  refine registry_extends (R := fun r r' => r.events <+: r'.events) (fun _ => List.prefix_rfl)
    List.IsPrefix.trans ?_ w₀ moves h
  intro r r' hstep
  cases hstep with
  | keeps | takes _ | drops _ _ | stops => exact List.prefix_rfl
  | serves _ _ => exact List.prefix_append _ _

/-! ### What the last move does to it -/

/-- A request that waits goes on waiting, is served now, or is lost now. -/
theorem fate_of_waits (hi : i < moves.length) (hlinear : (w₀.run moves).registry.Linear)
    (hlinear' : (w₀.run (moves ++ [m])).registry.Linear)
    (hqueue : (tk, c) ∈ (w₀.run moves).registry.queue)
    (hnone : Answers w₀ moves tk i moves.length none) : Fate w₀ (moves ++ [m]) i tk c := by
  have hchange := (w₀.run moves).registryChange_move m
  rw [← World.run_concat] at hchange
  have hlast : (moves ++ [m])[moves.length]? = some m := List.getElem?_concat_length
  have hbefore := w₀.after_concat moves m
  have hafter := w₀.after_concat_succ moves m
  have hwaits : (tk, c) ∈ (w₀.run (moves ++ [m])).registry.queue →
      Fate w₀ (moves ++ [m]) i tk c := fun hmem =>
    .waits hmem (hnone.concat (hlinear'.ordered.answer?_queued hmem))
  cases hchange with
  | keeps hreg => exact hwaits (hreg ▸ hqueue)
  | takes _ _ hreg =>
      refine hwaits ?_
      rw [hreg, Registry.request]
      split_ifs
      · exact hqueue
      · exact List.mem_append_left _ hqueue
  | @serves rank change hm hserve =>
      obtain ⟨tk', c', queue, hfront, ⟨-, -, hreg⟩ | ⟨hservice, -, -⟩⟩ :=
        Registry.serve_cases hserve
      · rw [hfront] at hqueue
        rcases List.mem_cons.1 hqueue with hqueue | hqueue
        · cases hqueue
          have hmem : ⟨tk, c, ((w₀.run moves).registry.membership.apply rank c).2.1⟩
              ∈ (w₀.run (moves ++ [m])).registry.served := by
            rw [hreg]
            exact List.mem_append_right _ (List.mem_singleton_self _)
          refine .served hi (hlast.trans (congrArg some hm)) (hnone.append le_rfl) ?_ hmem
            (answers_last (hlinear'.ordered.answer?_served hmem))
          rw [hafter, hbefore, hreg]
        · exact hwaits (by rw [hreg]; exact hqueue)
      · rcases hlinear.live with hserving | ⟨-, hnil⟩
        · exact absurd hserving hservice
        · cases hnil.symm.trans hfront
  | stops hreg =>
      have hnever : ∀ s ∈ (w₀.run (moves ++ [m])).registry.served, s.ticket ≠ tk := by
        rintro ⟨_, c', reply⟩ hs rfl
        rw [hreg] at hs
        exact Registry.not_mem_queue_of_served hlinear.ordered hs c hqueue
      refine .lost hi.le (by simp) (hnone.append le_rfl) ?_ hnever (answers_last ?_)
      · rw [hafter, hreg]
        rfl
      · exact Registry.answer?_lost hnever (by rw [hreg]; rfl)

theorem Fate.concat (h : Fate w₀ moves i tk c) (hi : i < moves.length)
    (hlinear : (w₀.run moves).registry.Linear)
    (hlinear' : (w₀.run (moves ++ [m])).registry.Linear) : Fate w₀ (moves ++ [m]) i tk c := by
  have hstep := ((w₀.run moves).registryChange_move m).step
  rw [← World.run_concat] at hstep
  cases h with
  | waits hqueue hnone => exact fate_of_waits hi hlinear hlinear' hqueue hnone
  | served hij hj hnone hserved hmem hok =>
      have hlt := (List.getElem?_eq_some_iff.1 hj).1
      have hmem' := Registry.mem_served_step hstep hmem
      refine .served hij ((List.getElem?_append_left hlt).trans hj) (hnone.append hlt.le) ?_ hmem'
        (hok.concat (hlinear'.ordered.answer?_served hmem'))
      rw [World.after_append w₀ [m] hlt, World.after_append w₀ [m] hlt.le, hserved]
  | lost hij hlt hnone hstopped hnever herror =>
      obtain ⟨hstopped₁, -, -⟩ := World.stopped_after hlt hstopped
      obtain ⟨hstopped', hserved, -⟩ := Registry.stopped_step hstep hstopped₁
      have hnever' : ∀ s ∈ (w₀.run (moves ++ [m])).registry.served, s.ticket ≠ tk := by
        rwa [hserved]
      refine .lost hij (hlt.trans (by simp)) (hnone.append hlt.le) ?_ hnever' (herror.concat ?_)
      · rw [World.after_append w₀ [m] hlt, hstopped]
      · exact Registry.answer?_lost hnever' (hlinear'.queue_eq_nil hstopped')

/-- What is sent with the last move waits, unless the registry has stopped. -/
theorem Sent.fate_last (h : Sent w₀ (moves ++ [m]) moves.length tk c)
    (hlinear : (w₀.run moves).registry.Linear)
    (hlinear' : (w₀.run (moves ++ [m])).registry.Linear) :
    Fate w₀ (moves ++ [m]) moves.length tk c := by
  obtain ⟨-, hticket, htaken⟩ := h
  have hafter := w₀.after_concat_succ moves m
  rw [World.after_concat] at hticket htaken
  rw [hafter] at htaken
  have hnone : Answers w₀ (moves ++ [m]) tk moves.length moves.length none :=
    fun _ hin hn => absurd hin hn.not_gt
  rcases hlinear.live with hserving | ⟨hstopped, hnil⟩
  · have hmem : (tk, c) ∈ (w₀.run (moves ++ [m])).registry.queue := by
      rw [htaken, Registry.request, if_neg (by simp [hserving]), hticket]
      exact List.mem_append_right _ (List.mem_singleton_self _)
    exact .waits hmem (answers_last (hlinear'.ordered.answer?_queued hmem))
  · have hstopped' : (w₀.run (moves ++ [m])).registry.service = .stopped := by
      rw [htaken]
      exact hstopped
    have hnever : ∀ s ∈ (w₀.run (moves ++ [m])).registry.served, s.ticket ≠ tk := by
      intro s hs
      rw [htaken] at hs
      rw [← hticket]
      exact (hlinear.ordered.below _ (List.mem_append_right _ (List.mem_map.2 ⟨s, hs, rfl⟩))).ne
    refine .lost le_rfl (by simp) hnone (by rw [hafter, hstopped']) hnever (answers_last ?_)
    exact Registry.answer?_lost hnever (hlinear'.queue_eq_nil hstopped')

/-! ## Runs -/

/-- The requests of a run are answered as by a map that is asked one thing
at a time.

* `executes`: what was served was carried out by the map, in that order; its
  events are those that were published, and it is the membership while the
  registry serves;
* `tickets`: tickets are given in the order in which requests enter;
* `ordered`: requests are served in the order of their tickets;
* `sent`: what was served had been sent;
* `fates`: what was sent waits, was served at one moment, or is lost;
* `returns`: a task that waits goes on only when there is an answer;
* `races`: of the removals of one registration, one gets the member;
* `closed`: once the registry has stopped, nothing is carried out, anyone may
  ask, and who had no reply is answered with the error.
-/
structure Linearized (w₀ : World) (moves : List Move) : Prop where
  executes : ∃ d, Directory.Executes (w₀.run moves).registry.served (w₀.run moves).registry.events d
    ∧ ((w₀.run moves).registry.service = .serving → d = (w₀.run moves).registry.membership.find?)
  tickets : ∀ {i j : Nat} {tk tk' : Ticket} {c c' : Command}, Sent w₀ moves i tk c →
    Sent w₀ moves j tk' c' → i < j → tk < tk'
  ordered : ((w₀.run moves).registry.served.map (·.ticket)
    ++ (w₀.run moves).registry.queue.map (·.1)).Pairwise (· < ·)
  sent : ∀ {s : Served}, s ∈ (w₀.run moves).registry.served →
    ∃ i, Sent w₀ moves i s.ticket s.command
  fates : ∀ {i : Nat} {tk : Ticket} {c : Command}, Sent w₀ moves i tk c → Fate w₀ moves i tk c
  returns : ∀ {n : Nat} {m : Move} {t : TaskKey} {u : Purpose} {tk : Ticket},
    moves[n]? = some m → (w₀.after moves n).call? t = some (u, .waiting tk) →
    (w₀.after moves (n + 1)).call? t = some (u, .waiting tk)
      ∨ ∃ answer, (w₀.after moves n).registry.answer? tk = some answer
  races : ∀ {front mid back : List Served} {s : Served} {a : Member},
    (w₀.run moves).registry.served = front ++ s :: mid ++ back →
    s.command = .register a → s.reply = .registered true →
    (∀ s' ∈ mid, ¬ s'.Adds a.info.id) →
    mid.filterMap (Served.removal? a.info.id) = []
      ∨ ∃ n, mid.filterMap (Served.removal? a.info.id) = some a :: List.replicate n none
  closed : ∀ {n : Nat}, n ≤ moves.length → (w₀.after moves n).registry.service = .stopped →
    (w₀.run moves).registry.service = .stopped
      ∧ (w₀.run moves).registry.served = (w₀.after moves n).registry.served
      ∧ (w₀.run moves).registry.events = (w₀.after moves n).registry.events
      ∧ (w₀.run moves).registry.admits = true
      ∧ ∀ tk, (∀ s ∈ (w₀.after moves n).registry.served, s.ticket ≠ tk) →
          (w₀.run moves).registry.answer? tk = some (.error .unserved)

/-- In every world of a run, the registry has served as a map does. -/
theorem linear_run (moves : List Move) : ((World.run {} moves).registry).Linear := by
  induction moves using List.reverseRecOn with
  | nil => exact Registry.linear_empty
  | append_singleton moves m ih =>
      rw [World.run_concat]
      exact ih.step ((World.run {} moves).registryChange_move m).step

/-- What waits or was served had been sent. -/
theorem sent_run (moves : List Move) :
    (∀ {tk c}, (tk, c) ∈ (World.run {} moves).registry.queue → ∃ i, Sent {} moves i tk c)
    ∧ ∀ {s}, s ∈ (World.run {} moves).registry.served →
        ∃ i, Sent {} moves i s.ticket s.command := by
  induction moves using List.reverseRecOn with
  | nil => exact ⟨fun h => absurd h List.not_mem_nil, fun h => absurd h List.not_mem_nil⟩
  | append_singleton moves m ih =>
      obtain ⟨hqueued, hserved⟩ := ih
      have hlater : ∀ {tk c}, (∃ i, Sent {} moves i tk c) → ∃ i, Sent {} (moves ++ [m]) i tk c :=
        fun ⟨i, h⟩ => ⟨i, (sent_concat_iff h.lt).2 h⟩
      have hchange := (World.run {} moves).registryChange_move m
      rw [← World.run_concat] at hchange
      constructor
      · intro tk c hmem
        rcases hchange.queued hmem with hmem | ⟨rfl, hasks, hreg⟩
        · exact hlater (hqueued hmem)
        · have hbefore := World.after_concat {} moves m
          have hafter := World.after_concat_succ {} moves m
          refine ⟨moves.length, ⟨m, List.getElem?_concat_length, ?_⟩, ?_, ?_⟩
          · rwa [hbefore, hafter]
          · rw [hbefore]
          · rw [hbefore, hafter, hreg]
      · intro s hs
        rcases hchange.served hs with hs | ⟨_, -, -, hhead, -⟩
        · exact hlater (hserved hs)
        · exact hlater (hqueued (List.mem_of_mem_head? (Option.mem_def.2 hhead)))

theorem fate_run (moves : List Move) :
    ∀ {i tk c}, Sent {} moves i tk c → Fate {} moves i tk c := by
  induction moves using List.reverseRecOn with
  | nil =>
      intro i tk c h
      cases h.lt
  | append_singleton moves m ih =>
      intro i tk c h
      have hi := h.lt
      rw [List.length_append, List.length_singleton] at hi
      rcases Nat.lt_succ_iff_lt_or_eq.1 hi with hi | rfl
      · exact (ih ((sent_concat_iff hi).1 h)).concat hi (linear_run _) (linear_run _)
      · exact h.fate_last (linear_run _) (linear_run _)

/-- Whatever is done, the registry answers as a map that is asked one thing
at a time. -/
theorem registry_linearizable (moves : List Move) : Linearized {} moves where
  executes := (linear_run moves).executes
  tickets := by
    intro i j tk tk' c c' h h' hij
    have hle := World.nextTicket_le {} moves (Nat.succ_le_of_lt hij)
    rw [h.taken, h'.ticket] at hle
    rw [← h.ticket]
    exact Nat.lt_of_succ_le hle
  ordered := (linear_run moves).sorted
  sent := (sent_run moves).2
  fates := fate_run moves
  returns := by
    intro n m t u tk hm ht
    rw [World.after_succ _ hm]
    exact World.waits_or_answered ht m
  races := by
    intro front mid back s a hserved hcommand hreply honce
    obtain ⟨d, hexecutes, -⟩ := (linear_run moves).executes
    rw [hserved] at hexecutes
    obtain ⟨_, _, hfirst⟩ := hexecutes.of_append
    exact (hfirst.removals hcommand hreply honce).imp And.right And.right
  closed := by
    intro n hn hstopped
    obtain ⟨hstopped', hserved, hevents⟩ := World.stopped_after hn hstopped
    refine ⟨hstopped', hserved, hevents, by simp [Registry.admits, hstopped'], ?_⟩
    intro tk hnever
    exact Registry.answer?_lost (by rwa [hserved]) ((linear_run moves).queue_eq_nil hstopped')

/-- Of two who remove a peer the first to enter gets it, and who asks a
registry that has stopped is told so. -/
example :
    let a : Member := ⟨⟨⟨1⟩, ⟨"a"⟩, 0⟩, 0⟩
    let leave : Move := .request (.unregister a.info.id .disconnected)
    let serve : Move := .serve fun _ => 0
    let r := (World.run {} [.request (.register a), leave, leave, serve, serve, serve,
      .stopRegistry, leave]).registry
    (List.range 4).map r.answer? = [some (.ok (.registered true)), some (.ok (.removed (some a))),
      some (.ok (.removed none)), some (.error .unserved)] := by rfl

end LineRelay
