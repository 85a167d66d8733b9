/-
# What a peer is given

The bytes that the transport of a peer has been given are the wires of
whole lines of other peers, one after the other, and perhaps a part of
one more.  `Account` lists the lines that were begun, in their order, and
says how the bytes stand to them.

| `Standing` | the peer | its bytes |
| :-- | :-- | :-- |
| `idle` | nobody writes to it | all the wires |
| `writing` | a task does | all the wires but the last, and what the task sent of it |
| `shut` | it is closed | one of these two, for good |

A line enters the account when its broadcast takes the outlet.  It cannot
do so twice, nor after a later line of its sender: a worker begins its
next broadcast when it is done with the last, and then the lines in the
account lie behind it (`Past`).
-/
import LineRelay.Proofs.Relay.Staff

namespace LineRelay

/-! ## Lines and their wires -/

/-- A line, and where it was read: the `index`-th line of a connection,
counted from zero. -/
structure Origin where
  sender : PeerKey
  index : Nat
  line : Line
deriving DecidableEq

/-- What is sent of the line. -/
def Origin.wire (o : Origin) : Bytes := o.line.toWire

/-- Two lines of one connection are in the order in which they were read. -/
def Origin.Before (o o' : Origin) : Prop := o.sender = o'.sender → o.index < o'.index

/-- The wires of several lines, one after the other. -/
def wires (os : List Origin) : Bytes := os.flatMap Origin.wire

@[simp] theorem wires_concat (os : List Origin) (o : Origin) :
    wires (os ++ [o]) = wires os ++ o.wire := by
  simp [wires]

/-- The line was read from a connection other than `R`, and when its
broadcast had its targets listed, `R` was a member. -/
structure Relayed (w₀ : World) (moves : List Move) (R : PeerKey) (o : Origin) : Prop where
  other : o.sender ≠ R
  read : ((w₀.run moves).linesFrom o.sender)[o.index]? = some o.line
  listed : ∃ (pre post : List Move) (rank : PeerId → Nat) (t : TaskKey) (wk : Worker)
      (b : Broadcast), moves = pre ++ .serve rank :: post
    ∧ (w₀.run pre).tasks[t]? = some (.worker wk) ∧ wk.peer = o.sender
    ∧ (w₀.run pre).Surveys rank t b ∧ b.serial = o.index ∧ b.line = o.line
    ∧ ∃ a ∈ (w₀.run pre).registry.membership.members, a.handle = R

theorem Relayed.extend {w₀ : World} {moves : List Move} {m : Move} {R : PeerKey} {o : Origin}
    (h : Relayed w₀ moves R o) (hstep : MoveStep (w₀.run moves) m (w₀.run (moves ++ [m])))
    (hm : m.Hosted) : Relayed w₀ (moves ++ [m]) R o where
  other := h.other
  read := by
    cases hstep.linesFrom hm o.sender with
    | stays hlines => rw [hlines, h.read]
    | grows _ _ _ _ _ _ _ hlines =>
        obtain ⟨hlt, -⟩ := List.getElem?_eq_some_iff.1 h.read
        rw [hlines, List.getElem?_append_left hlt, h.read]
  listed := by
    obtain ⟨pre, post, rank, t, wk, b, hmoves, hrest⟩ := h.listed
    exact ⟨pre, post ++ [m], rank, t, wk, b, by rw [hmoves, List.append_assoc]; rfl, hrest⟩

/-! ## Broadcasts that owe a line -/

/-- Whether a broadcast may still give its line to the peer `R`. -/
def Broadcast.Owes (b : Broadcast) (R : PeerKey) : Prop :=
  match b.stage with
  | .asking _ => True
  | .sending k state rest => R ∈ rest ∨ k = R ∧ ∃ wire, state = .fresh wire ∨ state = .queued wire
  | .pruning _ _ rest => R ∈ rest
  | .finished => False

theorem Broadcast.owes_onward {b : Broadcast} {rest : List PeerKey} {R : PeerKey}
    (h : (b.onward rest).Owes R) : R ∈ rest := by
  cases rest with
  | nil => cases h
  | cons k rest =>
      rcases h with h | ⟨rfl, -⟩
      · exact List.mem_cons_of_mem _ h
      · exact List.mem_cons_self

/-- What a broadcast owes after a step it owed before. -/
theorem BroadcastStep.owes {w w' : World} {me : TaskKey} {b b' : Broadcast} {R : PeerKey}
    (h : BroadcastStep w me b w' b') (howes : b'.Owes R) : b.Owes R := by
  cases h with
  | asks hstage _ | learns hstage _ => simp only [Broadcast.Owes, hstage]
  | skips _ _ => cases howes
  | misses hstage _ | settles hstage _ _ _ =>
      simp only [Broadcast.Owes, hstage]
      exact .inl (Broadcast.owes_onward howes)
  | fails hstage _ _ =>
      simp only [Broadcast.Owes, hstage]
      exact .inl howes
  | sends hstage _ hsend _ =>
      simp only [Broadcast.Owes, hstage]
      refine howes.imp id fun ⟨hk, wire, hstate⟩ => ⟨hk, wire, hsend.wire hstate⟩
  | prunes hstage _ =>
      simp only [Broadcast.Owes, hstage]
      exact howes
  | pruned hstage _ =>
      simp only [Broadcast.Owes, hstage]
      exact Broadcast.owes_onward howes

/-- The line lies behind the worker of its connection: the worker has read
it, and if it may still give a line to `R`, that is a later one. -/
def World.Past (w : World) (R : PeerKey) (o : Origin) : Prop :=
  ∀ (t : TaskKey) (wk : Worker), w.tasks[t]? = some (.worker wk) → wk.peer = o.sender →
    o.index < wk.linesRead
      ∧ ∀ {b : Broadcast}, wk.stage = .relaying b → b.Owes R → o.index < b.serial

theorem World.Past.step {w w' : World} {m : Move} {R : PeerKey} {o : Origin} (h : w.Past R o)
    (hknown : ∃ p, w.peer? o.sender = some p) (hstep : MoveStep w m w') (hm : m.Hosted) :
    w'.Past R o := by
  intro t wk' ht hpeer
  cases hstep.worker hm.orderly ht with
  | stays _ ht => exact h t wk' ht hpeer
  | comes _ hnone _ _ =>
      obtain ⟨p, hp⟩ := hknown
      rw [← hpeer, hnone] at hp
      cases hp
  | steps _ ht₀ _ hworker _ =>
      obtain ⟨hread, howes⟩ := h _ _ ht₀ (hworker.peer.symm.trans hpeer)
      cases hworker with
      | registers _ _ | starts _ _ | drops _ _ | quits _ _ | stops _ _ _ _ _
      | unregisters _ _ | leaves _ _ => exact ⟨hread, fun hb => by cases hb⟩
      | pauses hstage _ _ _ => exact ⟨hread, fun hb => by cases hstage.symm.trans hb⟩
      | reads _ _ _ _ =>
          refine ⟨Nat.lt_succ_of_lt hread, ?_⟩
          intro b hb _
          cases hb
          exact hread
      | relays hstage hbroadcast =>
          refine ⟨hread, ?_⟩
          intro b hb hstill
          split_ifs at hb
          cases hb
          rw [hbroadcast.same.1]
          exact howes hstage (hbroadcast.owes hstill)

/-! ## Turns at one peer -/

/-- A move that is no turn of a send to `R` leaves its bytes alone, and who
writes to it. -/
theorem MoveStep.elsewhere {w w' : World} {m : Move} (h : MoveStep w m w') {R : PeerKey} {p : Peer}
    (hp : w.peer? R = some p) (hnot : ∀ t state, m = .turn t → w.send? t ≠ some (R, state)) :
    ∃ q, w'.peer? R = some q ∧ p.Drifts q
      ∧ ∀ t stage, w'.at? t = some (R, .writing stage) ↔ w.at? t = some (R, .writing stage) := by
  obtain ⟨q, hq, -⟩ := h.lasts hp
  refine ⟨q, hq, ?_⟩
  cases h.outlet hp hq with
  | drifts hdrift hat => exact ⟨hdrift, fun t stage => hat t _⟩
  | acts hturn hsending _ _ _ _ _ => exact absurd hsending (hnot _ _ hturn)

/-- The turn of a broadcast that sends to `R`: what the send does, and
then the peer may close. -/
theorem BroadcastStep.sending {w w' : World} {me : TaskKey} {b b' : Broadcast} {R : PeerKey}
    {state : SendState} {rest : List PeerKey} {p : Peer} (h : BroadcastStep w me b w' b')
    (hstage : b.stage = .sending R state rest) (hp : w.peer? R = some p) :
    ∃ q r state', p.SendStep me w.shutdown state q state' ∧ w'.peer? R = some r ∧ q.Drifts r
      ∧ b'.at? = state'.at? R
      ∧ (b'.Owes R → R ∈ rest ∨ ∃ wire, state' = .fresh wire ∨ state' = .queued wire)
      ∧ ∀ f, state' = .ended (.failed f) → r.closed = true := by
  have hset := World.peer?_setPeer_self hp
  cases h with
  | asks hstage' _ | skips hstage' _ | learns hstage' _ | prunes hstage' _ | pruned hstage' _ =>
      cases hstage.symm.trans hstage'
  | misses hstage' hpeer =>
      cases hstage.symm.trans hstage'
      cases hpeer.symm.trans hp
  | @sends _ _ state' _ _ q hstage' hpeer hsend hopen =>
      cases hstage.symm.trans hstage'
      cases hpeer.symm.trans hp
      exact ⟨q, q, state', hsend, hset q, .refl q, rfl, fun howes => howes.imp id And.right,
        fun f hf => absurd hf (hopen _)⟩
  | @settles _ _ _ _ q outcome hstage' hpeer hsend hfine =>
      cases hstage.symm.trans hstage'
      cases hpeer.symm.trans hp
      refine ⟨q, q, .ended outcome, hsend, hset q, .refl q, Broadcast.at?_onward _ _,
        fun howes => .inl (Broadcast.owes_onward howes), fun f hf => ?_⟩
      cases hf
      exact absurd rfl (hfine f)
  | @fails _ _ _ _ q f closedIt hstage' hpeer hsend =>
      cases hstage.symm.trans hstage'
      cases hpeer.symm.trans hp
      exact ⟨q, q.close.1, .ended (.failed f), hsend, World.peer?_closePeer_self (hset q),
        Peer.drifts_close q, rfl, .inl, fun _ _ => Peer.closed_close q⟩

/-! ## The account of a peer -/

/-- The bytes are the wires of the lines, or a part of the last is missing. -/
inductive Given (told : List Origin) (received : Bytes) : Prop
  | whole : received = wires told → Given told received
  | part {init : List Origin} {o : Origin} {sent : Bytes} : told = init ++ [o] →
      received = wires init ++ sent → sent <+: o.wire → Given told received

/-- How the bytes of the peer `R`, which is `p`, stand to the lines told. -/
inductive Standing (w : World) (R : PeerKey) (p : Peer) (told : List Origin) : Prop
  | idle : p.received = wires told → p.outlet.buffer = [] →
      (∀ t stage, w.at? t ≠ some (R, .writing stage)) → Standing w R p told
  | writing {init : List Origin} {o : Origin} {sent : Bytes} {t : TaskKey} {stage : SendStage} :
      told = init ++ [o] → w.at? t = some (R, .writing stage) → p.received = wires init ++ sent →
      o.wire = sent ++ p.toGo (.writing stage) → Standing w R p told
  | shut : p.signalled w.shutdown = true → Given told p.received → Standing w R p told

/-- The account of the peer `R`, which is `p`, after a run. -/
structure Account (w₀ : World) (moves : List Move) (R : PeerKey) (p : Peer)
    (told : List Origin) : Prop where
  relayed : ∀ o ∈ told, Relayed w₀ moves R o
  ordered : told.Pairwise Origin.Before
  past : ∀ o ∈ told, (w₀.run moves).Past R o
  standing : Standing (w₀.run moves) R p told

section Standing

variable {w w' : World} {R : PeerKey} {p q r : Peer} {told : List Origin}

theorem Standing.given (h : Standing w R p told) : Given told p.received := by
  cases h with
  | idle hreceived _ _ => exact .whole hreceived
  | writing htold _ hreceived hwire =>
      exact .part htold hreceived (hwire ▸ List.prefix_append _ _)
  | shut _ hgiven => exact hgiven

/-- A peer whose bytes stay, while the same task writes to it. -/
theorem Standing.stay (h : Standing w R p told) (hlasts : p.Lasts q)
    (hreceived : q.received = p.received) (hbuffer : q.outlet.buffer = p.outlet.buffer)
    (hshutdown : w.shutdown = true → w'.shutdown = true)
    (hat : ∀ t stage, w'.at? t = some (R, .writing stage) ↔ w.at? t = some (R, .writing stage)) :
    Standing w' R q told := by
  cases h with
  | idle hp hempty hnobody =>
      exact .idle (hreceived.trans hp) (hbuffer.trans hempty) fun t stage ht =>
        hnobody t stage ((hat t stage).1 ht)
  | writing htold ht hp hwire =>
      exact .writing htold ((hat _ _).2 ht) (hreceived.trans hp)
        (by rw [Peer.toGo_congr hbuffer, hwire])
  | shut hsignalled hgiven =>
      exact .shut (hlasts.signalled hshutdown hsignalled) (hreceived ▸ hgiven)

/-- A turn of the send of the task `t` to the peer `R`, which was `p`, is
`q` when the send has done with it, and is `r` after the turn. -/
structure SendTurn (w w' : World) (R : PeerKey) (t : TaskKey) (state state' : SendState)
    (p q r : Peer) : Prop where
  queued : Queued w.at? R p
  send : p.SendStep t w.shutdown state q state'
  drift : q.Drifts r
  before : w.at? t = state.at? R
  after : w'.at? t = state'.at? R
  others : ∀ t', t' ≠ t → w'.at? t' = w.at? t'
  shutdown : w.shutdown = true → w'.shutdown = true
  failed : ∀ f, state' = .ended (.failed f) → r.signalled w'.shutdown = true

namespace SendTurn

variable {t t' : TaskKey} {state state' : SendState} {stage : SendStage}

theorem lasts (h : SendTurn w w' R t state state' p q r) : p.Lasts r :=
  h.send.lasts.trans h.drift.toLasts

theorem first (h : SendTurn w w' R t state state' p q r) (hstate : state = .writing stage) :
    p.senders.head? = some t ∧ p.outlet.InOrder stage := by
  subst hstate
  exact h.queued.first h.before

theorem carried (h : SendTurn w w' R t state state' p q r) :
    Peer.Carried p q w.shutdown state state' :=
  h.send.carried fun _ hstate => (h.first hstate).2

/-- A turn that touches no byte, by a task that does not write. -/
theorem stay (h : SendTurn w w' R t state state' p q r) (hstanding : Standing w R p told)
    (houtlet : q.outlet = p.outlet) (hnot : ∀ stage, state ≠ .writing stage)
    (hnot' : ∀ stage, state' ≠ .writing stage) : Standing w' R r told := by
  refine hstanding.stay h.lasts ?_ ?_ h.shutdown ?_
  · rw [h.drift.received, Peer.received, houtlet, Peer.received]
  · rw [h.drift.buffer, houtlet]
  · intro t' stage
    rcases eq_or_ne t' t with rfl | hne
    · rw [h.before, h.after]
      simp [hnot, hnot']
    · rw [h.others t' hne]

/-- A turn that carries bytes finds nobody else at the outlet. -/
theorem alone (h : SendTurn w w' R t state state' p q r) (hopen : state' ≠ .ended .closed)
    (hruns : ∀ wire, state' ≠ .queued wire) (ht' : w.at? t' = some (R, .writing stage)) : t' = t :=
  h.queued.alone h.send h.before hopen hruns ht'

/-- A turn that carries bytes and is the last leaves nobody at the outlet. -/
theorem nobody (h : SendTurn w w' R t state state' p q r) (hopen : state' ≠ .ended .closed)
    (hruns : ∀ wire, state' ≠ .queued wire) (hnot : ∀ stage, state' ≠ .writing stage) :
    w'.at? t' ≠ some (R, .writing stage) := by
  intro ht'
  rcases eq_or_ne t' t with rfl | hne
  · rw [h.after, SendState.at?_eq_some] at ht'
    exact hnot stage ht'.2.2
  · exact hne (h.alone hopen hruns ((h.others t' hne).symm.trans ht'))

/-- What the send had to go completes the last wire of the account. -/
theorem carry (h : SendTurn w w' R t state state' p q r) {init : List Origin} {o : Origin}
    {sent : Bytes} (hp : p.received = wires init ++ sent) (htogo : o.wire = sent ++ p.toGo state)
    (hopen : state' ≠ .ended .closed) (hruns : ∀ wire, state' ≠ .queued wire) :
    Standing w' R r (init ++ [o]) := by
  have hcarried := h.carried
  cases hcarried with
  | closed _ _ => exact absurd rfl hopen
  | waits _ _ => exact absurd rfl (hruns _)
  | sent _ hreceived hbuffer _ _ =>
      refine .idle ?_ (h.drift.buffer.trans hbuffer) ?_
      · rw [h.drift.received, hreceived, hp, wires_concat, htogo, List.append_assoc]
      · intro t' stage
        exact h.nobody hopen hruns fun _ => SendState.noConfusion
  | @stalled stage part _ hreceived hpart _ =>
      refine .writing rfl h.after ?_ (?_ : o.wire = (sent ++ part) ++ _)
      · rw [h.drift.received, hreceived, hp, List.append_assoc]
      · rw [htogo, hpart, Peer.toGo_congr h.drift.buffer, List.append_assoc]
  | @failed f part _ hreceived hpart =>
      refine .shut (h.failed f rfl) (.part rfl ?_ (?_ : sent ++ part <+: o.wire))
      · rw [h.drift.received, hreceived, hp, List.append_assoc]
      · rw [htogo]
        exact (List.prefix_append_right_inj sent).2 hpart

/-- A turn that carries bytes goes on with what the task was writing, or the
task has the outlet now and its line enters the account. -/
theorem active (h : SendTurn w w' R t state state' p q r) {o : Origin}
    (hstanding : Standing w R p told)
    (hwire : ∀ wire, state = .fresh wire ∨ state = .queued wire → wire = o.wire)
    (hquiet : p.signalled w.shutdown = false) (hopen : state' ≠ .ended .closed)
    (hruns : ∀ wire, state' ≠ .fresh wire ∧ state' ≠ .queued wire) :
    Standing w' R r told
    ∨ (∃ wire, state = .fresh wire ∨ state = .queued wire)
      ∧ (∀ wire, state' ≠ .fresh wire ∧ state' ≠ .queued wire)
      ∧ Standing w' R r (told ++ [o]) := by
  have hnot : ∀ wire, state' ≠ .queued wire := fun wire => (hruns wire).2
  cases hstanding with
  | shut hsignalled _ => cases hsignalled.symm.trans hquiet
  | writing htold ht hp htogo =>
      obtain rfl := h.alone hopen hnot ht
      obtain rfl := (SendState.at?_eq_some.1 (h.before.symm.trans ht)).2.2
      exact .inl (htold ▸ h.carry hp htogo hopen hnot)
  | idle hp hempty hidle =>
      have hfresh : ∃ wire, state = .fresh wire ∨ state = .queued wire := by
        cases state with
        | fresh wire => exact ⟨wire, .inl rfl⟩
        | queued wire => exact ⟨wire, .inr rfl⟩
        | writing stage => exact absurd h.before (hidle t stage)
        | ended outcome => exact absurd rfl (h.send.not_ended outcome)
      refine .inr ⟨hfresh, hruns, h.carry (hp.trans (List.append_nil _).symm) ?_ hopen hnot⟩
      obtain ⟨wire, hstate⟩ := hfresh
      rw [← hwire wire hstate]
      rcases hstate with rfl | rfl <;> simp [Peer.toGo, hempty]

/-- A turn of a send to the peer.  It leaves the account as it is, or the
task has the outlet now and its line enters the account. -/
theorem standing (h : SendTurn w w' R t state state' p q r) {o : Origin}
    (hstanding : Standing w R p told) (hfired : p.fired = p.closed)
    (hwire : ∀ wire, state = .fresh wire ∨ state = .queued wire → wire = o.wire) :
    Standing w' R r told
    ∨ (∃ wire, state = .fresh wire ∨ state = .queued wire)
      ∧ (∀ wire, state' ≠ .fresh wire ∧ state' ≠ .queued wire)
      ∧ Standing w' R r (told ++ [o]) := by
  have hcarried := h.carried
  cases hcarried with
  | closed hclosed houtlet =>
      by_cases hwriting : ∃ stage, state = .writing stage
      · refine .inl (.shut (h.lasts.signalled h.shutdown ?_) ?_)
        · simpa [Peer.isClosed, Peer.signalled, hfired] using hclosed
        · rw [h.drift.received, Peer.received, houtlet]
          exact hstanding.given
      · exact .inl (h.stay hstanding houtlet (fun stage hstate => hwriting ⟨stage, hstate⟩)
          fun _ => SendState.noConfusion)
  | waits hstate houtlet =>
      exact .inl (h.stay hstanding houtlet (fun _ => hstate ▸ SendState.noConfusion)
        fun _ => SendState.noConfusion)
  | sent hquiet _ _ _ =>
      exact h.active hstanding hwire hquiet (fun e => by cases e) fun _ =>
        ⟨SendState.noConfusion, SendState.noConfusion⟩
  | stalled hquiet _ _ _ =>
      exact h.active hstanding hwire hquiet SendState.noConfusion fun _ =>
        ⟨SendState.noConfusion, SendState.noConfusion⟩
  | failed hquiet _ _ =>
      exact h.active hstanding hwire hquiet (fun e => by cases e) fun _ =>
        ⟨SendState.noConfusion, SendState.noConfusion⟩

end SendTurn

end Standing

/-! ## Lines that enter the account -/

theorem World.worker_run {w : World} {pre post : List Move} (h : w.Permitted (pre ++ post))
    {t : TaskKey} {wk : Worker} (ht : (w.run pre).tasks[t]? = some (.worker wk)) :
    ∃ wk', (w.run (pre ++ post)).tasks[t]? = some (.worker wk') ∧ wk'.peer = wk.peer := by
  refine World.run_extends
    (R := fun w w' => ∀ {wk : Worker}, w.tasks[t]? = some (.worker wk) →
      ∃ wk', w'.tasks[t]? = some (.worker wk') ∧ wk'.peer = wk.peer)
    (fun _ {wk} ht => ⟨wk, ht, rfl⟩) (fun {w₁ w₂ w₃} h h' {wk} ht => ?_)
    (fun hstep => hstep.worker_stays) h ht
  obtain ⟨wk₁, ht₁, hpeer₁⟩ := h ht
  obtain ⟨wk₂, ht₂, hpeer₂⟩ := h' ht₁
  exact ⟨wk₂, ht₂, hpeer₂.trans hpeer₁⟩

/-- The line of a broadcast that is at a target is relayed to the target. -/
theorem relayed_of_sending {w₀ : World} {moves : List Move} (h₀ : w₀.IsNew)
    (hmoves : w₀.Permitted moves) (hstaff : ∀ pre post, moves = pre ++ post → (w₀.run pre).Staffed)
    {t : TaskKey} {wk : Worker} {b : Broadcast} {R : PeerKey} {state : SendState}
    {rest : List PeerKey} {p : Peer} (ht : (w₀.run moves).tasks[t]? = some (.worker wk))
    (hb : wk.stage = .relaying b) (hstage : b.stage = .sending R state rest)
    (hp : (w₀.run moves).peer? R = some p) :
    Relayed w₀ moves R ⟨wk.peer, b.serial, b.line⟩ ∧ R ∉ rest := by
  have hbroadcast : (w₀.run moves).broadcast? t = some b := by
    rw [World.broadcast?, ht]
    simp [Task.broadcast?, hb]
  have hadvances := advances_run h₀ hmoves hbroadcast
  obtain ⟨⟨pre, rank, post, hsplit, hsurveys⟩, -⟩ :=
    (hadvances.surveyed (by simp [hstage])).resolve_right (by simp [hstage])
  have hmoves' : w₀.Permitted (pre ++ .serve rank :: post) := hsplit ▸ hmoves
  have hrequests := World.requests_run h₀.requests hmoves'.of_append
  have hsplitTargets := hadvances.split
  rw [Broadcast.ahead_sending hstage] at hsplitTargets
  obtain ⟨a, ha, hother, hhandle⟩ := hsurveys.mem_targets.1
    (show R ∈ b.targets by rw [hsplitTargets]; simp)
  -- the task was the worker of the same connection when its targets were listed
  obtain ⟨tk, hasking, -⟩ := hsurveys.asking
  obtain ⟨wk₀, ht₀, -⟩ := (hstaff pre _ hsplit).exists_worker hasking
  obtain ⟨wk', ht', hpeer⟩ := World.worker_run hmoves' ht₀
  rw [← hsplit, ht] at ht'
  cases ht'
  obtain ⟨-, hline, sender, hsender, hid⟩ :=
    (hstaff moves [] (List.append_nil _).symm).relaying ht hb
  refine ⟨⟨?_, hline, pre, post, rank, t, wk₀, b, hsplit, ht₀, hpeer.symm, hsurveys, rfl, rfl, a,
    ha, hhandle⟩, ?_⟩
  · -- the sender of the broadcast is no target of it
    intro hself
    obtain ⟨p₀, hp₀, hinfo⟩ := Option.map_eq_some_iff.1 (hrequests.names_member ha)
    obtain ⟨p', hp', hlasts⟩ := World.lasts_run hmoves' hp₀
    rw [← hsplit, hhandle, hp] at hp'
    cases hp'
    have hself : wk.peer = R := hself
    rw [hself, hp] at hsender
    cases hsender
    exact hother (by rw [hid, hlasts.info, hinfo])
  · have hnodup := hsurveys.nodup_targets hrequests
    rw [hsplitTargets] at hnodup
    exact (List.nodup_cons.1 (List.nodup_append.1 hnodup).2.1).1

section Account

variable {w₀ : World} {moves : List Move} {m : Move} {R : PeerKey} {p q : Peer}
  {told : List Origin}

theorem Account.past_step (h : Account w₀ moves R p told) (hstaff : (w₀.run moves).Staffed)
    (hstep : MoveStep (w₀.run moves) m (w₀.run (moves ++ [m]))) (hm : m.Hosted) :
    ∀ o ∈ told, (w₀.run (moves ++ [m])).Past R o := by
  intro o ho
  have hread := (h.relayed o ho).read
  refine (h.past o ho).step ?_ hstep hm
  cases hknown : (w₀.run moves).peer? o.sender with
  | some p => exact ⟨p, rfl⟩
  | none =>
      rw [hstaff.unread hknown] at hread
      cases hread

/-- The lines of the account stay in it, whatever a move does to the bytes. -/
theorem Account.keep (h : Account w₀ moves R p told) (hstaff : (w₀.run moves).Staffed)
    (hstep : MoveStep (w₀.run moves) m (w₀.run (moves ++ [m]))) (hm : m.Hosted)
    (hstanding : Standing (w₀.run (moves ++ [m])) R q told) :
    Account w₀ (moves ++ [m]) R q told where
  relayed := fun o ho => (h.relayed o ho).extend hstep hm
  ordered := h.ordered
  past := h.past_step hstaff hstep hm
  standing := hstanding

/-- A line that enters the account is later than those of its sender, and
lies behind the worker from now on. -/
theorem Account.enter {t : TaskKey} {wk wk' : Worker} {b : Broadcast} {o : Origin}
    (h : Account w₀ moves R p told) (hstaff : (w₀.run moves).Staffed)
    (hstaff' : (w₀.run (moves ++ [m])).Staffed)
    (hstep : MoveStep (w₀.run moves) m (w₀.run (moves ++ [m]))) (hm : m.Hosted)
    (ht : (w₀.run moves).tasks[t]? = some (.worker wk)) (hb : wk.stage = .relaying b)
    (howes : b.Owes R) (ho : o = ⟨wk.peer, b.serial, b.line⟩) (hrelayed : Relayed w₀ moves R o)
    (ht' : (w₀.run (moves ++ [m])).tasks[t]? = some (.worker wk')) (hpeer : wk'.peer = wk.peer)
    (hread : wk'.linesRead = wk.linesRead)
    (hb' : ∀ {b''}, wk'.stage = .relaying b'' → ¬ b''.Owes R)
    (hstanding : Standing (w₀.run (moves ++ [m])) R q (told ++ [o])) :
    Account w₀ (moves ++ [m]) R q (told ++ [o]) := by
  subst ho
  refine ⟨?_, ?_, ?_, hstanding⟩
  · intro o' ho'
    rcases List.mem_append.1 ho' with ho' | ho'
    · exact (h.relayed o' ho').extend hstep hm
    · exact List.mem_singleton.1 ho' ▸ hrelayed.extend hstep hm
  · refine List.pairwise_append.2 ⟨h.ordered, List.pairwise_singleton _ _, ?_⟩
    intro o' ho' o ho
    obtain rfl := List.mem_singleton.1 ho
    exact fun hsame => (h.past o' ho' _ _ ht hsame.symm).2 hb howes
  · intro o' ho'
    rcases List.mem_append.1 ho' with ho' | ho'
    · exact h.past_step hstaff hstep hm o' ho'
    · obtain rfl := List.mem_singleton.1 ho'
      intro t₁ wk₁ ht₁ hpeer₁
      obtain rfl := hstaff'.sole ht₁ ht' (hpeer₁.trans hpeer.symm)
      cases ht₁.symm.trans ht'
      refine ⟨?_, fun hb₁ howes₁ => absurd howes₁ (hb' hb₁)⟩
      rw [hread, ← (hstaff.relaying ht hb).1]
      exact Nat.lt_succ_self b.serial

/-- A peer that has come has been given nothing, and nobody wants its
outlet. -/
theorem Account.begin (hstaff : (w₀.run moves).Staffed) (hlocks : (w₀.run (moves ++ [m])).Locks)
    (hstep : MoveStep (w₀.run moves) m (w₀.run (moves ++ [m]))) (hm : m.Hosted)
    (hnone : (w₀.run moves).peer? R = none) (hq : (w₀.run (moves ++ [m])).peer? R = some q) :
    Account w₀ (moves ++ [m]) R q [] := by
  cases hstep.peer hm hq with
  | stays hp _ _ => cases hp.symm.trans hnone
  | closes _ hp _ _ _ _ => cases hp.symm.trans hnone
  | @comes t s addr transport inlet arrivals _ hs harrivals _ hnew =>
      have hfresh : (Arrival.connection addr transport inlet).IsFresh :=
        (hstaff.server hs).2.2 _ (harrivals ▸ List.mem_cons_self)
      refine ⟨fun o ho => absurd ho List.not_mem_nil, .nil,
        fun o ho => absurd ho List.not_mem_nil, .idle ?_ (by rw [hnew]; rfl) ?_⟩
      · rw [hnew]
        exact hfresh
      · intro t stage ht
        have hhead := ((hlocks.queued hq).first ht).1
        rw [hnew] at hhead
        cases hhead

/-- The turn of the task `t`, whose broadcast sends to the peer. -/
theorem Account.turn {t : TaskKey} {wk wk' : Worker} {b b' : Broadcast} {state : SendState}
    {rest : List PeerKey} {w₁ : World} (h₀ : w₀.IsNew) (h : Account w₀ moves R p told)
    (hmoves : w₀.Permitted moves) (hstaff : ∀ pre post, moves = pre ++ post → (w₀.run pre).Staffed)
    (hstaff' : (w₀.run (moves ++ [.turn t])).Staffed)
    (hstep : MoveStep (w₀.run moves) (.turn t) (w₀.run (moves ++ [.turn t])))
    (hp : (w₀.run moves).peer? R = some p) (hq : (w₀.run (moves ++ [.turn t])).peer? R = some q)
    (ht : (w₀.run moves).tasks[t]? = some (.worker wk)) (hb : wk.stage = .relaying b)
    (hstage : b.stage = .sending R state rest)
    (hbroadcast : BroadcastStep (w₀.run moves) t b w₁ b')
    (hwk' : wk' = { wk with stage := if b'.isOver then .reading else .relaying b' })
    (hw₁ : w₀.run (moves ++ [.turn t]) = w₁.setTask t (.worker wk'))
    (ht' : (w₀.run (moves ++ [.turn t])).tasks[t]? = some (.worker wk')) :
    ∃ told, Account w₀ (moves ++ [.turn t]) R q told := by
  have hstaff₀ := hstaff moves [] (List.append_nil _).symm
  have hb₀ : (w₀.run moves).broadcast? t = some b := by
    rw [World.broadcast?, ht]
    simp [Task.broadcast?, hb]
  obtain ⟨hrelayed, hrest⟩ := relayed_of_sending h₀ hmoves hstaff ht hb hstage hp
  obtain ⟨q₀, r, state', hsend, hr, hdrift, hat, howes, hfailed⟩ := hbroadcast.sending hstage hp
  obtain rfl : r = q := by
    rw [hw₁, World.peer?_setTask, hr] at hq
    exact Option.some.inj hq
  have hsendTurn :
      SendTurn (w₀.run moves) (w₀.run (moves ++ [.turn t])) R t state state' p q₀ r := by
    refine ⟨(World.locks_run h₀.locks hmoves).queued hp, hsend, hdrift,
      (World.at?_of_broadcast? hb₀).trans (Broadcast.at?_sending hstage), ?_,
      fun t' hne => hstep.at? fun e => hne (Move.turn.inj e).symm, hstep.shutdown, ?_⟩
    · rw [World.at?, ht', hwk']
      exact (Task.at?_relayed wk b').trans hat
    · intro f hf
      rw [Peer.signalled, (hstaff'.peers hq).2.2, hfailed f hf, Bool.true_or]
  rcases hsendTurn.standing (o := ⟨wk.peer, b.serial, b.line⟩) h.standing (hstaff₀.peers hp).2.2
    (fun wire hwire => (advances_run h₀ hmoves hb₀).wire hstage hwire) with
    hstanding | ⟨⟨wire, hwire⟩, hstate', hstanding⟩
  · exact ⟨told, h.keep hstaff₀ hstep trivial hstanding⟩
  · refine ⟨_, h.enter hstaff₀ hstaff' hstep trivial ht hb ?_ rfl hrelayed ht' (by rw [hwk'])
      (by rw [hwk']) ?_ hstanding⟩
    · rw [Broadcast.Owes, hstage]
      exact .inr ⟨rfl, wire, hwire⟩
    · intro b'' hb'' howes''
      -- the send has begun, and the targets after `R` are others
      rw [hwk'] at hb''
      simp only at hb''
      split_ifs at hb''
      cases hb''
      rcases howes howes'' with hmem | ⟨wire', hwire' | hwire'⟩
      · exact hrest hmem
      · exact (hstate' wire').1 hwire'
      · exact (hstate' wire').2 hwire'

end Account

/-- In every world of a run of one server, every peer has an account. -/
theorem ledger_run {listen : String} {maxLine : Option UInt64} {interval : Nat} {moves : List Move}
    (hmoves : ∀ m ∈ moves, m.Hosted) {R : PeerKey} {p : Peer}
    (hp : ((World.hosting listen maxLine interval).run moves).peer? R = some p) :
    ∃ told, Account (World.hosting listen maxLine interval) moves R p told := by
  have h₀ := World.isNew_hosting listen maxLine interval
  revert R p
  refine World.hosted_induction (w := World.hosting listen maxLine interval)
    (P := fun moves => ∀ {R p},
      ((World.hosting listen maxLine interval).run moves).peer? R = some p →
      ∃ told, Account (World.hosting listen maxLine interval) moves R p told)
    (fun hp => by cases hp) (fun {moves m} hmoves hm h hstep R q hq => ?_) hmoves
  have hpermitted := permitted_of_hosted hmoves (World.hosting listen maxLine interval)
  have hstaff : ∀ pre post, moves = pre ++ post →
      ((World.hosting listen maxLine interval).run pre).Staffed := fun pre post hsplit =>
    World.staffed_run fun m hm => hmoves m (hsplit ▸ List.mem_append_left post hm)
  have hstaff₀ := hstaff moves [] (List.append_nil _).symm
  have hmoves' := hosted_concat hmoves hm
  have hstaff' : ((World.hosting listen maxLine interval).run (moves ++ [m])).Staffed :=
    World.staffed_run hmoves'
  have hlocks' := World.locks_run h₀.locks
    (permitted_of_hosted hmoves' (World.hosting listen maxLine interval))
  cases hp : ((World.hosting listen maxLine interval).run moves).peer? R with
  | none =>
      exact ⟨[], .begin hstaff₀ hlocks' hstep hm hp hq⟩
  | some p =>
      obtain ⟨told, haccount⟩ := h hp
      by_cases hsend : ∃ t state, m = .turn t
          ∧ ((World.hosting listen maxLine interval).run moves).send? t = some (R, state)
      · obtain ⟨t, state, rfl, hsend⟩ := hsend
        obtain ⟨b, rest, hb₀, hstage⟩ := hstaff₀.exists_broadcast hsend
        obtain ⟨wk, ht, hb⟩ := hstaff₀.exists_worker hb₀
        cases hstep.becomes ht with
        | stays hidle _ =>
            have hstanding := haccount.standing
            rw [← hidle rfl] at hp hstanding
            cases hp.symm.trans hq
            exact ⟨told, haccount.keep hstaff₀ hstep hm hstanding⟩
        | turns _ htaskStep hw₁ htask' =>
            cases htaskStep with
            | worker _ hworker =>
                cases hworker with
                | relays hb' hbroadcast =>
                    cases hb.symm.trans hb'
                    exact haccount.turn h₀ hpermitted hstaff hstaff' hstep hp hq ht hb hstage
                      hbroadcast rfl hw₁ htask'
                | registers hb' _ | starts hb' _ | drops hb' _ | quits hb' _ | reads hb' _ _ _
                | stops hb' _ _ _ _ | pauses hb' _ _ _ | unregisters hb' _ | leaves hb' _ =>
                    cases hb.symm.trans hb'
      · obtain ⟨q', hq', hdrift, hat⟩ := hstep.elsewhere hp fun t state hturn hstate =>
          hsend ⟨t, state, hturn, hstate⟩
        cases hq'.symm.trans hq
        exact ⟨told, haccount.keep hstaff₀ hstep hm
          (haccount.standing.stay hdrift.toLasts hdrift.received hdrift.buffer hstep.shutdown hat)⟩

theorem Origin.nodup_of_before {told : List Origin} (h : told.Pairwise Origin.Before) :
    (told.map fun o => (o.sender, o.index)).Nodup := by
  refine List.pairwise_map.2 (h.imp ?_)
  intro o o' hbefore hsame
  obtain ⟨hsender, hindex⟩ := Prod.mk.inj hsame
  exact absurd hindex (hbefore hsender).ne

/-- After any run of one server, what the transport of a peer has been
given is the wires of whole lines, each read from another connection and
listed for this peer, and then a part of the wire of one more, which may
be nothing.  The lines of one connection come in the order in which they
were read there, and none comes twice. -/
theorem relay_integrity {listen : String} {maxLine : Option UInt64} {interval : Nat}
    {moves : List Move} (hmoves : ∀ m ∈ moves, m.Hosted) {R : PeerKey} {p : Peer}
    (hp : ((World.hosting listen maxLine interval).run moves).peer? R = some p) :
    ∃ (told : List Origin) (part : Bytes), p.received = wires told ++ part
      ∧ (∀ o ∈ told, Relayed (World.hosting listen maxLine interval) moves R o)
      ∧ (told.map fun o => (o.sender, o.index)).Nodup
      ∧ told.Pairwise Origin.Before
      ∧ (part = [] ∨ ∃ o, Relayed (World.hosting listen maxLine interval) moves R o
          ∧ part <+: o.wire ∧ part ≠ o.wire ∧ ∀ o' ∈ told, o'.Before o) := by
  obtain ⟨told, haccount⟩ := ledger_run hmoves hp
  cases haccount.standing.given with
  | whole hreceived =>
      exact ⟨told, [], by rw [hreceived, List.append_nil], haccount.relayed,
        Origin.nodup_of_before haccount.ordered, haccount.ordered, .inl rfl⟩
  | @part init o sent htold hreceived hsent =>
      subst htold
      by_cases hall : sent = o.wire
      · refine ⟨init ++ [o], [], ?_, haccount.relayed, Origin.nodup_of_before haccount.ordered,
          haccount.ordered, .inl rfl⟩
        rw [hreceived, hall, List.append_nil, wires_concat]
      · obtain ⟨hinit, -, hlast⟩ := List.pairwise_append.1 haccount.ordered
        exact ⟨init, sent, hreceived, fun o ho => haccount.relayed o (List.mem_append_left _ ho),
          Origin.nodup_of_before hinit, hinit,
          .inr ⟨o, haccount.relayed o (by simp), hsent, hall,
            fun o' ho' => hlast o' ho' o (by simp)⟩⟩

/-- Two connections; the first says two lines, and the transport of the
second takes the first line and one byte of the other. -/
def halfway : List Move :=
  let joins (transport : Transport) : Move := .arrive 0 (.connection ⟨"peer"⟩ transport .silent)
  [.turn 0, joins {}, joins { writes := [.takesAll, .takes 1, .stalls] }, .turn 0, .turn 0,
    .turn 2, .turn 3, .serve World.byId, .serve World.byId, .turn 2, .turn 3,
    .supply 0 (.data [104, 105, 10, 104, 111, 10]), .turn 2, .turn 2, .serve World.byId, .turn 2,
    .turn 2, .turn 2, .turn 2, .serve World.byId, .turn 2, .turn 2]

set_option maxRecDepth 4000 in
/-- The second peer of `halfway` has been given a line and a part of one. -/
theorem relay_integrity_halfway :
    (∀ m ∈ halfway, m.Hosted) ∧ ∃ p,
      ((World.hosting "relay" none 1000).run halfway).peer? 1 = some p
        ∧ p.received = [104, 105, 10, 104]
        ∧ ∃ (told : List Origin) (part : Bytes), p.received = wires told ++ part
          ∧ (∀ o ∈ told, Relayed (World.hosting "relay" none 1000) halfway 1 o)
          ∧ (told.map fun o => (o.sender, o.index)).Nodup
          ∧ told.Pairwise Origin.Before
          ∧ (part = [] ∨ ∃ o, Relayed (World.hosting "relay" none 1000) halfway 1 o
              ∧ part <+: o.wire ∧ part ≠ o.wire ∧ ∀ o' ∈ told, o'.Before o) := by
  have hmoves : ∀ m ∈ halfway, m.Hosted := by decide
  obtain ⟨p, hp, hreceived⟩ : ∃ p, ((World.hosting "relay" none 1000).run halfway).peer? 1 = some p
      ∧ p.received = [104, 105, 10, 104] := by
    refine ⟨(((World.hosting "relay" none 1000).run halfway).peer? 1).get (by decide +kernel),
      Option.some_get _ |>.symm, ?_⟩
    decide +kernel
  exact ⟨hmoves, p, hp, hreceived, relay_integrity hmoves hp⟩

end LineRelay
