/-
# Whose bytes an outlet has taken

Every call that gets to write to a peer has a share in the bytes that the
outlet of the peer takes: a stretch from the front of its wire.  The shares
stand one behind the other in the order in which the calls got the outlet,
and nothing else is taken.  A share is one of these:

| the call | its share | after it |
| :-- | :-- | :-- |
| was sent | its wire | may come another |
| failed | its wire, nothing, or a part that a buffer full is missing behind | may come another |
| was told that the peer is closed | any part | comes none |
| is writing | any part | comes none yet |

The second line is the only one in which bytes of another call follow a
part of a wire.  A failure does not close the peer, so the next call goes
on behind the part that had gone out directly.
-/
import LineRelay.Proofs.Peer.Intake
import LineRelay.Proofs.Relay.Surveys

namespace LineRelay

/-- What an outlet took of the wire of one call: the task that makes the
call, how many moves the run had made when the call got the outlet, the wire,
and what was taken of it. -/
structure Share where
  task : TaskKey
  start : Nat
  wire : Bytes
  taken : Bytes

namespace Share

variable (w₀ : World) (moves : List Move) (k : PeerKey)

/-- The call is a send to the peer `k` that had waited until then. -/
structure Began (s : Share) : Prop where
  turn : moves[s.start]? = some (.turn s.task)
  waited : (w₀.after moves s.start).send? s.task = some (k, .fresh s.wire)
    ∨ (w₀.after moves s.start).send? s.task = some (k, .queued s.wire)

/-- From then on until `n` moves were made, the call was writing. -/
def Writes (s : Share) (n : Nat) : Prop :=
  ∀ j, s.start < j → j ≤ n →
    ∃ stage, (w₀.after moves j).at? s.task = some (k, .writing stage)

/-- The call has ended like this. -/
def Ends (s : Share) (outcome : SendOutcome) : Prop :=
  ∃ n state p q, s.start ≤ n ∧ moves[n]? = some (.turn s.task) ∧ s.Writes w₀ moves k n
    ∧ (w₀.after moves n).send? s.task = some (k, state) ∧ (w₀.after moves n).peer? k = some p
    ∧ p.sendTurn s.task (w₀.after moves n).shutdown state = some (q, .ended outcome)

/-- The call is over, and not because the peer was closed. -/
def Over (s : Share) : Prop :=
  ∃ outcome, outcome ≠ .closed ∧ s.Ends w₀ moves k outcome
    ∧ SendState.Leaves s.wire s.taken (.ended outcome)

variable {w₀ moves k} {s : Share} {n : Nat} {outcome : SendOutcome}

/-! ## More moves -/

theorem Began.lt (h : s.Began w₀ moves k) : s.start < moves.length :=
  (List.getElem?_eq_some_iff.1 h.turn).1

theorem Began.extend (h : s.Began w₀ moves k) (m : Move) : s.Began w₀ (moves ++ [m]) k where
  turn := by rw [List.getElem?_append_left h.lt, h.turn]
  waited := by
    rw [World.after_append w₀ [m] h.lt.le]
    exact h.waited

theorem Writes.extend (h : s.Writes w₀ moves k n) (hn : n ≤ moves.length) (m : Move) :
    s.Writes w₀ (moves ++ [m]) k n := by
  intro j hstart hj
  rw [World.after_append w₀ [m] (hj.trans hn)]
  exact h j hstart hj

/-- A call that is still writing after one more move has been writing. -/
theorem Writes.concat (h : s.Writes w₀ moves k moves.length) {m : Move} {stage : SendStage}
    (hat : (w₀.run (moves ++ [m])).at? s.task = some (k, .writing stage)) :
    s.Writes w₀ (moves ++ [m]) k (moves ++ [m]).length := by
  intro j hstart hj
  rw [List.length_append, List.length_singleton] at hj
  rcases Nat.lt_or_eq_of_le hj with hlt | rfl
  · exact h.extend (Nat.le_refl _) m j hstart (Nat.le_of_lt_succ hlt)
  · refine ⟨stage, ?_⟩
    rwa [World.after_concat_succ]

theorem Ends.extend (h : s.Ends w₀ moves k outcome) (m : Move) :
    s.Ends w₀ (moves ++ [m]) k outcome := by
  obtain ⟨n, state, p, q, hstart, hturn, hwrites, hsend, hp, hend⟩ := h
  have hn : n < moves.length := (List.getElem?_eq_some_iff.1 hturn).1
  refine ⟨n, state, p, q, hstart, ?_, hwrites.extend hn.le m, ?_⟩
  · rw [List.getElem?_append_left hn, hturn]
  · rw [World.after_append w₀ [m] hn.le]
    exact ⟨hsend, hp, hend⟩

theorem Over.extend (h : s.Over w₀ moves k) (m : Move) : s.Over w₀ (moves ++ [m]) k := by
  obtain ⟨outcome, hopen, hends, hleaves⟩ := h
  exact ⟨outcome, hopen, hends.extend m, hleaves⟩

end Share

/-! ## The shares in their order -/

/-- The calls with these shares got the outlet one after the other. -/
structure InTurn (w₀ : World) (moves : List Move) (k : PeerKey) (shares : List Share) : Prop where
  ordered : shares.Pairwise fun s s' => s.start < s'.start
  began : ∀ s ∈ shares, s.Began w₀ moves k

namespace InTurn

variable {w₀ : World} {moves : List Move} {k : PeerKey} {shares init : List Share} {s : Share}

theorem extend (h : InTurn w₀ moves k shares) (m : Move) : InTurn w₀ (moves ++ [m]) k shares :=
  ⟨h.ordered, fun s hs => (h.began s hs).extend m⟩

/-- One that gets the outlet now comes last. -/
theorem join (h : InTurn w₀ moves k shares) {m : Move} (hstart : s.start = moves.length)
    (hbegan : s.Began w₀ (moves ++ [m]) k) : InTurn w₀ (moves ++ [m]) k (shares ++ [s]) where
  ordered := by
    refine List.pairwise_append.2 ⟨h.ordered, List.pairwise_singleton _ _, ?_⟩
    intro s₁ hs₁ s₂ hs₂
    rw [List.mem_singleton.1 hs₂, hstart]
    exact (h.began s₁ hs₁).lt
  began := by
    intro s₁ hs₁
    rcases List.mem_append.1 hs₁ with hs₁ | hs₁
    · exact (h.began s₁ hs₁).extend m
    · exact List.mem_singleton.1 hs₁ ▸ hbegan

/-- Taking more of its wire, a call stays where it is. -/
theorem replace (h : InTurn w₀ moves k (init ++ [s])) (part : Bytes) :
    InTurn w₀ moves k (init ++ [{ s with taken := part }]) where
  ordered := by
    obtain ⟨hinit, -, hlast⟩ := List.pairwise_append.1 h.ordered
    refine List.pairwise_append.2 ⟨hinit, List.pairwise_singleton _ _, ?_⟩
    intro s₁ hs₁ s₂ hs₂
    rw [List.mem_singleton.1 hs₂]
    exact hlast s₁ hs₁ s (List.mem_singleton_self s)
  began := by
    intro s₁ hs₁
    rcases List.mem_append.1 hs₁ with hs₁ | hs₁
    · exact h.began s₁ (List.mem_append_left _ hs₁)
    · rw [List.mem_singleton.1 hs₁]
      obtain ⟨hturn, hwaited⟩ := h.began s (List.mem_append_right _ (List.mem_singleton_self s))
      exact ⟨hturn, hwaited⟩

end InTurn

/-- How the last of the calls with these shares stands, when the peer `k` is
`p`: it is over and nobody writes, or it is writing, or it was told that the
peer is closed.  The calls before it are over. -/
inductive LastCall (w₀ : World) (moves : List Move) (k : PeerKey) (p : Peer) : List Share → Prop
  | free {shares : List Share} : (∀ s ∈ shares, s.Over w₀ moves k) →
      (∀ t stage, (w₀.run moves).at? t ≠ some (k, .writing stage)) → LastCall w₀ moves k p shares
  | busy {init : List Share} {s : Share} {stage : SendStage} : (∀ s ∈ init, s.Over w₀ moves k) →
      (w₀.run moves).at? s.task = some (k, .writing stage) → stage.Stands s.wire s.taken →
      s.Writes w₀ moves k moves.length → LastCall w₀ moves k p (init ++ [s])
  | shut {init : List Share} {s : Share} : (∀ s ∈ init, s.Over w₀ moves k) →
      s.Ends w₀ moves k .closed → s.taken <+: s.wire →
      p.signalled (w₀.run moves).shutdown = true → LastCall w₀ moves k p (init ++ [s])

/-- What the outlet of the peer `k`, which is `p`, has taken after a run:
what it came with, and then the shares. -/
structure TakenInShares (w₀ : World) (moves : List Move) (k : PeerKey) (p : Peer) (base : Bytes)
    (shares : List Share) : Prop where
  taken : p.outlet.taken = base ++ shares.flatMap Share.taken
  ordered : shares.Pairwise fun s s' => s.start < s'.start
  began : ∀ s ∈ shares, s.Began w₀ moves k
  lastCall : LastCall w₀ moves k p shares

section TakenInShares

variable {w₀ : World} {moves : List Move} {m : Move} {k : PeerKey} {p q r : Peer} {base : Bytes}
  {shares : List Share}

/-- The calls that are over stay so. -/
theorem over_extend (h : ∀ s ∈ shares, s.Over w₀ moves k) (m : Move) :
    ∀ s ∈ shares, s.Over w₀ (moves ++ [m]) k := fun s hs => (h s hs).extend m

/-- A move by which the outlet takes nothing, and after which the same call
is writing. -/
theorem LastCall.stay (h : LastCall w₀ moves k p shares) (hlasts : p.Lasts q)
    (hshutdown : (w₀.run moves).shutdown = true → (w₀.run (moves ++ [m])).shutdown = true)
    (hat : ∀ t stage, (w₀.run (moves ++ [m])).at? t = some (k, .writing stage)
      ↔ (w₀.run moves).at? t = some (k, .writing stage)) :
    LastCall w₀ (moves ++ [m]) k q shares := by
  cases h with
  | free hover hnobody =>
      refine .free (over_extend hover m) ?_
      intro t stage ht
      exact hnobody t stage ((hat t stage).1 ht)
  | busy hover hbusy hstands hwrites =>
      have hbusy' := (hat _ _).2 hbusy
      exact .busy (over_extend hover m) hbusy' hstands (hwrites.concat hbusy')
  | shut hover hends hfront hsignalled =>
      exact .shut (over_extend hover m) (hends.extend m) hfront
        (hlasts.signalled hshutdown hsignalled)

theorem TakenInShares.stay (h : TakenInShares w₀ moves k p base shares)
    (htaken : q.outlet.taken = p.outlet.taken)
    (hcall : LastCall w₀ (moves ++ [m]) k q shares) :
    TakenInShares w₀ (moves ++ [m]) k q base shares where
  taken := htaken.trans h.taken
  ordered := h.ordered
  began := fun s hs => (h.began s hs).extend m
  lastCall := hcall

/-- The turn `m` of the send of the task `t` to the peer `k`, which was `p`
before it, `r` when the send had done with it, and is `q` now. -/
structure Sends (w₀ : World) (moves : List Move) (m : Move) (k : PeerKey) (t : TaskKey)
    (state state' : SendState) (p r q : Peer) : Prop where
  turn : m = .turn t
  send : (w₀.run moves).send? t = some (k, state)
  came : (w₀.run moves).peer? k = some p
  queued : Queued (w₀.run moves).at? k p
  step : p.SendStep t (w₀.run moves).shutdown state r state'
  drift : r.Drifts q
  before : (w₀.run moves).at? t = state.at? k
  after : (w₀.run (moves ++ [m])).at? t = state'.at? k
  others : ∀ t', t' ≠ t → (w₀.run (moves ++ [m])).at? t' = (w₀.run moves).at? t'
  shutdown : (w₀.run moves).shutdown = true → (w₀.run (moves ++ [m])).shutdown = true

namespace Sends

variable {t : TaskKey} {state state' : SendState} {wire part : Bytes} {init : List Share}

theorem order (h : Sends w₀ moves m k t state state' p r q) {stage : SendStage}
    (hstate : state = .writing stage) : p.outlet.InOrder stage := by
  subst hstate
  exact (h.queued.first h.before).2

/-- After a turn that gives up or queues, the same call is writing. -/
theorem same (h : Sends w₀ moves m k t state state' p r q)
    (hnot : ∀ stage, state ≠ .writing stage) (hnot' : ∀ stage, state' ≠ .writing stage) :
    ∀ t' stage, (w₀.run (moves ++ [m])).at? t' = some (k, .writing stage)
      ↔ (w₀.run moves).at? t' = some (k, .writing stage) := by
  intro t' stage
  rcases eq_or_ne t' t with rfl | hne
  · rw [h.before, h.after]
    simp [hnot, hnot']
  · rw [h.others t' hne]

/-- The turn that ends a call is the end of the call. -/
theorem ends (h : Sends w₀ moves m k t state state' p r q) {s : Share} (htask : s.task = t)
    (hstart : s.start ≤ moves.length) (hwrites : s.Writes w₀ moves k moves.length)
    {outcome : SendOutcome} (hstate : state' = .ended outcome) :
    s.Ends w₀ (moves ++ [m]) k outcome := by
  subst htask hstate
  have hafter := w₀.after_concat moves m
  refine ⟨moves.length, state, p, r, hstart, ?_, hwrites.extend (Nat.le_refl _) m, ?_⟩
  · rw [List.getElem?_concat_length, h.turn]
  · rw [hafter]
    exact ⟨h.send, h.came, h.step.sendTurn⟩

/-- A call that went on with its wire has the last share. -/
theorem lastCall (h : Sends w₀ moves m k t state state' p r q)
    (hover : ∀ s ∈ init, s.Over w₀ moves k) {s : Share} (htask : s.task = t)
    (hstart : s.start ≤ moves.length) (hwrites : s.Writes w₀ moves k moves.length)
    (hleaves : state'.Leaves s.wire s.taken) (hopen : state' ≠ .ended .closed)
    (hruns : ∀ rest, state' ≠ .queued rest) : LastCall w₀ (moves ++ [m]) k q (init ++ [s]) := by
  match state' with
  | .fresh rest => exact absurd rfl (h.step.ne_fresh rest)
  | .queued rest => exact absurd rfl (hruns rest)
  | .writing stage =>
      have hat : (w₀.run (moves ++ [m])).at? s.task = some (k, .writing stage) := by
        rw [htask, h.after]
        rfl
      exact .busy (over_extend hover m) hat hleaves (hwrites.concat hat)
  | .ended outcome =>
      refine .free ?_ ?_
      · intro s' hs'
        rcases List.mem_append.1 hs' with hs' | hs'
        · exact (hover s' hs').extend m
        · obtain rfl := List.mem_singleton.1 hs'
          refine ⟨outcome, ?_, h.ends htask hstart hwrites rfl, hleaves⟩
          rintro rfl
          exact hopen rfl
      · intro t' stage ht'
        rcases eq_or_ne t' t with rfl | hne
        · rw [h.after] at ht'
          cases ht'
        · rw [h.others t' hne] at ht'
          exact hne (h.queued.alone h.step h.before hopen hruns ht')

/-- When a call gets the outlet, those before it are over. -/
theorem all_over (h : Sends w₀ moves m k t state state' p r q)
    (hcall : LastCall w₀ moves k p shares)
    (hnot : ∀ stage, state ≠ .writing stage) (hopen : state' ≠ .ended .closed)
    (hruns : ∀ rest, state' ≠ .queued rest) : ∀ s ∈ shares, s.Over w₀ moves k := by
  cases hcall with
  | free hover _ => exact hover
  | @busy init s stage _ hbusy _ _ =>
      rw [h.queued.alone h.step h.before hopen hruns hbusy, h.before,
        SendState.at?_eq_some] at hbusy
      exact absurd hbusy.2.2 (hnot stage)
  | shut _ _ _ hsignalled => cases hsignalled.symm.trans (h.step.quiet hopen hruns)

/-- A call that gets the outlet at this turn begins with it. -/
theorem began (h : Sends w₀ moves m k t state state' p r q)
    (hwire : state = .fresh wire ∨ state = .queued wire) :
    Share.Began w₀ (moves ++ [m]) k ⟨t, moves.length, wire, part⟩ := by
  refine ⟨by rw [List.getElem?_concat_length, h.turn], ?_⟩
  rw [World.after_concat, h.send]
  exact hwire.imp (fun e => by rw [e]) fun e => by rw [e]

/-- A call that got the outlet at this turn has a new share. -/
theorem begin (h : Sends w₀ moves m k t state state' p r q)
    (hshares : TakenInShares w₀ moves k p base shares)
    (hwire : state = .fresh wire ∨ state = .queued wire) (hopen : state' ≠ .ended .closed)
    (hruns : ∀ rest, state' ≠ .queued rest) :
    ∃ shares', TakenInShares w₀ (moves ++ [m]) k q base shares' := by
  have hnot : ∀ stage, state ≠ .writing stage := by
    rintro stage rfl
    rcases hwire with e | e <;> cases e
  have hbefore : state.Leaves wire [] := by
    rcases hwire with rfl | rfl <;> exact ⟨rfl, rfl⟩
  obtain ⟨part, hpart, hleaves⟩ := h.step.takes (fun _ hstate => h.order hstate) hbefore
  have hinTurn : InTurn w₀ moves k shares := ⟨hshares.ordered, hshares.began⟩
  have hshare : Share.Began w₀ (moves ++ [m]) k ⟨t, moves.length, wire, part⟩ := h.began hwire
  obtain ⟨hordered, hbegan⟩ := hinTurn.join rfl hshare
  refine ⟨shares ++ [⟨t, moves.length, wire, part⟩], ?_, hordered, hbegan, ?_⟩
  · rw [h.drift.taken, hpart, hshares.taken]
    simp
  · exact h.lastCall (h.all_over hshares.lastCall hnot hopen hruns) rfl (Nat.le_refl _)
      (fun j hlt hle => absurd hlt (Nat.not_lt.2 hle)) hleaves hopen hruns

/-- A call that was writing adds to the last share. -/
theorem goOn (h : Sends w₀ moves m k t state state' p r q)
    (hshares : TakenInShares w₀ moves k p base shares) {stage : SendStage}
    (hstate : state = .writing stage)
    (hopen : state' ≠ .ended .closed) (hruns : ∀ rest, state' ≠ .queued rest) :
    ∃ shares', TakenInShares w₀ (moves ++ [m]) k q base shares' := by
  subst hstate
  obtain ⟨htaken, hordered, hbegan, hcall⟩ := hshares
  cases hcall with
  | free _ hnobody => exact absurd h.before (hnobody t stage)
  | shut _ _ _ hsignalled => cases hsignalled.symm.trans (h.step.quiet hopen hruns)
  | @busy init s stage' hover hbusy hstands hwrites =>
      obtain rfl : s.task = t := h.queued.alone h.step h.before hopen hruns hbusy
      cases hbusy.symm.trans h.before
      obtain ⟨part, hpart, hleaves⟩ := h.step.takes (fun _ hstate => h.order hstate) hstands
      have hinTurn : InTurn w₀ moves k (init ++ [s]) := ⟨hordered, hbegan⟩
      obtain ⟨hordered', hbegan'⟩ := (hinTurn.replace (s.taken ++ part)).extend m
      refine ⟨init ++ [{ s with taken := s.taken ++ part }], ?_, hordered', hbegan', ?_⟩
      · rw [h.drift.taken, hpart, htaken]
        simp
      · exact h.lastCall hover rfl (hbegan s (by simp)).lt.le hwrites hleaves hopen hruns

/-- A call that gives up while it writes has the last share for good. -/
theorem giveUp (h : Sends w₀ moves m k t state state' p r q)
    (hcall : LastCall w₀ moves k p shares) (hbegan : ∀ s ∈ shares, s.Began w₀ moves k)
    {stage : SendStage} (hstate : state = .writing stage)
    (hclosed : state' = .ended .closed) : LastCall w₀ (moves ++ [m]) k q shares := by
  subst hstate hclosed
  have hsignalled : q.signalled (w₀.run (moves ++ [m])).shutdown = true :=
    (h.step.lasts.trans h.drift.toLasts).signalled h.shutdown h.step.signalled_of_left
  cases hcall with
  | free _ hnobody => exact absurd h.before (hnobody t stage)
  | shut hover hends hfront _ =>
      exact .shut (over_extend hover m) (hends.extend m) hfront hsignalled
  | @busy init s stage' hover hbusy hstands hwrites =>
      -- both are the first in the queue
      obtain rfl : s.task = t := Option.some.inj
        ((h.queued.first hbusy).1.symm.trans (h.queued.first h.before).1)
      have hstands : SendState.Leaves s.wire s.taken (.writing stage') := hstands
      exact .shut (over_extend hover m) (h.ends rfl (hbegan s (by simp)).lt.le hwrites rfl)
        hstands.front hsignalled

/-- After a turn of a send to the peer, what was taken is shares. -/
theorem takenInShares (h : Sends w₀ moves m k t state state' p r q)
    (hshares : TakenInShares w₀ moves k p base shares) :
    ∃ shares', TakenInShares w₀ (moves ++ [m]) k q base shares' := by
  have hlasts : p.Lasts q := h.step.lasts.trans h.drift.toLasts
  -- a turn that gives up or queues has the outlet take nothing
  have hidle : (state' = .ended .closed ∨ ∃ rest, state' = .queued rest) →
      ∃ shares', TakenInShares w₀ (moves ++ [m]) k q base shares' := by
    intro hidle
    refine ⟨shares, hshares.stay ?_ ?_⟩
    · rw [h.drift.taken, h.step.outlet_of_idle hidle]
    · have hnot' : ∀ stage, state' ≠ .writing stage := by
        rintro stage rfl
        rcases hidle with e | ⟨_, e⟩ <;> cases e
      by_cases hwriting : ∃ stage, state = .writing stage
      · obtain ⟨stage, hstate⟩ := hwriting
        rcases hidle with hclosed | ⟨rest, hqueued⟩
        · exact h.giveUp hshares.lastCall hshares.began hstate hclosed
        · rcases h.step.wire (.inr hqueued) with e | e <;> cases hstate.symm.trans e
      · exact hshares.lastCall.stay hlasts h.shutdown
          (h.same (fun stage hstate => hwriting ⟨stage, hstate⟩) hnot')
  by_cases hopen : state' = .ended .closed
  · exact hidle (.inl hopen)
  · by_cases hruns : ∃ rest, state' = .queued rest
    · exact hidle (.inr hruns)
    · have hruns : ∀ rest, state' ≠ .queued rest := fun rest e => hruns ⟨rest, e⟩
      cases hstate : state with
      | fresh wire => exact h.begin hshares (.inl hstate) hopen hruns
      | queued wire => exact h.begin hshares (.inr hstate) hopen hruns
      | writing stage => exact h.goOn hshares hstate hopen hruns
      | ended outcome => exact absurd hstate (h.step.not_ended outcome)

end Sends

/-- What a peer takes with a permitted move goes to a share. -/
theorem TakenInShares.step (h : TakenInShares w₀ moves k p base shares)
    (hlocks : (w₀.run moves).Locks)
    (hstep : MoveStep (w₀.run moves) m (w₀.run (moves ++ [m])))
    (hp : (w₀.run moves).peer? k = some p) (hq : (w₀.run (moves ++ [m])).peer? k = some q) :
    ∃ shares', TakenInShares w₀ (moves ++ [m]) k q base shares' := by
  cases hstep.outlet hp hq with
  | drifts hdrift hat =>
      exact ⟨shares, h.stay hdrift.taken
        (h.lastCall.stay hdrift.toLasts hstep.shutdown fun t stage => hat t _)⟩
  | acts hturn hsend hsendStep hdrift hbefore hafter hothers =>
      exact Sends.takenInShares
        ⟨hturn, hsend, hp, hlocks.queued hp, hsendStep, hdrift, hbefore, hafter,
        hothers, hstep.shutdown⟩ h

/-- Nobody has a share in a peer that has just come. -/
theorem takenInShares_of_comes (hnobody : ∀ t state, (w₀.run moves).at? t ≠ some (k, state)) :
    TakenInShares w₀ moves k p p.outlet.taken [] where
  taken := (List.append_nil _).symm
  ordered := .nil
  began := fun _ hs => absurd hs List.not_mem_nil
  lastCall := .free (fun _ hs => absurd hs List.not_mem_nil) fun t _ => hnobody t _

end TakenInShares

/-- In every world of a run, what every peer has taken is shares. -/
theorem takenInShares_run {w₀ : World} (h₀ : w₀.IsNew) {moves : List Move}
    (hmoves : w₀.Permitted moves) {k : PeerKey} {p : Peer} (hp : (w₀.run moves).peer? k = some p) :
    ∃ n first shares, (w₀.after moves n).peer? k = none
      ∧ (w₀.after moves (n + 1)).peer? k = some first ∧ n < moves.length
      ∧ TakenInShares w₀ moves k p first.outlet.taken shares := by
  have hrun := World.peer_induction h₀
    (P := fun moves first p => ∃ shares, TakenInShares w₀ moves k p first.outlet.taken shares)
    (fun hmoves hstep hp hq => ⟨[], takenInShares_of_comes
      (((World.locks_run h₀.locks hmoves).step hstep).at?_of_comes hstep hp hq)⟩)
    (fun hmoves hstep hp hq ⟨_, hshares⟩ =>
      hshares.step (World.locks_run h₀.locks hmoves) hstep hp hq)
    hmoves hp
  obtain ⟨n, first, hnone, hfirst, hn, shares, hshares⟩ := hrun
  exact ⟨n, first, shares, hnone, hfirst, hn, hshares⟩

/-- Every share is taken from the front of its wire. -/
theorem LastCall.front {w₀ : World} {moves : List Move} {k : PeerKey} {p : Peer}
    {shares : List Share}
    (h : LastCall w₀ moves k p shares) : ∀ s ∈ shares, s.taken <+: s.wire := by
  have hover : ∀ {s : Share}, s.Over w₀ moves k → s.taken <+: s.wire := by
    rintro s ⟨outcome, -, -, hleaves⟩
    exact hleaves.front
  intro s hs
  cases h with
  | free hall _ => exact hover (hall s hs)
  | @busy init last stage hall _ hstands _ =>
      rcases List.mem_append.1 hs with hs | hs
      · exact hover (hall s hs)
      · obtain rfl := List.mem_singleton.1 hs
        have hstands : SendState.Leaves s.wire s.taken (.writing stage) := hstands
        exact hstands.front
  | shut hall _ hfront _ =>
      rcases List.mem_append.1 hs with hs | hs
      · exact hover (hall s hs)
      · exact List.mem_singleton.1 hs ▸ hfront

/-- A call after whose share there is another is over. -/
theorem LastCall.over_of_followed {w₀ : World} {moves : List Move} {k : PeerKey} {p : Peer}
    {shares front back : List Share} {s s' : Share} (h : LastCall w₀ moves k p shares)
    (hsplit : shares = front ++ s :: s' :: back) : s.Over w₀ moves k := by
  have hmem : ∀ {init : List Share} {last : Share}, init ++ [last] = front ++ s :: s' :: back →
      s ∈ init := by
    intro init last hsame
    have := congrArg List.dropLast hsame
    rw [List.dropLast_concat, List.dropLast_append_of_ne_nil (List.cons_ne_nil _ _)] at this
    rw [this]
    simp
  cases h with
  | free hall _ => exact hall s (by rw [hsplit]; simp)
  | busy hall _ _ _ | shut hall _ _ _ => exact hall s (hmem hsplit)

/-- After any run, what the outlet of a peer has taken is what it came with
and then the shares of the calls that got it, one behind the other, each
from the front of its wire.  A share after which there is another is the
whole wire, or its call failed; and then it is nothing, or so much of the
wire is missing that it would fill a buffer by itself. -/
theorem outlet_shares {moves : List Move} (hmoves : ({} : World).Permitted moves) {k : PeerKey}
    {p : Peer} (hp : (World.run {} moves).peer? k = some p) :
    ∃ n first shares, (World.after {} moves n).peer? k = none
      ∧ (World.after {} moves (n + 1)).peer? k = some first
      ∧ p.outlet.taken = first.outlet.taken ++ shares.flatMap Share.taken
      ∧ (shares.Pairwise fun s s' => s.start < s'.start)
      ∧ (∀ s ∈ shares, s.Began {} moves k ∧ s.taken <+: s.wire)
      ∧ ∀ front s s' back, shares = front ++ s :: s' :: back →
          s.taken = s.wire
            ∨ (s.taken = [] ∨ s.taken.length + capacity ≤ s.wire.length)
              ∧ ∃ f, s.Ends {} moves k (.failed f) := by
  have h₀ : World.IsNew {} := ⟨rfl, rfl, fun h => by cases h⟩
  obtain ⟨n, first, shares, hnone, hfirst, -, hshares⟩ := takenInShares_run h₀ hmoves hp
  refine ⟨n, first, shares, hnone, hfirst, hshares.taken, hshares.ordered,
    fun s hs => ⟨hshares.began s hs, hshares.lastCall.front s hs⟩, ?_⟩
  intro front s s' back hsplit
  obtain ⟨outcome, hopen, hends, hleaves⟩ := hshares.lastCall.over_of_followed hsplit
  cases outcome with
  | sent => exact .inl hleaves
  | closed => exact absurd rfl hopen
  | failed f =>
      have htorn : Torn s.wire s.taken := hleaves
      by_cases hall : s.taken = s.wire
      · exact .inl hall
      · refine .inr ⟨?_, f, hends⟩
        by_cases hnothing : s.taken = []
        · exact .inl hnothing
        · exact .inr (htorn.long hnothing hall)

/-- A wire that is one byte too long for a buffer. -/
def overlongWire : Bytes := List.replicate capacity 97 ++ [10]

/-- Two sends to one peer: its transport takes a byte of the first wire,
fails, and then takes all. -/
def tearing : List Move :=
  [.connect ⟨{ info := ⟨⟨1⟩, ⟨"peer"⟩, 0⟩, outlet :=
        { transport := { writes := [.takes 1, .fails ⟨.brokenPipe, none⟩] } } }, .silent⟩,
    .spawn (.send 0 (.fresh overlongWire)), .spawn (.send 0 (.fresh [98, 10])), .turn 0, .turn 1]

/-- At the end of `tearing`, the second wire stands behind the first byte of
the first. -/
theorem torn_wire_is_followed : ({} : World).Permitted tearing
    ∧ (World.run {} tearing).tasks = [.send 0 (.ended (.failed ⟨.brokenPipe, none⟩)),
        .send 0 (.ended .sent)]
    ∧ [97] <+: overlongWire ∧ overlongWire ≠ [97]
    ∧ ((World.run {} tearing).peer? 0).map Peer.received = some ([97] ++ [98, 10]) := by
  decide +kernel

/-- The bytes of `tearing` are shares, and only a call that failed is followed
before its wire is complete. -/
theorem outlet_shares_tearing : ({} : World).Permitted tearing
    ∧ ∃ p, (World.run {} tearing).peer? 0 = some p ∧ p.outlet.taken = [97, 98, 10]
      ∧ ∃ (first : Peer) (shares : List Share),
        p.outlet.taken = first.outlet.taken ++ shares.flatMap Share.taken
          ∧ (∀ s ∈ shares, s.Began {} tearing 0 ∧ s.taken <+: s.wire)
          ∧ ∀ front s s' back, shares = front ++ s :: s' :: back →
              s.taken = s.wire
                ∨ (s.taken = [] ∨ s.taken.length + capacity ≤ s.wire.length)
                  ∧ ∃ f, s.Ends {} tearing 0 (.failed f) := by
  have hmoves : ({} : World).Permitted tearing := by decide +kernel
  have htaken : ((World.run {} tearing).peer? 0).map (·.outlet.taken) = some [97, 98, 10] := by
    decide +kernel
  obtain ⟨p, hp, htaken⟩ := Option.map_eq_some_iff.1 htaken
  obtain ⟨-, first, shares, -, -, hshares, -, hbegan, hfollowed⟩ := outlet_shares hmoves hp
  exact ⟨hmoves, p, hp, htaken, first, shares, hshares, hbegan, hfollowed⟩

end LineRelay
