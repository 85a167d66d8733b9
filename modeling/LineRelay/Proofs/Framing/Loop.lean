/-
# The loop of a call

A call takes what it may from what is unread, and while that completes
nothing it makes the next read.  So it goes through passes (`Pass`), one
before each of its reads, and there are few ways from one to the next and out:

    a block of bytes                   on, with the block unread    `Onward.block`
    a read that was only interrupted   on, with nothing unread      `Onward.again`
    a newline, or no budget left       out, with an answer          `Exits.complete`
    an end                             out, with an answer          `Exits.ended`
    another failure                    out, the line kept           `Exits.failed`
    nothing ready                      out, the line kept           `Exits.notReady`

What holds of a call is shown for these six and then of all of them
(`outcome_induction`), so that nothing else has to look into the loop.
-/
import LineRelay.Proofs.Framing.Budget

namespace LineRelay

namespace Framer

/-! ## The reads that a call reaches -/

/-- What every read finds once those that are listed are used up. -/
def afterwards (ends : Bool) : Delivery := if ends then .ended else .notReady

/-- Out of `items` and then `extra` reads after them some were reached
and `rest` is left; the reads after them come last. -/
structure Reaches (ends : Bool) (items : List Delivery) (extra : Nat)
    (reached rest : List Delivery) : Prop where
  split : items ++ List.replicate extra (afterwards ends) = reached ++ rest
  in_order : rest ≠ [] → extra = 0

theorem Reaches.nil (ends : Bool) (items : List Delivery) : Reaches ends items 0 [] items :=
  ⟨by simp, fun _ => rfl⟩

theorem Reaches.cons {ends : Bool} {items reached rest : List Delivery} {extra : Nat}
    (d : Delivery) (h : Reaches ends items extra reached rest) :
    Reaches ends (d :: items) extra (d :: reached) rest :=
  ⟨by simp [h.split], h.in_order⟩

theorem Reaches.trans {ends : Bool} {items reached middle reached' rest : List Delivery}
    {extra extra' : Nat} (h : Reaches ends items extra reached middle)
    (h' : Reaches ends middle extra' reached' rest) :
    Reaches ends items (extra + extra') (reached ++ reached') rest := by
  refine ⟨?_, ?_⟩
  · rw [List.append_assoc, ← h'.split, ← List.append_assoc reached, ← h.split,
      List.append_assoc, List.replicate_append_replicate]
  · intro hrest
    have hextra' := h'.in_order hrest
    have hmiddle : middle ≠ [] := by
      have := h'.split
      rw [hextra', List.replicate_zero, List.append_nil] at this
      simp [this, hrest]
    rw [h.in_order hmiddle, hextra']

/-- The next read of a stream: the first that is listed, or else what every
read finds afterwards. -/
inductive NextRead (ends : Bool) : List Delivery → Delivery → List Delivery → Prop
  | listed {d : Delivery} {items : List Delivery} : NextRead ends (d :: items) d items
  | afterwards : NextRead ends [] (afterwards ends) []

theorem NextRead.reaches {ends : Bool} {items rest : List Delivery} {d : Delivery}
    (h : NextRead ends items d rest) : ∃ extra, Reaches ends items extra [d] rest := by
  cases h with
  | listed => exact ⟨0, (Reaches.nil ends rest).cons d⟩
  | afterwards => exact ⟨1, rfl, fun hne => absurd rfl hne⟩

/-! ## What a call takes -/

theorem getLast?_ne_newline {line : Bytes} (h : newline ∉ line) : line.getLast? ≠ some newline :=
  fun e => h (List.mem_of_getLast? e)

theorem takeLine_of_incomplete {budget : Nat} {unread : Bytes}
    (h : isComplete budget (takeLine budget unread).1 = false) :
    takeLine budget unread = (unread, []) ∧ unread.length < budget ∧ newline ∉ unread := by
  rcases takeLine_cases budget unread with
    ⟨line, hline, -, -⟩ | ⟨hlen, -⟩ | ⟨hlt, hbody, hall, hrest⟩
  · simp [isComplete, hline] at h
  · simp [isComplete, hlen] at h
  · rw [hall] at hlt hbody
    exact ⟨Prod.ext hall hrest, hlt, hbody⟩

theorem readFrom_of_complete {limit : Option UInt64} {ends : Bool} {budget : Nat}
    {kept unread : Bytes} (items : List Delivery)
    (h : isComplete budget (takeLine budget unread).1 = true) :
    readFrom limit ends budget kept unread items
      = (conclude limit (kept ++ (takeLine budget unread).1),
          afterCall limit (takeLine budget unread).2, items) := by
  cases items <;> simp [readFrom, h]

/-! ## The passes of a call -/

/-- A call before one of its reads: how many bytes it may still take, the
line so far, what the last read brought, and the reads that are ready. -/
structure Pass where
  budget : Nat
  kept : Bytes
  unread : Bytes
  items : List Delivery

namespace Pass

variable {limit : Option UInt64} {ends : Bool} {c c' : Pass}
  {out : ReadResult × Framer × List Delivery}

/-- The call of a reader before it has read anything. -/
def start (r : Framer) (i : Inlet) : Pass :=
  ⟨(Framer.budget r.limit r.kept.length).toNat, r.kept, r.unread, i.items⟩

/-- The bytes that the call takes of those unread. -/
def taken (c : Pass) : Bytes := (takeLine c.budget c.unread).1

/-- The bytes that it leaves. -/
def rest (c : Pass) : Bytes := (takeLine c.budget c.unread).2

/-- The line so far, once they are taken. -/
def held (c : Pass) : Bytes := c.kept ++ c.taken

/-- Whether that completes the call. -/
def isOver (c : Pass) : Bool := isComplete c.budget c.taken

/-- What the call comes to. -/
def outcome (limit : Option UInt64) (ends : Bool) (c : Pass) :
    ReadResult × Framer × List Delivery :=
  readFrom limit ends c.budget c.kept c.unread c.items

/-- The call after a read that brought the block. -/
def onto (c : Pass) (block : Bytes) (items : List Delivery) : Pass :=
  ⟨c.budget - c.taken.length, c.held, block, items⟩

/-- `Onward c c'`: the call makes one read and goes on. -/
inductive Onward (c : Pass) : Pass → Prop
  | block {b : UInt8} {bs : Bytes} {items : List Delivery} : c.isOver = false →
      c.items = .data (b :: bs) :: items → Onward c (c.onto (b :: bs) items)
  | again {f : Failure} {items : List Delivery} : c.isOver = false →
      c.items = .failed f :: items → f.kind = .interrupted → Onward c (c.onto [] items)

/-- The ways in which a call is over: its answer, the reader that it leaves and
the reads that it leaves. -/
inductive Exits (limit : Option UInt64) (ends : Bool) (c : Pass) :
    ReadResult × Framer × List Delivery → Prop
  | complete : c.isOver = true →
      Exits limit ends c (conclude limit c.held, afterCall limit c.rest, c.items)
  | ended {d : Delivery} {items : List Delivery} : c.isOver = false →
      NextRead ends c.items d items → d = .data [] ∨ d = .ended →
      Exits limit ends c (conclude limit c.held, afterCall limit [], items)
  | failed {f : Failure} {items : List Delivery} : c.isOver = false →
      NextRead ends c.items (.failed f) items → f.kind ≠ .interrupted →
      Exits limit ends c (.failed (.stream f), cutShort limit c.held, items)
  | notReady {items : List Delivery} : c.isOver = false →
      NextRead ends c.items .notReady items →
      Exits limit ends c (.notReady, cutShort limit c.held, items)

/-- What a call comes to does not change with a read after which it goes on. -/
theorem Onward.outcome_eq (h : Onward c c') : c.outcome limit ends = c'.outcome limit ends := by
  obtain ⟨budget, kept, unread, items⟩ := c
  cases h with
  | block hover hitems =>
      cases hitems
      simp only [isOver, taken] at hover
      simp [outcome, onto, held, taken, readFrom, hover]
  | again hover hitems hf =>
      cases hitems
      simp only [isOver, taken] at hover
      simp [outcome, onto, held, taken, readFrom, hover, hf]

/-- A call that does not go on is over in one of these ways. -/
theorem exits_outcome (hstay : ∀ c', ¬ Onward c c') : Exits limit ends c (c.outcome limit ends) := by
  obtain ⟨budget, kept, unread, items⟩ := c
  cases hover : isComplete budget (takeLine budget unread).1 with
  | true =>
      rw [outcome, readFrom_of_complete items hover]
      exact .complete hover
  | false =>
      obtain ⟨htake, -, -⟩ := takeLine_of_incomplete hover
      have hrest : (takeLine budget unread).2 = [] := congrArg Prod.snd htake
      cases items with
      | nil =>
          cases ends with
          | true =>
              simp only [outcome, readFrom, hover, Bool.false_or, if_true, hrest]
              exact .ended hover .afterwards (.inr rfl)
          | false =>
              simp only [outcome, readFrom, hover, Bool.false_or, Bool.false_eq_true, if_false]
              exact .notReady hover .afterwards
      | cons d items =>
          simp only [outcome, readFrom, hover, Bool.false_eq_true, if_false]
          match d with
          | .ended => exact .ended hover .listed (.inr rfl)
          | .data [] => exact .ended hover .listed (.inl rfl)
          | .data (b :: bs) => exact absurd (.block hover rfl) (hstay _)
          | .notReady => exact .notReady hover .listed
          | .failed f =>
              by_cases hf : f.kind = .interrupted
              · exact absurd (.again hover rfl hf) (hstay _)
              · simp only [if_neg hf]
                exact .failed hover .listed hf

/-- A read after which a call goes on is one of those listed. -/
theorem Onward.length_items (h : Onward c c') : c.items.length = c'.items.length + 1 := by
  cases h with
  | block _ hitems | again _ hitems _ => rw [hitems, List.length_cons, onto]

/-- What holds of each way out, and before a read if it holds after it, holds
of what every call comes to. -/
theorem outcome_induction {motive : Pass → ReadResult × Framer × List Delivery → Prop}
    (hexit : ∀ c out, Exits limit ends c out → motive c out)
    (honward : ∀ c c' out, Onward c c' → motive c' out → motive c out) (c : Pass) :
    motive c (c.outcome limit ends) := by
  induction hlength : c.items.length generalizing c with
  | zero =>
      refine hexit c _ (exits_outcome fun c' hon => ?_)
      have := hon.length_items
      omega
  | succ n ih =>
      by_cases hon : ∃ c', Onward c c'
      · obtain ⟨c', hon⟩ := hon
        rw [hon.outcome_eq]
        have := hon.length_items
        exact honward c c' _ hon (ih c' (by omega))
      · exact hexit c _ (exits_outcome (not_exists.1 hon))

/-- Every call is over after some of its reads, in one of these ways. -/
theorem exists_exits (limit : Option UInt64) (ends : Bool) (c : Pass) :
    ∃ c', Relation.ReflTransGen Onward c c' ∧ Exits limit ends c' (c.outcome limit ends) := by
  induction c using outcome_induction with
  | hexit c out hexit => exact ⟨c, .refl, hexit⟩
  | honward c c' out hon ih =>
      obtain ⟨c'', hpath, hexit⟩ := ih
      exact ⟨c'', hpath.head hon, hexit⟩

/-! ## Small facts of a pass -/

theorem of_not_isOver (h : c.isOver = false) :
    c.taken = c.unread ∧ c.unread.length < c.budget ∧ newline ∉ c.unread := by
  obtain ⟨htake, hlt, hbody⟩ := takeLine_of_incomplete h
  exact ⟨congrArg Prod.fst htake, hlt, hbody⟩

theorem held_of_not_isOver (h : c.isOver = false) : c.held = c.kept ++ c.unread := by
  rw [held, (of_not_isOver h).1]

theorem taken_append_rest (c : Pass) : c.taken ++ c.rest = c.unread :=
  takeLine_append c.budget c.unread

theorem taken_ne_nil (hpos : 0 < c.budget) (hover : c.isOver = true) : c.taken ≠ [] := by
  intro hnil
  rw [isOver, hnil] at hover
  simp [isComplete, hpos.ne] at hover

theorem Onward.not_isOver (h : Onward c c') : c.isOver = false := by
  cases h with
  | block hover _ => exact hover
  | again hover _ _ => exact hover

theorem Onward.eq_onto (h : Onward c c') : c' = c.onto c'.unread c'.items := by
  cases h <;> rfl

/-- A call that goes on has not taken all that it might. -/
theorem Onward.budget_pos (h : Onward c c') : 0 < c'.budget := by
  obtain ⟨htaken, hlt, -⟩ := of_not_isOver h.not_isOver
  rw [h.eq_onto, onto, htaken]
  exact Nat.sub_pos_of_lt hlt

theorem newline_not_mem_held (h : newline ∉ c.kept) (hover : c.isOver = false) :
    newline ∉ c.held := by
  rw [held_of_not_isOver hover]
  exact List.not_mem_append h (of_not_isOver hover).2.2

theorem Onward.newline_not_mem (hon : Onward c c') (h : newline ∉ c.kept) : newline ∉ c'.kept := by
  rw [hon.eq_onto, onto]
  exact newline_not_mem_held h hon.not_isOver

theorem Exits.newline_not_mem (hexit : Exits limit ends c out) (h : newline ∉ c.kept) :
    newline ∉ out.2.1.kept := by
  cases hexit with
  | complete _ | ended _ _ _ => exact List.not_mem_nil
  | failed hover _ _ | notReady hover _ => exact newline_not_mem_held h hover

theorem Exits.limit_eq (h : Exits limit ends c out) : out.2.1.limit = limit := by
  cases h <;> rfl

end Pass

theorem limit_next (r : Framer) (i : Inlet) : (r.next i).2.1.limit = r.limit := by
  obtain ⟨c, -, hexit⟩ := Pass.exists_exits r.limit i.ends (Pass.start r i)
  exact hexit.limit_eq

theorem ends_next (r : Framer) (i : Inlet) : (r.next i).2.2.ends = i.ends := rfl

end Framer

end LineRelay
