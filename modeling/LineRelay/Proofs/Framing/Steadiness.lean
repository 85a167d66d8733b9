/-
# What a reader holds, and that its calls get on

Between two calls a reader keeps part of one line, and during a call it holds
more of it.  For a limit `m` other than the greatest word,

    kept between two calls   at most `m` bytes, no newline
    budget of a call         `m + 1` less what is kept, so at least 1
    held during a call       at most `m + 1` bytes

Each row is a reason for the next, and a call that keeps what it holds has
taken less than its budget, which is the first row again.  With a budget a
call has something to do: what it answers has used up a byte, an end or a
failure (`Spends`), and if it answers an end, then the stream reported one and
there was nothing else.  So calls cannot go on answering without the stream
going on (`calls_steady`).

## What this is not

The greatest word has no successor and limits nothing, so there the length of
the lines that a machine can hold is needed (`Frame.LinesFit`).
-/
import LineRelay.Proofs.Framing.Streaming

namespace LineRelay

/-! ## What a stream gives -/

/-- What a stream gives at one place, its failures included: a byte, or the
mark of an end or of a failure. -/
inductive Token where
  | byte (b : UInt8)
  | ended
  | failed (f : Failure)
deriving DecidableEq

/-- What a read uses up of its stream: some bytes, the mark of an end or that
of a failure, or nothing. -/
def Delivery.tokens : Delivery → List Token
  | .data [] | .ended => [.ended]
  | .data (b :: bs) => (b :: bs).map .byte
  | .failed f => [.failed f]
  | .notReady => []

namespace Framer

/-- `Uses ends unread items used unread' items'`: from a stream with the bytes
and the reads of the left side these tokens are used up, first things first,
and those of the right side are left. -/
def Uses (ends : Bool) (unread : Bytes) (items : List Delivery) (used : List Token)
    (unread' : Bytes) (items' : List Delivery) : Prop :=
  ∃ extra reached, Reaches ends items extra reached items'
    ∧ unread.map .byte ++ reached.flatMap Delivery.tokens = used ++ unread'.map .byte

theorem Uses.nil (ends : Bool) (unread : Bytes) (items : List Delivery) :
    Uses ends unread items [] unread items :=
  ⟨0, [], .nil ends items, by simp⟩

theorem Uses.trans {ends : Bool} {unread unread' unread'' : Bytes}
    {items items' items'' : List Delivery} {used used' : List Token}
    (h : Uses ends unread items used unread' items')
    (h' : Uses ends unread' items' used' unread'' items'') :
    Uses ends unread items (used ++ used') unread'' items'' := by
  obtain ⟨extra, reached, hreach, hsplit⟩ := h
  obtain ⟨extra', reached', hreach', hsplit'⟩ := h'
  refine ⟨extra + extra', reached ++ reached', hreach.trans hreach', ?_⟩
  rw [List.flatMap_append, ← List.append_assoc, hsplit, List.append_assoc, hsplit',
    List.append_assoc]

/-- A read with which all bytes before it are used up. -/
theorem NextRead.uses {ends : Bool} {items rest : List Delivery} {d : Delivery}
    (h : NextRead ends items d rest) (unread : Bytes) :
    Uses ends unread items (unread.map .byte ++ d.tokens) [] rest := by
  obtain ⟨extra, hreach⟩ := h.reaches
  exact ⟨extra, [d], hreach, by simp⟩

/-- An end, and before it only reads that were made again. -/
def OnlyEnds (used : List Token) : Prop :=
  ∃ fs : List Failure, used = fs.map .failed ++ [.ended] ∧ ∀ f ∈ fs, f.kind = .interrupted

/-- A clean end is answered only where nothing of a line has come. -/
theorem eq_nil_of_conclude {limit : Option UInt64} {kept : Bytes}
    (h : conclude limit kept = .ended) : kept = [] := by
  unfold conclude at h
  split_ifs at h with hnil
  · exact List.isEmpty_iff.1 hnil
  · split at h
    · split_ifs at h
    · cases h

/-! ## One call -/

namespace Pass

variable {limit : Option UInt64} {ends : Bool} {c c' : Pass}
  {out : ReadResult × Framer × List Delivery}

/-! ### What it holds -/

theorem newline_not_mem_outcome (limit : Option UInt64) (ends : Bool) (h : newline ∉ c.kept) :
    newline ∉ (c.outcome limit ends).2.1.kept := by
  induction c using outcome_induction with
  | hexit c out hexit => exact hexit.newline_not_mem h
  | honward c c' out hon ih => exact ih (hon.newline_not_mem h)

theorem length_taken_le (c : Pass) : c.taken.length ≤ c.budget := by
  rcases takeLine_cases c.budget c.unread with ⟨line, hline, -, hlt⟩ | ⟨hlen, -⟩ | ⟨hlt, -⟩
  · rw [taken, hline, List.length_append, List.length_singleton]
    exact hlt
  · exact hlen.le
  · exact hlt.le

/-- What the call takes is part of one line, and its newline at most. -/
theorem exists_eq_line_append (c : Pass) : ∃ line more, c.unread = line ++ more
    ∧ newline ∉ line ∧ c.taken.length ≤ line.length + 1 := by
  have hall := takeLine_append c.budget c.unread
  rcases takeLine_cases c.budget c.unread with ⟨line, hline, hbody, -⟩ | ⟨-, hbody⟩ | ⟨-, hbody, -⟩
  · rw [hline, List.append_assoc] at hall
    refine ⟨line, _, hall.symm, hbody, ?_⟩
    rw [taken, hline, List.length_append, List.length_singleton]
  · exact ⟨c.taken, _, hall.symm, hbody, Nat.le_succ _⟩
  · exact ⟨c.taken, _, hall.symm, hbody, Nat.le_succ _⟩

/-- Within its budget a call never holds more than one byte over the limit. -/
theorem IsAllowed.length_held_le {m : UInt64} (h : c.IsAllowed (some m)) :
    c.held.length ≤ m.toNat + 1 := by
  rw [held, List.length_append]
  cases h with
  | limited m' hm' _ _ hsum =>
      cases hm'
      have := c.length_taken_le
      omega
  | unlimited hnot hkept _ hfit =>
      obtain ⟨line, more, hunread, hline, hle⟩ := c.exists_eq_line_append
      obtain rfl : m = Framer.unlimited := by simpa [isLimited] using hnot
      rw [ahead, hunread, List.map_append, List.append_assoc] at hfit
      have := (hfit.after_stretch hline hkept).1
      omega

theorem IsAllowed.of_path (hpath : Relation.ReflTransGen Onward c c') (h : c.IsAllowed limit) :
    c'.IsAllowed limit := by
  induction hpath with
  | refl => exact h
  | tail _ hon ih => exact hon.isAllowed ih

theorem outcome_eq_of_path (hpath : Relation.ReflTransGen Onward c c') :
    c.outcome limit ends = c'.outcome limit ends := by
  induction hpath with
  | refl => rfl
  | tail _ hon ih => rw [ih, hon.outcome_eq]

/-! ### What it uses up -/

/-- `Spends ends c out used`: a call that comes to `out` uses up these tokens
on its reads.  There are some unless nothing was ready, and a clean end is
answered only with nothing in hand. -/
structure Spends (ends : Bool) (c : Pass) (out : ReadResult × Framer × List Delivery)
    (used : List Token) : Prop where
  uses : Uses ends c.unread c.items used out.2.1.unread out.2.2
  progress : out.1 ≠ .notReady → used ≠ []
  clean : out.1 = .ended → c.kept = [] ∧ c.unread = [] ∧ OnlyEnds used

theorem Exits.exists_spends (hexit : Exits limit ends c out) (hpos : 0 < c.budget) :
    ∃ used, Spends ends c out used := by
  cases hexit with
  | complete hover =>
      have hne := taken_ne_nil hpos hover
      refine ⟨c.taken.map .byte, ⟨0, [], .nil ends c.items, ?_⟩, fun _ => by simpa using hne,
        fun hended => ?_⟩
      · rw [List.flatMap_nil, List.append_nil, ← c.taken_append_rest, List.map_append]
        rfl
      · exact absurd (List.append_eq_nil_iff.1 (eq_nil_of_conclude hended)).2 hne
  | @ended d items hover hnext hd =>
      have htokens : d.tokens = [.ended] := by rcases hd with rfl | rfl <;> rfl
      refine ⟨_, hnext.uses c.unread, fun _ => by simp [htokens], fun hended => ?_⟩
      have hheld := eq_nil_of_conclude hended
      rw [held_of_not_isOver hover, List.append_eq_nil_iff] at hheld
      exact ⟨hheld.1, hheld.2, [], by simp [hheld.2, htokens], by simp⟩
  | failed hover hnext hf =>
      exact ⟨_, hnext.uses c.unread, fun _ => by simp [Delivery.tokens],
        fun hended => by cases hended⟩
  | notReady hover hnext =>
      exact ⟨_, hnext.uses c.unread, fun hne => absurd rfl hne, fun hended => by cases hended⟩

theorem Onward.exists_spends (hon : Onward c c') (h : ∃ used, Spends ends c' out used) :
    ∃ used, Spends ends c out used := by
  obtain ⟨used, ⟨extra, reached, hreach, hsplit⟩, hprogress, hclean⟩ := h
  have hheld := held_of_not_isOver hon.not_isOver
  cases hon with
  | block _ hitems =>
      refine ⟨c.unread.map .byte ++ used, ⟨extra, _, hitems ▸ hreach.cons _, ?_⟩,
        fun hne => by simp [hprogress hne], fun hended => ?_⟩
      · rw [List.flatMap_cons, List.append_assoc, ← hsplit]
        rfl
      · exact absurd (hclean hended).2.1 (List.cons_ne_nil _ _)
  | @again f items _ hitems hf =>
      refine ⟨c.unread.map .byte ++ .failed f :: used, ⟨extra, _, hitems ▸ hreach.cons _, ?_⟩,
        fun _ => by simp, fun hended => ?_⟩
      · rw [List.flatMap_cons, List.append_assoc, List.cons_append, ← hsplit]
        rfl
      · obtain ⟨hkept, -, fs, rfl, hfs⟩ := hclean hended
        rw [onto, hheld, List.append_eq_nil_iff] at hkept
        exact ⟨hkept.1, hkept.2, f :: fs, by simp [hkept.2], List.forall_mem_cons.2 ⟨hf, hfs⟩⟩

theorem exists_spends (limit : Option UInt64) (ends : Bool) (hpos : 0 < c.budget) :
    ∃ used, Spends ends c (c.outcome limit ends) used := by
  induction c using outcome_induction with
  | hexit c out hexit => exact hexit.exists_spends hpos
  | honward c c' out hon ih => exact hon.exists_spends (ih hon.budget_pos)

end Pass

/-! ## Readers between two calls -/

variable {limit : Option UInt64} {r : Framer} {i : Inlet}

theorem budget_pos {kept : Nat} (h : ∀ m, limit = some m → kept ≤ m.toNat) :
    0 < (budget limit kept).toNat := by
  cases hlim : isLimited limit with
  | false =>
      rw [budget_of_not_limited kept hlim]
      exact unlimited_pos
  | true =>
      obtain ⟨m, rfl, hm⟩ := exists_of_isLimited hlim
      have hle := h m rfl
      have := budget_of_limited hm hle
      omega

/-- A limit that has a successor leaves its successor less what is kept. -/
theorem budget_eq {m : UInt64} {kept : Nat} (h : kept ≤ m.toNat) :
    (budget (some m) kept).toNat
      = if m = unlimited then unlimited.toNat else m.toNat + 1 - kept := by
  split_ifs with hm
  · rw [budget_of_not_limited kept (by simp [isLimited, hm])]
  · have := budget_of_limited hm h
    omega

/-- What holds of a reader that rests between two calls.  Without a limit
nothing is needed of its stream. -/
structure Resting (r : Framer) (i : Inlet) : Prop where
  newline_not_mem : newline ∉ r.kept
  between : ∀ m, r.limit = some m → Between r i

theorem Resting.within (h : Resting r i) : ∀ m, r.limit = some m → r.kept.length ≤ m.toNat :=
  fun m hm => (h.between m hm).within m hm

theorem Resting.next (h : Resting r i) : Resting (r.next i).2.1 (r.next i).2.2 := by
  refine ⟨Pass.newline_not_mem_outcome (c := Pass.start r i) r.limit i.ends h.newline_not_mem,
    fun m hm => ?_⟩
  obtain ⟨-, -, -, -, hnext⟩ := (h.between m ((limit_next r i).symm.trans hm)).next
  exact hnext

theorem Resting.calls (n : Nat) (h : Resting r i) :
    Resting (r.calls i n).2.1 (r.calls i n).2.2 := by
  induction n generalizing r i with
  | zero => exact h
  | succ n ih => exact ih h.next

/-- A reader that has read nothing rests. -/
theorem Resting.fresh {script : List Delivery} (limit : Option UInt64) (ends : Bool)
    (hfit : limit = some unlimited → Frame.LinesFit 0 (script.flatMap Delivery.marks)) :
    Resting ⟨limit, [], []⟩ ⟨script.flatMap Delivery.reads, ends⟩ := by
  refine ⟨List.not_mem_nil, fun m hm => ⟨List.not_mem_nil, fun _ _ => Nat.zero_le _, ?_⟩⟩
  rw [List.map_nil, List.nil_append, Delivery.flatMap_reads_marks]
  cases hlim : isLimited limit with
  | true => exact .inl hlim
  | false =>
      rw [show limit = some m from hm] at hlim hfit
      obtain rfl : m = unlimited := by simpa [isLimited] using hlim
      exact .inr ⟨unlimited_pos, hfit rfl⟩

theorem limit_calls (r : Framer) (i : Inlet) (n : Nat) : (r.calls i n).2.1.limit = r.limit := by
  induction n generalizing r i with
  | zero => rfl
  | succ n ih => exact (ih _ _).trans (limit_next r i)

theorem ends_calls (r : Framer) (i : Inlet) (n : Nat) : (r.calls i n).2.2.ends = i.ends := by
  induction n generalizing r i with
  | zero => rfl
  | succ n ih => exact ih _ _

/-- What the next call answers, and what it leaves. -/
def nextOut (r : Framer) (i : Inlet) : ReadResult × Framer × List Delivery :=
  ((r.next i).1, (r.next i).2.1, (r.next i).2.2.items)

/-- What holds of a reader between two calls, and of the call that it makes
next.  The budget does not wrap, though the greatest word has no successor to
leave; and in no pass of the call is more than one byte over the limit held.
-/
structure Steady (r : Framer) (i : Inlet) : Prop where
  newline_not_mem : newline ∉ r.kept
  within : ∀ m, r.limit = some m → r.kept.length ≤ m.toNat
  budget_pos : 0 < (budget r.limit r.kept.length).toNat
  budget_eq : ∀ m, r.limit = some m → (budget r.limit r.kept.length).toNat
    = if m = unlimited then unlimited.toNat else m.toNat + 1 - r.kept.length
  held_le : ∀ c, Relation.ReflTransGen Pass.Onward (Pass.start r i) c →
    c.outcome r.limit i.ends = r.nextOut i ∧ ∀ m, r.limit = some m → c.held.length ≤ m.toNat + 1
  exits : ∃ c, Relation.ReflTransGen Pass.Onward (Pass.start r i) c
    ∧ Pass.Exits r.limit i.ends c (r.nextOut i)
  spends : ∃ used, Pass.Spends i.ends (Pass.start r i) (r.nextOut i) used

theorem Resting.steady (h : Resting r i) : Steady r i where
  newline_not_mem := h.newline_not_mem
  within := h.within
  budget_pos := Framer.budget_pos h.within
  budget_eq m hm := by
    rw [hm]
    exact Framer.budget_eq (h.within m hm)
  held_le c hpath := by
    refine ⟨(Pass.outcome_eq_of_path hpath).symm, fun m hm => ?_⟩
    have hallowed : (Pass.start r i).IsAllowed (some m) :=
      hm ▸ allows_of_fits h.within (h.between m hm).fits
    exact (hallowed.of_path hpath).length_held_le
  exits := Pass.exists_exits r.limit i.ends (Pass.start r i)
  spends := Pass.exists_spends r.limit i.ends (Framer.budget_pos h.within)

/-- Any number of calls use up at least as many tokens as they give answers
other than that nothing is ready. -/
theorem Resting.exists_uses_calls (n : Nat) (h : Resting r i) :
    ∃ used, Uses i.ends r.unread i.items used (r.calls i n).2.1.unread (r.calls i n).2.2.items
      ∧ (r.calls i n).1.countP (· ≠ .notReady) ≤ used.length := by
  induction n generalizing r i with
  | zero => exact ⟨[], .nil i.ends r.unread i.items, Nat.zero_le _⟩
  | succ n ih =>
      obtain ⟨used, huses, hprogress, -⟩ := h.steady.spends
      obtain ⟨used', huses', hcount⟩ := ih h.next
      refine ⟨used ++ used', huses.trans huses', ?_⟩
      have hcalls : (r.calls i (n + 1)).1
          = (r.next i).1 :: ((r.next i).2.1.calls (r.next i).2.2 n).1 := rfl
      rw [hcalls, List.countP_cons, List.length_append]
      split_ifs with hready
      · have hne : used ≠ [] := hprogress (by simpa [nextOut] using hready)
        have := List.length_pos_iff.2 hne
        omega
      · omega

end Framer

/-! ## Every run of calls -/

/-- Between any two calls, on every stream, a reader keeps a part of one line
that is within the limit, has a budget that is what the limit leaves and not 0,
and makes a call that never holds more than one byte over the limit, that
answers a clean end only at an end with nothing in hand, and that uses up
something of the stream unless nothing is ready.  So any number of calls answer
no more often than their stream has something to answer. -/
theorem Framer.calls_steady (limit : Option UInt64) (script : List Delivery) (ends : Bool) (n : Nat)
    (hfit : limit = some unlimited → Frame.LinesFit 0 (script.flatMap Delivery.marks)) :
    let i : Inlet := ⟨script.flatMap Delivery.reads, ends⟩
    let past := (Framer.mk limit [] []).calls i n
    past.2.1.limit = limit ∧ past.2.2.ends = ends ∧ Steady past.2.1 past.2.2
      ∧ ∃ used, Uses ends [] i.items used past.2.1.unread past.2.2.items
        ∧ past.1.countP (· ≠ .notReady) ≤ used.length := by
  intro i past
  have hrest : Resting ⟨limit, [], []⟩ i := Resting.fresh limit ends hfit
  exact ⟨limit_calls _ _ n, ends_calls _ _ n, (hrest.calls n).steady, hrest.exists_uses_calls n⟩

/-- A limit without a successor; a line that begins before a gap and a failure
is kept over both. -/
theorem Framer.calls_steady_at_greatest_limit :
    let script := [.data [97], .notReady, .failed ⟨.connectionReset, none⟩,
      .data [98, newline, 99]]
    let i : Inlet := ⟨script.flatMap Delivery.reads, true⟩
    let past := (Framer.mk (some unlimited) [] []).calls i 2
    Frame.LinesFit 0 (script.flatMap Delivery.marks)
      ∧ past.1 = [.notReady, .failed (.stream ⟨.connectionReset, none⟩)] ∧ past.2.1.kept = [97]
      ∧ past.2.1.limit = some unlimited ∧ past.2.2.ends = true ∧ Steady past.2.1 past.2.2
      ∧ ∃ used, Uses true [] i.items used past.2.1.unread past.2.2.items
        ∧ past.1.countP (· ≠ .notReady) ≤ used.length :=
  ⟨by decide, by decide, by decide,
    Framer.calls_steady (some unlimited) _ true 2 fun _ => by decide⟩

end LineRelay
