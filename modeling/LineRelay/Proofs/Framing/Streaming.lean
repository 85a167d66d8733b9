/-
# A reader of lines answers the frames of its stream

A reader is called again and again on a stream that comes in reads of any
size, with points at which nothing is ready, failures and ends among
them.  What its calls answer is told from the bytes and the ends alone:

| a call answers | the stream has there |
| :-- | :-- |
| a frame | the next frame of `Frame.ofMarks` |
| nothing ready, or a failure | the next `Gap`, and nothing of a frame is lost |

So the frames do not depend on where the reads cut the bytes, and a call
that is given up costs nothing.  `Accounts` says this of one call, for
whatever comes after what it reached; calls then follow each other by
transitivity, and `frames_of_calls` says it of any number of them.

A read that was only interrupted is no gap: it is made again within the
call, which `interrupted_read_is_made_again` shows on the shortest stream.
-/
import LineRelay.Proofs.Framing.Loop

namespace LineRelay

/-! ## Gaps -/

/-- A place in a stream where a reader gets no bytes and no end: nothing is
ready, or the read fails. -/
inductive Gap where
  | notReady
  | failed (f : Failure)
deriving DecidableEq

/-- The gap that a read is.  One that was only interrupted is none. -/
def Delivery.gap? : Delivery → Option Gap
  | .notReady => some .notReady
  | .failed f => if f.kind = .interrupted then none else some (.failed f)
  | .data _ | .ended => none

/-- The gap that a call answers. -/
def ReadResult.gap? : ReadResult → Option Gap
  | .notReady => some .notReady
  | .failed (.stream f) => some (.failed f)
  | _ => none

/-! ## How a call concludes -/

theorem Frame.newline_not_mem_content {line : Bytes} (h : newline ∉ line) :
    newline ∉ Frame.content line := by
  unfold Frame.content
  split_ifs
  · exact fun e => h (List.mem_of_mem_dropLast e)
  · exact h

namespace Framer

variable {limit : Option UInt64} {line kept unread : Bytes}

theorem gap?_conclude (limit : Option UInt64) (kept : Bytes) :
    (conclude limit kept).gap? = none := by
  unfold conclude
  split_ifs
  · rfl
  · rfl
  · cases limit with
    | none => rfl
    | some m => simp only; split_ifs <;> rfl

/-- A line and its newline are answered as that line. -/
theorem frame?_conclude_line (h : newline ∉ line) :
    (conclude limit (line ++ [newline])).frame? = some (.line (Frame.content line)) := by
  have hcontent := Frame.newline_not_mem_content h
  have hbytes : (Line.ofFrame (line ++ [newline])).bytes = Frame.content line := by
    simpa [Line.ofFrame, Line.dropLast, Frame.content] using Line.content_eq_self hcontent
  simp [conclude, ReadResult.frame?, hbytes]

/-- What an end breaks is answered as an end. -/
theorem frame?_conclude_end (h : newline ∉ line)
    (hlen : ∀ m, limit = some m → line.length ≤ m.toNat) :
    (conclude limit line).frame? = some (Frame.atEnd line) := by
  cases line with
  | nil => rfl
  | cons b bs =>
      have hlast := getLast?_ne_newline h
      cases limit with
      | none => simp [conclude, hlast, ReadResult.frame?, Frame.atEnd]
      | some m =>
          have : ¬ m.toNat < (b :: bs).length := Nat.not_lt.2 (hlen m rfl)
          simp only [List.length_cons] at this
          simp [conclude, hlast, this, ReadResult.frame?, Frame.atEnd]

/-- More bytes than the limit allows are answered as too long. -/
theorem frame?_conclude_tooLong {m : UInt64} (h : newline ∉ line) (hm : limit = some m)
    (hlen : m.toNat < line.length) :
    (conclude limit line).frame? = some (.tooLong m) := by
  have hne : line ≠ [] := by
    rintro rfl
    rw [List.length_nil] at hlen
    omega
  simp [conclude, hne, getLast?_ne_newline h, hm, hlen, ReadResult.frame?]

/-! ## One call -/

/-- The budget that a call still has after it kept some bytes of a line, and
why it is enough for what the stream has next: it is what the limit leaves,
or there is no limit and no line takes as much as there is. -/
inductive Allows (limit : Option UInt64) (budget kept : Nat) (marks : List Mark) : Prop
  | limited (m : UInt64) : limit = some m → isLimited limit = true → 0 < budget →
      budget + kept = m.toNat + 1 → Allows limit budget kept marks
  | unlimited : isLimited limit = false → kept < unlimited.toNat →
      Framer.unlimited.toNat ≤ budget + kept → Frame.LinesFit kept marks →
      Allows limit budget kept marks

theorem Allows.pos {budget kept : Nat} {marks : List Mark} (h : Allows limit budget kept marks) :
    0 < budget := by
  cases h with
  | limited m _ _ hpos _ => exact hpos
  | unlimited _ hkept hle _ => omega

/-- What stays below the budget stays within the limit. -/
theorem Allows.within {budget kept : Nat} {marks : List Mark} {body : Bytes}
    (h : Allows limit budget kept (body.map .byte ++ marks)) (hbody : newline ∉ body)
    (hlt : body.length < budget) :
    ∀ m, limit = some m → kept + body.length ≤ m.toNat := by
  intro m hm
  cases h with
  | limited m' hm' _ _ hsum =>
      obtain rfl : m' = m := Option.some.inj (hm'.symm.trans hm)
      omega
  | unlimited hnot hkept _ hfit =>
      have hmax : m = Framer.unlimited := by simpa [isLimited, hm] using hnot
      have := (hfit.after_stretch hbody hkept).1
      rw [hmax]
      omega

/-- A call that has taken less than its budget can go on with the rest. -/
theorem Allows.after {budget kept : Nat} {marks : List Mark} {body : Bytes}
    (h : Allows limit budget kept (body.map .byte ++ marks)) (hbody : newline ∉ body)
    (hlt : body.length < budget) :
    Allows limit (budget - body.length) (kept + body.length) marks := by
  cases h with
  | limited m hm hlim _ hsum => exact .limited m hm hlim (by omega) (by omega)
  | unlimited hnot hkept hle hfit =>
      have := hfit.after_stretch hbody hkept
      exact .unlimited hnot this.1 (by omega) this.2

theorem unlimited_pos : 0 < unlimited.toNat := by decide

/-- Whether the machine can hold the lines to come, when `length` bytes of
the first one are kept.  A limit sees to that by itself. -/
def Fits (limit : Option UInt64) (length : Nat) (marks : List Mark) : Prop :=
  isLimited limit = true ∨ length < unlimited.toNat ∧ Frame.LinesFit length marks

instance decFits (limit : Option UInt64) (length : Nat) (marks : List Mark) :
    Decidable (Fits limit length marks) :=
  inferInstanceAs (Decidable (_ ∨ _))

/-- What one call does with the reads that it reached: the frame it
answers and those of what it leaves are the frames there were, whatever
comes after, and the gap it answers is the one it reached. -/
structure Accounts (limit : Option UInt64) (kept unread : Bytes) (reached : List Delivery)
    (result : ReadResult) (r : Framer) : Prop where
  limit_eq : r.limit = limit
  newline_not_mem : newline ∉ r.kept
  within : ∀ m, limit = some m → r.kept.length ≤ m.toNat
  frames : ∀ marks, result.frame?.toList
      ++ Frame.ofMarks limit r.kept (r.unread.map .byte ++ marks)
    = Frame.ofMarks limit kept (unread.map .byte ++ (reached.flatMap Delivery.marks ++ marks))
  gaps : result.gap?.toList = reached.filterMap Delivery.gap?
  fits : ∀ marks,
    Fits limit kept.length (unread.map .byte ++ (reached.flatMap Delivery.marks ++ marks)) →
      Fits limit r.kept.length (r.unread.map .byte ++ marks)

section OneCall

variable {budget : Nat} {marks : List Mark} {rest : Bytes}

/-- A newline within the budget: the call answers the line. -/
theorem accounts_newline (hkept : newline ∉ kept) (hbody : newline ∉ line)
    (hunread : unread = line ++ newline :: rest) (hlt : line.length < budget)
    (h : Allows limit budget kept.length (unread.map .byte ++ marks)) :
    Accounts limit kept unread [] (conclude limit (kept ++ (line ++ [newline])))
      (afterCall limit rest) := by
  subst hunread
  have hline : newline ∉ kept ++ line := by simp [hkept, hbody]
  simp only [List.map_append, List.append_assoc] at h
  have hframe := @frame?_conclude_line limit _ hline
  rw [List.append_assoc] at hframe
  refine ⟨rfl, by simp [afterCall], fun m _ => by simp [afterCall], ?_, ?_, ?_⟩
  · intro marks
    have := Frame.ofMarks_stretch (.byte newline :: (rest.map .byte ++ marks)) hbody
      (h.within hbody hlt)
    simp [hframe, afterCall, this, Frame.ofMarks_newline]
  · simp [gap?_conclude]
  · intro marks hfit
    refine hfit.imp_right fun hfit => ⟨unlimited_pos, ?_⟩
    simp only [List.map_append, List.map_cons, List.append_assoc, List.cons_append,
      List.flatMap_nil, List.nil_append] at hfit
    exact hfit.2.after_newline hbody

/-- A budget that is used up: the call answers that the line is too long. -/
theorem accounts_full (hkept : newline ∉ kept) (hline : newline ∉ line)
    (hunread : unread = line ++ rest) (hlen : line.length = budget)
    (h : Allows limit budget kept.length (unread.map .byte ++ marks)) :
    Accounts limit kept unread [] (conclude limit (kept ++ line)) (afterCall limit rest) := by
  subst hunread
  simp only [List.map_append, List.append_assoc] at h
  cases h with
  | unlimited hnot hlt hle hfit =>
      -- no line of the stream is as long as what an unlimited call may take
      have := (hfit.after_stretch hline hlt).1
      omega
  | limited m hm hlim hpos hsum =>
      have hframe := @frame?_conclude_tooLong limit (kept ++ line) m
        (by simp [hkept, hline]) hm (by simp only [List.length_append]; omega)
      refine ⟨rfl, by simp [afterCall], fun m _ => by simp [afterCall], ?_, ?_,
        fun _ _ => .inl hlim⟩
      · intro marks
        have := @Frame.ofMarks_exceeded limit kept line m (rest.map .byte ++ marks)
          hm hline (by omega) (by omega)
        simp [hframe, afterCall, this]
      · simp [gap?_conclude]

/-- An end before the budget is used up: the call answers that end. -/
theorem accounts_end {d : Delivery} (hkept : newline ∉ kept) (hline : newline ∉ unread)
    (hlt : unread.length < budget) (hd : d.marks = [.ended]) (hgap : d.gap? = none)
    (h : Allows limit budget kept.length (unread.map .byte ++ marks)) :
    Accounts limit kept unread [d] (conclude limit (kept ++ unread)) (afterCall limit []) := by
  have hwithin := h.within hline hlt
  have hframe := @frame?_conclude_end limit (kept ++ unread)
    (by simp [hkept, hline]) (by simpa using hwithin)
  refine ⟨rfl, by simp [afterCall], fun m _ => by simp [afterCall], ?_, ?_, ?_⟩
  · intro marks
    have := Frame.ofMarks_stretch (.ended :: marks) hline hwithin
    simp [hframe, afterCall, hd, this, Frame.ofMarks]
  · simp [gap?_conclude, hgap]
  · intro marks hfit
    refine hfit.imp_right fun hfit => ⟨unlimited_pos, ?_⟩
    have := hfit.2.after_stretch hline hfit.1
    simpa [hd, Frame.LinesFit, afterCall] using this.2

/-- A gap before the budget is used up: the call answers it, and what it
has taken is kept. -/
theorem accounts_gap {d : Delivery} {result : ReadResult} {g : Gap} (hkept : newline ∉ kept)
    (hline : newline ∉ unread) (hlt : unread.length < budget) (hd : d.marks = [])
    (hgap : d.gap? = some g) (hresult : result.gap? = some g) (hframe : result.frame? = none)
    (h : Allows limit budget kept.length (unread.map .byte ++ marks)) :
    Accounts limit kept unread [d] result (cutShort limit (kept ++ unread)) := by
  have hwithin := h.within hline hlt
  refine ⟨rfl, by simp [cutShort, hkept, hline], ?_, ?_, ?_, ?_⟩
  · intro m hm
    simpa [cutShort] using hwithin m hm
  · intro marks
    have := Frame.ofMarks_stretch marks hline hwithin
    simp [hframe, cutShort, hd, this]
  · simp [hresult, hgap]
  · intro marks hfit
    refine hfit.imp_right ?_
    intro hfit
    have := hfit.2.after_stretch hline hfit.1
    simpa [hd, cutShort] using this

/-- A read that concludes nothing: the call goes on with its bytes. -/
theorem accounts_onward {d : Delivery} {block : Bytes} {reached : List Delivery}
    {result : ReadResult} {r : Framer} (hline : newline ∉ unread) (hlt : unread.length < budget)
    (hd : d.marks = block.map .byte) (hgap : d.gap? = none)
    (h : Allows limit budget kept.length (unread.map .byte ++ marks))
    (hrest : Accounts limit (kept ++ unread) block reached result r) :
    Accounts limit kept unread (d :: reached) result r := by
  have hwithin := h.within hline hlt
  refine ⟨hrest.limit_eq, hrest.newline_not_mem, hrest.within, ?_, ?_, ?_⟩
  · intro marks
    rw [hrest.frames marks, ← Frame.ofMarks_stretch _ hline hwithin]
    simp [hd]
  · simp [hrest.gaps, hgap]
  · intro marks hfit
    refine hrest.fits marks (hfit.imp_right ?_)
    intro hfit
    have := hfit.2.after_stretch hline hfit.1
    simpa [hd] using this

end OneCall

/-! ## Every way out of a call -/

namespace Pass

variable {ends : Bool} {c c' : Pass} {out : ReadResult × Framer × List Delivery}

/-- The bytes and ends that a call has before it. -/
def ahead (c : Pass) : List Mark := c.unread.map .byte ++ c.items.flatMap Delivery.marks

/-- The budget of a call is what its limit leaves for the line so far. -/
def IsAllowed (limit : Option UInt64) (c : Pass) : Prop :=
  Allows limit c.budget c.kept.length c.ahead

theorem Onward.isAllowed (hon : Onward c c') (h : c.IsAllowed limit) : c'.IsAllowed limit := by
  obtain ⟨htaken, hlt, hbody⟩ := of_not_isOver hon.not_isOver
  have hnext := Allows.after h hbody hlt
  rw [IsAllowed, ahead]
  cases hon with
  | block hover hitems =>
      simpa [onto, held, htaken, hitems, Delivery.marks] using hnext
  | again hover hitems hf =>
      simpa [onto, held, htaken, hitems] using hnext

/-- A call that completes its line with what is unread reaches no read. -/
theorem accounts_of_isOver (hkept : newline ∉ c.kept) (h : c.IsAllowed limit)
    (hover : c.isOver = true) :
    Accounts limit c.kept c.unread [] (conclude limit c.held) (afterCall limit c.rest) := by
  have htake := c.taken_append_rest
  rcases takeLine_cases c.budget c.unread with
    ⟨line, hline, hbody, hlt⟩ | ⟨hlen, hbody⟩ | ⟨hlt, hbody, -, -⟩
  · have hunread : c.unread = line ++ newline :: c.rest := by
      rw [taken, hline] at htake
      simpa using htake.symm
    rw [held, taken, hline]
    exact accounts_newline hkept hbody hunread hlt h
  · exact accounts_full hkept hbody htake.symm hlen h
  · simp [isOver, isComplete, taken, Nat.ne_of_lt hlt, getLast?_ne_newline hbody] at hover

theorem Exits.exists_accounts (hexit : Exits limit ends c out) (hkept : newline ∉ c.kept)
    (h : c.IsAllowed limit) :
    ∃ extra reached, Reaches ends c.items extra reached out.2.2
      ∧ Accounts limit c.kept c.unread reached out.1 out.2.1 := by
  cases hexit with
  | complete hover => exact ⟨0, [], .nil ends c.items, accounts_of_isOver hkept h hover⟩
  | ended hover hnext hd =>
      obtain ⟨-, hlt, hbody⟩ := of_not_isOver hover
      obtain ⟨extra, hreach⟩ := hnext.reaches
      rw [held_of_not_isOver hover]
      refine ⟨extra, _, hreach, accounts_end hkept hbody hlt ?_ ?_ h⟩
      · rcases hd with rfl | rfl <;> rfl
      · rcases hd with rfl | rfl <;> rfl
  | failed hover hnext hf =>
      obtain ⟨-, hlt, hbody⟩ := of_not_isOver hover
      obtain ⟨extra, hreach⟩ := hnext.reaches
      rw [held_of_not_isOver hover]
      exact ⟨extra, _, hreach,
        accounts_gap hkept hbody hlt rfl (by simp [Delivery.gap?, hf]) rfl rfl h⟩
  | notReady hover hnext =>
      obtain ⟨-, hlt, hbody⟩ := of_not_isOver hover
      obtain ⟨extra, hreach⟩ := hnext.reaches
      rw [held_of_not_isOver hover]
      exact ⟨extra, _, hreach, accounts_gap hkept hbody hlt rfl rfl rfl rfl h⟩

theorem Onward.exists_accounts (hon : Onward c c') (h : c.IsAllowed limit)
    (hrest : ∃ extra reached, Reaches ends c'.items extra reached out.2.2
      ∧ Accounts limit c'.kept c'.unread reached out.1 out.2.1) :
    ∃ extra reached, Reaches ends c.items extra reached out.2.2
      ∧ Accounts limit c.kept c.unread reached out.1 out.2.1 := by
  obtain ⟨extra, reached, hreach, hacc⟩ := hrest
  obtain ⟨-, hlt, hbody⟩ := of_not_isOver hon.not_isOver
  have hheld := held_of_not_isOver hon.not_isOver
  cases hon with
  | block hover hitems =>
      rw [onto, hheld] at hacc
      exact ⟨extra, _, hitems ▸ hreach.cons _, accounts_onward hbody hlt rfl rfl h hacc⟩
  | again hover hitems hf =>
      rw [onto, hheld] at hacc
      exact ⟨extra, _, hitems ▸ hreach.cons _,
        accounts_onward hbody hlt rfl (by simp [Delivery.gap?, hf]) h hacc⟩

/-- The call with what is ready, by the reads it goes through. -/
theorem exists_accounts (ends : Bool) (hkept : newline ∉ c.kept) (h : c.IsAllowed limit) :
    ∃ extra reached, Reaches ends c.items extra reached (c.outcome limit ends).2.2
      ∧ Accounts limit c.kept c.unread reached (c.outcome limit ends).1
          (c.outcome limit ends).2.1 := by
  induction c using outcome_induction with
  | hexit c out hexit => exact hexit.exists_accounts hkept h
  | honward c c' out hon ih =>
      exact hon.exists_accounts h (ih (hon.newline_not_mem hkept) (hon.isAllowed h))

end Pass

/-! ## Calls one after the other -/

/-- The answers of `n` calls, and the reader and the stream after them.  A
call that finds nothing ready is given up, and the next one starts anew. -/
def calls (r : Framer) (i : Inlet) : Nat → List ReadResult × Framer × Inlet
  | 0 => ([], r, i)
  | n + 1 =>
      let (result, r, i) := r.next i
      let (results, r, i) := calls r i n
      (result :: results, r, i)

theorem allows_of_fits {limit : Option UInt64} {kept : Nat} {marks : List Mark}
    (hwithin : ∀ m, limit = some m → kept ≤ m.toNat) (h : Fits limit kept marks) :
    Allows limit (budget limit kept).toNat kept marks := by
  cases hlim : isLimited limit with
  | true =>
      obtain ⟨m, rfl, hm⟩ := exists_of_isLimited hlim
      have hsum := budget_of_limited hm (hwithin m rfl)
      have := hwithin m rfl
      exact .limited m rfl hlim (by omega) hsum
  | false =>
      obtain ⟨hkept, hfit⟩ : kept < unlimited.toNat ∧ Frame.LinesFit kept marks := by
        rcases h with h | h
        · rw [hlim] at h
          exact absurd h Bool.false_ne_true
        · exact h
      rw [budget_of_not_limited kept hlim]
      exact .unlimited hlim hkept (by omega) hfit

theorem Fits.append_afterwards {limit : Option UInt64} {length : Nat} {marks : List Mark}
    (ends : Bool) (extra : Nat) (h : Fits limit length marks) :
    Fits limit length
      (marks ++ (List.replicate extra (afterwards ends)).flatMap Delivery.marks) := by
  refine h.imp_right fun h => ⟨h.1, h.2.append ?_⟩
  induction extra with
  | zero => exact fun _ => trivial
  | succ extra ih =>
      intro length
      cases ends with
      | true => exact ih 0
      | false => exact ih length

/-- A reader between two calls, with what its stream has ready. -/
structure Between (r : Framer) (i : Inlet) : Prop where
  newline_not_mem : newline ∉ r.kept
  within : ∀ m, r.limit = some m → r.kept.length ≤ m.toNat
  fits : Fits r.limit r.kept.length (r.unread.map .byte ++ i.items.flatMap Delivery.marks)

/-- One call accounts for the reads that it reached, and leaves a reader
between two calls. -/
theorem Between.next {r : Framer} {i : Inlet} (h : Between r i) :
    ∃ extra reached, Reaches i.ends i.items extra reached (r.next i).2.2.items
      ∧ Accounts r.limit r.kept r.unread reached (r.next i).1 (r.next i).2.1
      ∧ Between (r.next i).2.1 (r.next i).2.2 := by
  obtain ⟨extra, reached, hreach, hacc⟩ :
      ∃ extra reached, Reaches i.ends i.items extra reached (r.next i).2.2.items
        ∧ Accounts r.limit r.kept r.unread reached (r.next i).1 (r.next i).2.1 :=
    Pass.exists_accounts (c := Pass.start r i) i.ends h.newline_not_mem
      (allows_of_fits h.within h.fits)
  refine ⟨extra, reached, hreach, hacc, hacc.newline_not_mem, ?_, ?_⟩
  · exact fun m hm => hacc.within m (hacc.limit_eq.symm.trans hm)
  · have hfit := h.fits.append_afterwards i.ends extra
    rw [List.append_assoc, ← List.flatMap_append, hreach.split, List.flatMap_append] at hfit
    have hlimit : (r.next i).2.1.limit = r.limit := hacc.limit_eq
    rw [hlimit]
    exact hacc.fits _ hfit

theorem Between.calls {r : Framer} {i : Inlet} (n : Nat) (h : Between r i) :
    ∃ extra reached, Reaches i.ends i.items extra reached (r.calls i n).2.2.items
      ∧ (∀ marks, (r.calls i n).1.filterMap ReadResult.frame?
          ++ Frame.ofMarks r.limit (r.calls i n).2.1.kept
              ((r.calls i n).2.1.unread.map .byte ++ marks)
        = Frame.ofMarks r.limit r.kept
            (r.unread.map .byte ++ (reached.flatMap Delivery.marks ++ marks)))
      ∧ (r.calls i n).1.filterMap ReadResult.gap? = reached.filterMap Delivery.gap? := by
  induction n generalizing r i with
  | zero => exact ⟨0, [], ⟨by simp [Framer.calls], fun _ => rfl⟩, by simp [Framer.calls], rfl⟩
  | succ n ih =>
      obtain ⟨extra, reached, hreach, hacc, hnext⟩ := h.next
      obtain ⟨extra', reached', hreach', hframes, hgaps⟩ := ih hnext
      rw [ends_next] at hreach'
      refine ⟨extra + extra', reached ++ reached', hreach.trans hreach', ?_, ?_⟩
      · intro marks
        have := hframes marks
        rw [hacc.limit_eq] at this
        rw [List.flatMap_append, List.append_assoc, ← hacc.frames, ← this]
        cases hframe : (r.next i).1.frame? <;> simp [Framer.calls, hframe]
      · rw [List.filterMap_append, ← hgaps, ← hacc.gaps]
        cases hgap : (r.next i).1.gap? <;> simp [Framer.calls, hgap]

theorem length_calls (r : Framer) (i : Inlet) (n : Nat) : (r.calls i n).1.length = n := by
  induction n generalizing r i with
  | zero => rfl
  | succ n ih => simp [calls, ih]

/-! ## Calls get on -/

/-- What a reader and its stream have ready: bytes, and reads. -/
def supply (unread : Bytes) (items : List Delivery) : Nat :=
  unread.length + items.length + (items.flatMap Delivery.marks).length

theorem NextRead.supply_le {ends : Bool} {items rest : List Delivery} {d : Delivery}
    (h : NextRead ends items d rest) (unread : Bytes) :
    supply [] rest ≤ supply unread items - 1 := by
  cases h with
  | listed =>
      simp only [supply, List.length_nil, List.length_cons, List.flatMap_cons, List.length_append]
      omega
  | afterwards => exact Nat.zero_le _

namespace Pass

variable {ends : Bool} {c c' : Pass} {out : ReadResult × Framer × List Delivery}

theorem length_rest_lt (hpos : 0 < c.budget) (hover : c.isOver = true) :
    c.rest.length < c.unread.length := by
  have hlength := congrArg List.length c.taken_append_rest
  rw [List.length_append] at hlength
  have := List.length_pos_iff.2 (taken_ne_nil hpos hover)
  omega

/-- A call that is over has used up a byte or a read, if there was any. -/
theorem Exits.supply_le (hexit : Exits limit ends c out) (hpos : 0 < c.budget) :
    supply out.2.1.unread out.2.2 ≤ supply c.unread c.items - 1 := by
  cases hexit with
  | complete hover =>
      have := length_rest_lt hpos hover
      simp only [supply, afterCall]
      omega
  | ended _ hnext _ | failed _ hnext _ | notReady _ hnext =>
      exact hnext.supply_le c.unread

theorem Onward.supply_lt (hon : Onward c c') :
    supply c'.unread c'.items < supply c.unread c.items := by
  cases hon with
  | block _ hitems =>
      simp only [supply, onto, hitems, List.length_cons, List.flatMap_cons, List.length_append,
        Delivery.marks, List.length_map]
      omega
  | again _ hitems _ =>
      simp only [supply, onto, hitems, List.length_cons, List.flatMap_cons, List.length_append,
        List.length_nil]
      omega

/-- A call uses up a byte or a read, if there is any. -/
theorem supply_outcome (limit : Option UInt64) (ends : Bool) (hpos : 0 < c.budget) :
    supply (c.outcome limit ends).2.1.unread (c.outcome limit ends).2.2
      ≤ supply c.unread c.items - 1 := by
  induction c using outcome_induction with
  | hexit c out hexit => exact hexit.supply_le hpos
  | honward c c' out hon ih =>
      have := ih hon.budget_pos
      have := hon.supply_lt
      omega

end Pass

theorem Between.supply_calls {r : Framer} {i : Inlet} (n : Nat) (h : Between r i) :
    supply (r.calls i n).2.1.unread (r.calls i n).2.2.items ≤ supply r.unread i.items - n := by
  induction n generalizing r i with
  | zero => exact Nat.le_refl _
  | succ n ih =>
      obtain ⟨-, -, -, -, hnext⟩ := h.next
      have hone : supply (r.next i).2.1.unread (r.next i).2.2.items ≤ supply r.unread i.items - 1 :=
        Pass.supply_outcome (c := Pass.start r i) r.limit i.ends
          (allows_of_fits h.within h.fits).pos
      have hrest := ih hnext
      show supply ((r.next i).2.1.calls (r.next i).2.2 n).2.1.unread
        ((r.next i).2.1.calls (r.next i).2.2 n).2.2.items ≤ _
      omega

end Framer

/-! ## The answers are the frames -/

/-- On every stream, of reads of any size with gaps and ends anywhere, any
number of calls of a reader answer the frames of what they reached, up to
the bytes not yet looked at, and one gap for each gap that they reached.
Calls enough for all that is listed reach all of it.  -/
theorem Framer.frames_of_calls (limit : Option UInt64) (script : List Delivery) (ends : Bool)
    (n : Nat) (hfit : Fits limit 0 (script.flatMap Delivery.marks)) :
    let i : Inlet := ⟨script.flatMap Delivery.reads, ends⟩
    let after := (Framer.mk limit [] []).calls i n
    ∃ extra reached rest,
      script.flatMap Delivery.reads ++ List.replicate extra (afterwards ends) = reached ++ rest
      ∧ after.1.filterMap ReadResult.frame?
          ++ Frame.ofMarks limit after.2.1.kept (after.2.1.unread.map .byte)
        = Frame.ofMarks limit [] (reached.flatMap Delivery.marks)
      ∧ after.1.filterMap ReadResult.gap? = reached.filterMap Delivery.gap?
      ∧ after.1.length = n
      ∧ ((script.flatMap Delivery.reads).length + (script.flatMap Delivery.marks).length ≤ n →
          rest = [] ∧ after.1.filterMap ReadResult.frame?
            = Frame.ofMarks limit [] (script.flatMap Delivery.marks
                ++ (List.replicate extra (afterwards ends)).flatMap Delivery.marks)) := by
  intro i after
  have hmarks : (script.flatMap Delivery.reads).flatMap Delivery.marks
      = script.flatMap Delivery.marks := by
    rw [List.flatMap_assoc]
    exact List.flatMap_congr fun d _ => d.flatMap_marks_reads
  have hstart : Between (Framer.mk limit [] []) i :=
    ⟨List.not_mem_nil, fun m _ => Nat.zero_le _, by simpa [i, hmarks] using hfit⟩
  obtain ⟨extra, reached, hreach, hframes, hgaps⟩ := hstart.calls n
  have hall := hframes []
  simp only [List.append_nil, List.map_nil, List.nil_append] at hall
  refine ⟨extra, reached, after.2.2.items, hreach.split, hall, hgaps,
    length_calls _ _ n, ?_⟩
  intro hn
  have hready : supply [] i.items
      = (script.flatMap Delivery.reads).length + (script.flatMap Delivery.marks).length := by
    simp [supply, i, hmarks]
  have hsupply : supply after.2.1.unread after.2.2.items ≤ supply [] i.items - n :=
    hstart.supply_calls n
  have hused : supply after.2.1.unread after.2.2.items = 0 := by omega
  have hunread : after.2.1.unread = [] := by
    rw [← List.length_eq_zero_iff]
    simp only [supply] at hused
    omega
  have hitems : after.2.2.items = [] := by
    rw [← List.length_eq_zero_iff]
    simp only [supply] at hused
    omega
  have hsplit := hreach.split
  rw [show ((Framer.mk limit [] []).calls i n).2.2.items = [] from hitems,
    List.append_nil] at hsplit
  refine ⟨hitems, ?_⟩
  rw [← hsplit, List.flatMap_append, hmarks] at hall
  simpa [after, hunread, Frame.ofMarks] using hall

/-- A line in three reads, with a point at which nothing is ready and a
failure between them. -/
theorem Framer.frames_of_calls_over_gaps :
    let script := [.data [97], .notReady, .data [98], .failed ⟨.connectionReset, none⟩,
      .data [carriageReturn, newline], .data [99]]
    let after := (Framer.mk none [] []).calls ⟨script.flatMap Delivery.reads, true⟩ 20
    Fits none 0 (script.flatMap Delivery.marks)
    ∧ ∃ extra reached rest,
      script.flatMap Delivery.reads ++ List.replicate extra (afterwards true) = reached ++ rest
      ∧ after.1.filterMap ReadResult.frame?
          ++ Frame.ofMarks none after.2.1.kept (after.2.1.unread.map .byte)
        = Frame.ofMarks none [] (reached.flatMap Delivery.marks)
      ∧ after.1.filterMap ReadResult.gap? = reached.filterMap Delivery.gap?
      ∧ after.1.length = 20
      ∧ ((script.flatMap Delivery.reads).length + (script.flatMap Delivery.marks).length ≤ 20 →
          rest = [] ∧ after.1.filterMap ReadResult.frame?
            = Frame.ofMarks none [] (script.flatMap Delivery.marks
                ++ (List.replicate extra (afterwards true)).flatMap Delivery.marks)) :=
  ⟨by decide, Framer.frames_of_calls none _ true 20 (by decide)⟩

/-- A read that was only interrupted is reached and answered by nothing:
the one call answers the end after it. -/
theorem Framer.interrupted_read_is_made_again :
    let script := [Delivery.failed ⟨.interrupted, none⟩]
    let after := (Framer.mk none [] []).calls ⟨script, true⟩ 1
    after.1 = [.ended] ∧ after.2.2.items = []
      ∧ after.1.countP (·.gap?.isSome) ≠ script.countP (·.marks.isEmpty) := by
  decide

end LineRelay
