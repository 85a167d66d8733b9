/-
# The lines before a stream breaks

One who reads a stream until it breaks has the lines of it up to there:
up to its first end, its first failure, or its first line over the limit.
`completeLines` reads them off the stream alone, and `Breaks` says that it
does break.  Nothing that comes after a break changes either.

A reader that is called until it answers no line has read exactly these
lines.  `Follows` says how far it is on the way there,

| after a call that answers | the reader |
| :-- | :-- |
| a line | follows, with one line more (`Follows.next_line`) |
| nothing ready | follows, with the same lines (`Follows.next_notReady`) |
| an end or an error | has come to the break (`Follows.next_stop`) |

and one that has nothing left to look at has all lines there are
(`Follows.all_lines`).
-/
import LineRelay.Proofs.Framing.Streaming

namespace LineRelay

/-! ## Leading lines -/

namespace Frame

/-- Whether a frame is where an end was. -/
def isEnd : Frame → Bool
  | .ended | .unterminated _ => true
  | .line _ | .tooLong _ => false

/-- The lines before the first frame that is none. -/
def leading : List Frame → List Bytes
  | .line bs :: frames => bs :: leading frames
  | _ => []

/-- Whether some frame is no line. -/
def Stops (frames : List Frame) : Prop := ∃ f ∈ frames, ∀ bs, f ≠ .line bs

theorem leading_lines_append (ls : List Line) (frames : List Frame) :
    leading (ls.map (.line ·.bytes) ++ frames) = ls.map (·.bytes) ++ leading frames := by
  induction ls with
  | nil => rfl
  | cons l ls ih => simp [leading, ih]

theorem leading_lines (ls : List Line) : leading (ls.map (.line ·.bytes)) = ls.map (·.bytes) := by
  have := leading_lines_append ls []
  simpa [leading] using this

theorem leading_append_prefix (frames more : List Frame) :
    leading frames <+: leading (frames ++ more) := by
  induction frames with
  | nil => exact List.nil_prefix
  | cons f frames ih =>
      cases f with
      | line bs => simpa [leading] using ih
      | ended | unterminated _ | tooLong _ => exact List.prefix_rfl

theorem leading_append_of_stops {frames : List Frame} (h : Stops frames) (more : List Frame) :
    leading (frames ++ more) = leading frames := by
  induction frames with
  | nil =>
      obtain ⟨f, hf, -⟩ := h
      cases hf
  | cons f frames ih =>
      cases f with
      | ended | unterminated _ | tooLong _ => rfl
      | line bs =>
          obtain ⟨f, hf, hno⟩ := h
          have hrest : Stops frames := by
            rcases List.mem_cons.1 hf with rfl | hf
            · exact absurd rfl (hno bs)
            · exact ⟨f, hf, hno⟩
          simp [leading, ih hrest]

/-- What is framed stays framed when more comes. -/
theorem ofMarks_append_prefix (limit : Option UInt64) (line : Bytes) (marks more : List Mark) :
    ofMarks limit line marks <+: ofMarks limit line (marks ++ more) := by
  induction marks generalizing line with
  | nil => exact List.nil_prefix
  | cons mark marks ih =>
      cases mark with
      | ended => simpa [ofMarks] using ih []
      | byte b =>
          simp only [List.cons_append, ofMarks]
          split_ifs
          · simpa using ih []
          · cases exceeded limit (line.length + 1) with
            | some m => simpa using ih []
            | none => exact ih (line ++ [b])

/-- An end adds its frame. -/
theorem exists_ofMarks_ended (limit : Option UInt64) (line : Bytes) (marks : List Mark) :
    ∃ rest, ofMarks limit line (marks ++ [.ended]) = ofMarks limit line marks ++ [atEnd rest] := by
  induction marks generalizing line with
  | nil => exact ⟨line, rfl⟩
  | cons mark marks ih =>
      cases mark with
      | ended =>
          obtain ⟨rest, hrest⟩ := ih []
          exact ⟨rest, by simp [ofMarks, hrest]⟩
      | byte b =>
          simp only [List.cons_append, ofMarks]
          split_ifs
          · obtain ⟨rest, hrest⟩ := ih []
            exact ⟨rest, by simp [hrest]⟩
          · cases exceeded limit (line.length + 1) with
            | some m =>
                obtain ⟨rest, hrest⟩ := ih []
                exact ⟨rest, by simp [hrest]⟩
            | none => exact ih (line ++ [b])

theorem leading_append_atEnd (frames : List Frame) (line : Bytes) :
    leading (frames ++ [atEnd line]) = leading frames := by
  induction frames with
  | nil => cases line <;> rfl
  | cons f frames ih =>
      cases f with
      | line bs => simp [leading, ih]
      | ended | unterminated _ | tooLong _ => rfl

/-- There is one frame of an end for each end. -/
theorem countP_isEnd_ofMarks (limit : Option UInt64) (line : Bytes) (marks : List Mark) :
    (ofMarks limit line marks).countP isEnd = marks.count .ended := by
  induction marks generalizing line with
  | nil => rfl
  | cons mark marks ih =>
      cases mark with
      | ended =>
          have hend : isEnd (atEnd line) = true := by cases line <;> rfl
          rw [ofMarks, List.countP_cons_of_pos hend, ih, List.count_cons_self]
      | byte b =>
          simp only [ofMarks]
          split_ifs
          · simp [isEnd, ih]
          · cases exceeded limit (line.length + 1) with
            | some m => simp [isEnd, ih]
            | none => simp [ih]

end Frame

/-! ## Signs -/

/-- What a read says of the stream: its marks, or that it failed.  One that
was only interrupted or found nothing says nothing. -/
def Delivery.signs : Delivery → List (Option Mark)
  | .failed f => if f.kind = .interrupted then [] else [none]
  | d => d.marks.map some

/-- The marks before the first failure. -/
def untilFailure : List (Option Mark) → List Mark
  | some mark :: signs => mark :: untilFailure signs
  | _ => []

/-- The complete lines of a stream before its first end, its first failure
or its first line over the limit. -/
def completeLines (limit : Option UInt64) (signs : List (Option Mark)) : List Bytes :=
  Frame.leading (Frame.ofMarks limit [] (untilFailure signs))

/-- The stream has an end, a failure or a line over the limit. -/
def Breaks (limit : Option UInt64) (signs : List (Option Mark)) : Prop :=
  none ∈ signs ∨ Frame.Stops (Frame.ofMarks limit [] (untilFailure signs))

theorem untilFailure_some_append (marks : List Mark) (signs : List (Option Mark)) :
    untilFailure (marks.map some ++ signs) = marks ++ untilFailure signs := by
  induction marks with
  | nil => rfl
  | cons mark marks ih => simp [untilFailure, ih]

@[simp] theorem untilFailure_some (marks : List Mark) : untilFailure (marks.map some) = marks := by
  have := untilFailure_some_append marks []
  simpa [untilFailure] using this

/-- What comes later adds marks, unless there was a failure. -/
theorem untilFailure_append (signs more : List (Option Mark)) :
    untilFailure (signs ++ more)
      = untilFailure signs ++ if none ∈ signs then [] else untilFailure more := by
  induction signs with
  | nil => simp [untilFailure]
  | cons sign signs ih =>
      cases sign with
      | none => simp [untilFailure]
      | some mark => simp [untilFailure, ih]

/-- The complete lines stay when more comes. -/
theorem completeLines_append_prefix (limit : Option UInt64) (signs more : List (Option Mark)) :
    completeLines limit signs <+: completeLines limit (signs ++ more) := by
  unfold completeLines
  rw [untilFailure_append]
  obtain ⟨frames, hframes⟩ := Frame.ofMarks_append_prefix limit [] (untilFailure signs)
    (if none ∈ signs then [] else untilFailure more)
  rw [← hframes]
  exact Frame.leading_append_prefix _ _

section Breaks

variable {limit : Option UInt64} {signs : List (Option Mark)}

theorem Breaks.append (h : Breaks limit signs) (more : List (Option Mark)) :
    Breaks limit (signs ++ more) := by
  rcases h with h | ⟨f, hf, hno⟩
  · exact .inl (List.mem_append_left _ h)
  · refine .inr ⟨f, ?_, hno⟩
    rw [untilFailure_append]
    exact (Frame.ofMarks_append_prefix limit [] _ _).subset hf

/-- Nothing after a break counts. -/
theorem Breaks.completeLines_append (h : Breaks limit signs) (more : List (Option Mark)) :
    completeLines limit (signs ++ more) = completeLines limit signs := by
  unfold completeLines
  rw [untilFailure_append]
  rcases h with h | h
  · rw [if_pos h, List.append_nil]
  · obtain ⟨frames, hframes⟩ := Frame.ofMarks_append_prefix limit [] (untilFailure signs)
      (if none ∈ signs then [] else untilFailure more)
    rw [← hframes]
    exact Frame.leading_append_of_stops h frames

end Breaks

/-- The marks that reads say. -/
theorem reduceOption_signs (ds : List Delivery) :
    (ds.flatMap Delivery.signs).reduceOption = ds.flatMap Delivery.marks := by
  induction ds with
  | nil => rfl
  | cons d ds ih =>
      have hd : d.signs.reduceOption = d.marks := by
        match d with
        | .failed f =>
            simp only [Delivery.signs, Delivery.marks_failed]
            split_ifs <;> rfl
        | .data _ | .ended | .notReady =>
            simp [Delivery.signs, List.reduceOption, List.filterMap_map]
      rw [List.flatMap_cons, List.flatMap_cons, List.reduceOption_append, hd, ih]

theorem untilFailure_prefix (signs : List (Option Mark)) :
    untilFailure signs <+: signs.reduceOption := by
  induction signs with
  | nil => exact List.prefix_rfl
  | cons sign signs ih =>
      cases sign with
      | none => exact List.nil_prefix
      | some mark => simpa [untilFailure, List.reduceOption_cons_of_some] using ih

/-- Whether a gap is a failure. -/
def Gap.isFailure : Gap → Bool
  | .notReady => false
  | .failed _ => true

/-- Reads of which none fails say what they contribute. -/
theorem signs_of_no_failure (ds : List Delivery)
    (h : ∀ g ∈ ds.filterMap Delivery.gap?, g.isFailure = false) :
    ds.flatMap Delivery.signs = (ds.flatMap Delivery.marks).map some := by
  induction ds with
  | nil => rfl
  | cons d ds ih =>
      have hd : d.signs = d.marks.map some := by
        match d with
        | .failed f =>
            by_cases hf : f.kind = .interrupted
            · simp [Delivery.signs, hf]
            · have := h (.failed f) (by simp [Delivery.gap?, hf])
              cases this
        | .data _ | .ended | .notReady => rfl
      have hrest := ih fun g hg => by
        refine h g ?_
        cases hgap : d.gap? with
        | none => rwa [List.filterMap_cons_none hgap]
        | some g' =>
            rw [List.filterMap_cons_some hgap]
            exact List.mem_cons_of_mem _ hg
      rw [List.flatMap_cons, List.flatMap_cons, List.map_append, hd, hrest]

/-- Reads of which one fails say so. -/
theorem none_mem_signs {ds : List Delivery} {f : Failure}
    (h : Gap.failed f ∈ ds.filterMap Delivery.gap?) : none ∈ ds.flatMap Delivery.signs := by
  obtain ⟨d, hd, hgap⟩ := List.mem_filterMap.1 h
  refine List.mem_flatMap.2 ⟨d, hd, ?_⟩
  match d with
  | .failed f' =>
      have hf : f'.kind ≠ .interrupted := fun e => by simp [Delivery.gap?, e] at hgap
      simp [Delivery.signs, hf]
  | .notReady | .data _ | .ended => cases hgap

/-- What a stream is known to say: what is ready, and its end if it ends of
itself. -/
def Inlet.signs (i : Inlet) : List (Option Mark) :=
  i.items.flatMap Delivery.signs ++ if i.ends then [some .ended] else []

/-- An end completes no line. -/
theorem completeLines_append_ended (limit : Option UInt64) (signs : List (Option Mark)) :
    completeLines limit (signs ++ [some .ended]) = completeLines limit signs := by
  unfold completeLines
  rw [untilFailure_append]
  split_ifs
  · rw [List.append_nil]
  · obtain ⟨line, hline⟩ := Frame.exists_ofMarks_ended limit [] (untilFailure signs)
    rw [show untilFailure [some Mark.ended] = [.ended] from rfl, hline]
    exact Frame.leading_append_atEnd _ line

/-- The complete lines of a stream stay when it is supplied more. -/
theorem Inlet.completeLines_prefix (limit : Option UInt64) (i : Inlet) (ds : List Delivery) :
    completeLines limit i.signs
      <+: completeLines limit (Inlet.mk (i.items ++ ds) i.ends).signs := by
  have hends : ∀ items : List Delivery, completeLines limit (Inlet.mk items i.ends).signs
      = completeLines limit (items.flatMap Delivery.signs) := by
    intro items
    unfold Inlet.signs
    cases i.ends with
    | false => rw [if_neg Bool.false_ne_true, List.append_nil]
    | true => rw [if_pos rfl, completeLines_append_ended]
  rw [show i.signs = (Inlet.mk i.items i.ends).signs from rfl, hends, hends, List.flatMap_append]
  exact completeLines_append_prefix limit _ _

/-! ## Readers on their way -/

/-- A reader has read the lines `ls` from the marks `used`, and what comes
next it frames as it is framed after those. -/
structure Framer.Follows (limit : Option UInt64) (r : Framer) (used : List Mark)
    (ls : List Line) : Prop where
  limit_eq : r.limit = limit
  newline_not_mem : newline ∉ r.kept
  within : ∀ m, limit = some m → r.kept.length ≤ m.toNat
  frames : ∀ marks, ls.map (.line ·.bytes) ++ Frame.ofMarks limit r.kept
      (r.unread.map .byte ++ marks) = Frame.ofMarks limit [] (used ++ marks)
  fits : ∀ marks, Fits limit 0 (used ++ marks) →
    Fits limit r.kept.length (r.unread.map .byte ++ marks)

theorem Frame.LinesFit.of_append {length : Nat} {marks more : List Mark}
    (h : LinesFit length (marks ++ more)) : LinesFit length marks := by
  induction marks generalizing length with
  | nil => trivial
  | cons mark marks ih =>
      cases mark with
      | ended => exact ih h
      | byte b =>
          simp only [List.cons_append, LinesFit] at h ⊢
          split_ifs at h ⊢
          · exact ih h
          · exact ⟨h.1, ih h.2⟩

namespace Framer

theorem Fits.of_append {limit : Option UInt64} {length : Nat} {marks more : List Mark}
    (h : Fits limit length (marks ++ more)) : Fits limit length marks :=
  h.imp_right fun h => ⟨h.1, h.2.of_append⟩

theorem follows_start (limit : Option UInt64) : Follows limit ⟨limit, [], []⟩ [] [] :=
  ⟨rfl, List.not_mem_nil, fun _ _ => Nat.zero_le _, fun _ => rfl, fun _ h => h⟩

variable {limit : Option UInt64} {r r' : Framer} {used : List Mark} {ls ls' : List Line}
  {reached : List Delivery} {result : ReadResult} {i i' : Inlet}

/-- Wherever a reader is, its lines are the first ones. -/
theorem Follows.lines_prefix (h : r.Follows limit used ls) (signs : List (Option Mark)) :
    ls.map (·.bytes) <+: completeLines limit (used.map some ++ signs) := by
  have hframes := h.frames (untilFailure signs)
  rw [completeLines, untilFailure_some_append, ← hframes, Frame.leading_lines_append]
  exact List.prefix_append _ _

/-- A reader with nothing left to look at has read all complete lines. -/
theorem Follows.all_lines (h : r.Follows limit used ls) (hunread : r.unread = []) :
    ls.map (·.bytes) = completeLines limit (used.map some) := by
  have hframes := h.frames []
  rw [hunread, List.append_nil, List.map_nil, List.append_nil, Frame.ofMarks,
    List.append_nil] at hframes
  rw [completeLines, untilFailure_some, ← hframes, Frame.leading_lines]

/-- A call that answers no frame but lines leaves a reader on its way. -/
theorem Follows.step (h : r.Follows limit used ls)
    (hacc : Accounts limit r.kept r.unread reached result r')
    (hls : ls'.map (Frame.line ·.bytes)
      = ls.map (Frame.line ·.bytes) ++ result.frame?.toList) :
    r'.Follows limit (used ++ reached.flatMap Delivery.marks) ls' where
  limit_eq := hacc.limit_eq
  newline_not_mem := hacc.newline_not_mem
  within := hacc.within
  frames := by
    intro marks
    rw [hls, List.append_assoc, hacc.frames, h.frames, List.append_assoc]
  fits := by
    intro marks hfit
    rw [List.append_assoc] at hfit
    exact hacc.fits marks (h.fits _ hfit)

/-- The next call of a reader on its way. -/
theorem Follows.exists_accounts (h : r.Follows limit used ls)
    (hfit : Fits limit 0 (used ++ i.items.flatMap Delivery.marks))
    (hnext : r.next i = (result, r', i')) :
    ∃ extra reached, Reaches i.ends i.items extra reached i'.items
      ∧ Accounts limit r.kept r.unread reached result r' := by
  have hlimit := h.limit_eq
  have hwithin : ∀ m, r.limit = some m → r.kept.length ≤ m.toNat := hlimit ▸ h.within
  have hfit' : Fits r.limit r.kept.length (r.unread.map .byte ++ i.items.flatMap Delivery.marks) :=
    hlimit ▸ h.fits _ hfit
  have hstart : Between r i := ⟨h.newline_not_mem, hwithin, hfit'⟩
  obtain ⟨extra, reached, hreach, hacc, -⟩ := hstart.next
  rw [hnext, hlimit] at hacc
  rw [hnext] at hreach
  exact ⟨extra, reached, hreach, hacc⟩

/-- A call reaches an end for each end that it answers. -/
theorem Accounts.count_ended {kept unread : Bytes}
    (hacc : Accounts limit kept unread reached result r') :
    (reached.flatMap Delivery.marks).count .ended = result.frame?.toList.countP Frame.isEnd := by
  have hbytes : ∀ bs : Bytes, (bs.map Mark.byte).count .ended = 0 := fun bs =>
    List.count_eq_zero.2 fun h => by simp at h
  have hframes := congrArg (List.countP Frame.isEnd) (hacc.frames [])
  rw [List.countP_append, Frame.countP_isEnd_ofMarks, Frame.countP_isEnd_ofMarks,
    List.count_append, List.count_append, List.count_append, hbytes, hbytes] at hframes
  simpa using hframes.symm

/-! ### The reads that a call reaches, and what the stream says -/

section Reaches

variable {extra : Nat}

/-- What a call reaches at an end that comes of itself. -/
theorem Reaches.extra_of_ends (h : Reaches i.ends i.items extra reached i'.items)
    (hends : i.ends = true) : extra ≤ (reached.flatMap Delivery.marks).count .ended := by
  rcases Nat.eq_zero_or_pos extra with rfl | hpos
  · exact Nat.zero_le _
  · have hrest : i'.items = [] := by
      by_contra hne
      exact hpos.ne' (h.in_order hne)
    have hsplit := h.split
    rw [hrest, List.append_nil, hends] at hsplit
    rw [← hsplit, List.flatMap_append, List.count_append, List.flatMap_replicate]
    simp [afterwards]

theorem signs_replicate_notReady (extra : Nat) :
    (List.replicate extra (afterwards false)).flatMap Delivery.signs = [] := by
  simp [afterwards, Delivery.signs, List.flatMap_replicate]

/-- What a call reaches is the beginning of what the stream says, if it
comes to no more than one end. -/
theorem Reaches.signs_prefix (h : Reaches i.ends i.items extra reached i'.items)
    (hone : (reached.flatMap Delivery.marks).count .ended ≤ 1) :
    reached.flatMap Delivery.signs <+: i.signs := by
  have hsplit := congrArg (List.flatMap Delivery.signs) h.split
  rw [List.flatMap_append, List.flatMap_append] at hsplit
  cases hends : i.ends with
  | false =>
      rw [hends, signs_replicate_notReady, List.append_nil] at hsplit
      rw [Inlet.signs, hsplit, List.append_assoc]
      exact List.prefix_append _ _
  | true =>
      have hextra := h.extra_of_ends hends
      rw [hends] at hsplit
      obtain rfl | rfl : extra = 0 ∨ extra = 1 := by omega
      · rw [List.replicate_zero, List.flatMap_nil, List.append_nil] at hsplit
        rw [Inlet.signs, hsplit, List.append_assoc]
        exact List.prefix_append _ _
      · rw [Inlet.signs, hends,
          show (if true = true then [some Mark.ended] else [])
            = (List.replicate 1 (afterwards true)).flatMap Delivery.signs from rfl, hsplit]
        exact List.prefix_append _ _

/-- What a call leaves is the rest of what is ready, if it comes to no end. -/
theorem Reaches.signs_eq (h : Reaches i.ends i.items extra reached i'.items)
    (hnone : (reached.flatMap Delivery.marks).count .ended = 0) :
    i.items.flatMap Delivery.signs
      = reached.flatMap Delivery.signs ++ i'.items.flatMap Delivery.signs := by
  have hsplit := congrArg (List.flatMap Delivery.signs) h.split
  rw [List.flatMap_append, List.flatMap_append] at hsplit
  rw [← hsplit]
  cases hends : i.ends with
  | false => rw [signs_replicate_notReady, List.append_nil]
  | true =>
      obtain rfl : extra = 0 := by
        have := h.extra_of_ends hends
        omega
      simp

end Reaches

/-! ### What a call means for a reader on its way -/

theorem ends_of_next {result : ReadResult} (hnext : r.next i = (result, r', i')) :
    i'.ends = i.ends := by
  have := ends_next r i
  rwa [hnext] at this

/-- A call that answers a line has used up what that line took. -/
theorem Follows.next_line {l : Line} (h : r.Follows limit used ls)
    (hfit : Fits limit 0 (used ++ i.items.flatMap Delivery.marks))
    (hnext : r.next i = (.line l, r', i')) :
    ∃ more, i.items.flatMap Delivery.signs = more.map some ++ i'.items.flatMap Delivery.signs
      ∧ r'.Follows limit (used ++ more) (ls ++ [l]) := by
  obtain ⟨extra, reached, hreach, hacc⟩ := h.exists_accounts hfit hnext
  have hgaps : reached.filterMap Delivery.gap? = [] := hacc.gaps.symm
  have hsigns := signs_of_no_failure reached fun g hg => by
    rw [hgaps] at hg
    cases hg
  exact ⟨reached.flatMap Delivery.marks,
    hsigns ▸ hreach.signs_eq hacc.count_ended,
    h.step hacc (by rw [List.map_append]; rfl)⟩

/-- A call that finds nothing ready keeps what it used up. -/
theorem Follows.next_notReady (h : r.Follows limit used ls)
    (hfit : Fits limit 0 (used ++ i.items.flatMap Delivery.marks))
    (hnext : r.next i = (.notReady, r', i')) :
    ∃ more, i.items.flatMap Delivery.signs = more.map some ++ i'.items.flatMap Delivery.signs
      ∧ r'.Follows limit (used ++ more) ls := by
  obtain ⟨extra, reached, hreach, hacc⟩ := h.exists_accounts hfit hnext
  have hgaps : reached.filterMap Delivery.gap? = [.notReady] := hacc.gaps.symm
  have hsigns := signs_of_no_failure reached fun g hg => by
    rw [hgaps] at hg
    rw [List.mem_singleton.1 hg]
    rfl
  exact ⟨reached.flatMap Delivery.marks,
    hsigns ▸ hreach.signs_eq hacc.count_ended,
    h.step hacc (List.append_nil _).symm⟩

/-- A reader keeps its limit. -/
theorem limit_of_next {result : ReadResult} (hnext : r.next i = (result, r', i')) :
    r'.limit = r.limit := by
  have hlimit := limit_next r i
  rwa [hnext] at hlimit

/-- A call that meets a gap has looked at everything it was given. -/
theorem Pass.Exits.unread_of_gap {ends : Bool} {c : Pass} {g : Gap}
    {out : ReadResult × Framer × List Delivery} (hexit : Pass.Exits limit ends c out)
    (hgap : out.1.gap? = some g) : out.2.1.unread = [] := by
  cases hexit with
  | complete _ | ended _ _ _ =>
      rw [gap?_conclude] at hgap
      cases hgap
  | failed _ _ _ | notReady _ _ => rfl

theorem unread_of_gap {result : ReadResult} {g : Gap} (hnext : r.next i = (result, r', i'))
    (hgap : result.gap? = some g) : r'.unread = [] := by
  obtain ⟨c, -, hexit⟩ := Pass.exists_exits r.limit i.ends (Pass.start r i)
  have hunread : (r.next i).1.gap? = some g → (r.next i).2.1.unread = [] := hexit.unread_of_gap
  rw [hnext] at hunread
  exact hunread hgap

/-- What a reader has seen when it stops: a break, and no line before it
that it has not read. -/
structure Stopped (limit : Option UInt64) (seen : List (Option Mark)) (ls : List Line) : Prop where
  breaks : Breaks limit seen
  lines : ls.map (·.bytes) = completeLines limit seen

/-- A frame that is no line is a break. -/
theorem stopped_of_frames {signs : List (Option Mark)} {f : Frame} {frames : List Frame}
    (h : Frame.ofMarks limit [] (untilFailure signs)
      = ls.map (Frame.line ·.bytes) ++ f :: frames)
    (hf : ∀ bs, f ≠ .line bs) : Stopped limit signs ls := by
  refine ⟨.inr ⟨f, by simp [h], hf⟩, ?_⟩
  rw [completeLines, h, Frame.leading_lines_append]
  cases f with
  | line bs => exact absurd rfl (hf bs)
  | ended | unterminated _ | tooLong _ => simp [Frame.leading]

/-- A failure that is not made up for is a break. -/
theorem stopped_of_failure {read : List (Option Mark)} (h : r.Follows limit used ls)
    (hnone : none ∈ read)
    (hframes : Frame.ofMarks limit [] (used ++ read.reduceOption)
      = ls.map (Frame.line ·.bytes)) : Stopped limit (used.map some ++ read) ls := by
  refine ⟨.inl (List.mem_append_right _ hnone), ?_⟩
  -- no line has come with what was read before the failure
  obtain ⟨rest, hrest⟩ := untilFailure_prefix read
  have hprefix := Frame.ofMarks_append_prefix limit [] (used ++ untilFailure read) rest
  rw [List.append_assoc, hrest, hframes] at hprefix
  obtain ⟨frames, hframes'⟩ := hprefix
  have hlines : Frame.leading (Frame.ofMarks limit [] (used ++ untilFailure read))
      <+: ls.map (·.bytes) := by
    have := Frame.leading_append_prefix
      (Frame.ofMarks limit [] (used ++ untilFailure read)) frames
    rwa [hframes', Frame.leading_lines] at this
  have hle := h.lines_prefix read
  rw [completeLines, untilFailure_some_append] at hle ⊢
  exact hle.eq_of_length_le hlines.length_le

/-- A call that answers an end or an error has come to a break. -/
theorem Follows.next_stop {result : ReadResult} (h : r.Follows limit used ls)
    (hfit : Fits limit 0 (used ++ i.items.flatMap Delivery.marks))
    (hnext : r.next i = (result, r', i')) (hstop : result = .ended ∨ ∃ e, result = .failed e) :
    ∃ seen rest, used.map some ++ i.signs = seen ++ rest ∧ Stopped limit seen ls := by
  obtain ⟨extra, reached, hreach, hacc⟩ := h.exists_accounts hfit hnext
  have hone : (reached.flatMap Delivery.marks).count .ended ≤ 1 := by
    rw [hacc.count_ended]
    refine List.countP_le_length.trans ?_
    cases result.frame? <;> simp
  obtain ⟨rest, hrest⟩ := hreach.signs_prefix hone
  refine ⟨used.map some ++ reached.flatMap Delivery.signs, rest,
    by rw [List.append_assoc, hrest], ?_⟩
  have hframes := h.frames (reached.flatMap Delivery.marks)
  have hreached := hacc.frames []
  rw [List.append_nil, List.append_nil] at hreached
  cases hframe : result.frame? with
  | some f =>
      have hf : ∀ bs, f ≠ .line bs := by
        rintro bs rfl
        rcases hstop with rfl | ⟨e, rfl⟩
        · cases hframe
        · cases e <;> cases hframe
      have hgaps : reached.filterMap Delivery.gap? = [] := by
        rw [← hacc.gaps]
        rcases hstop with rfl | ⟨e, rfl⟩
        · rfl
        · match e with
          | .stream _ => cases hframe
          | .unterminated _ | .tooLong _ => rfl
      have hsigns := signs_of_no_failure reached fun g hg => by
        rw [hgaps] at hg
        cases hg
      rw [← hreached, hframe] at hframes
      have hline : Frame.ofMarks limit []
          (untilFailure (used.map some ++ reached.flatMap Delivery.signs))
          = ls.map (Frame.line ·.bytes)
            ++ f :: Frame.ofMarks limit r'.kept (r'.unread.map .byte) := by
        rw [hsigns, ← List.map_append, untilFailure_some, ← hframes]
        rfl
      exact stopped_of_frames hline hf
  | none =>
      obtain ⟨f, rfl⟩ : ∃ f, result = .failed (.stream f) := by
        rcases hstop with rfl | ⟨e, rfl⟩
        · cases hframe
        · match e with
          | .stream f => exact ⟨f, rfl⟩
          | .unterminated _ | .tooLong _ => cases hframe
      have hgaps : reached.filterMap Delivery.gap? = [.failed f] := hacc.gaps.symm
      have hunread : r'.unread = [] := unread_of_gap hnext rfl
      refine stopped_of_failure h (none_mem_signs (f := f) (by rw [hgaps]; simp)) ?_
      rw [reduceOption_signs, ← hframes, ← hreached, hunread]
      exact List.append_nil _

end Framer

end LineRelay
