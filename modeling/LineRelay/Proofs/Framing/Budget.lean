/-
# The budget of a call, and the bytes it takes

A call takes bytes until a newline, until its budget is used up, or until
nothing is ready.  Beside `takeLine`, which does the taking, stands what
framing makes of the same bytes:

    a stretch without newline within the limit   joins the line
    a stretch and a newline                      is a line
    a stretch that reaches the limit and one more  is too long

The budget is what is left of `m + 1` bytes, so the second and the third
case never meet.  Without a limit the budget is the greatest word, and a
line that reaches it would not fit into the memory of any machine:
`Frame.LinesFit` says that no line of a stream does.
-/
import Mathlib
import LineRelay.Framing.Frame

namespace LineRelay

/-! ## Taking from what is unread -/

/-- What `takeLine` takes ends in the first newline, or fills the budget
without one, or is all there is. -/
theorem takeLine_cases (n : Nat) (bs : Bytes) :
    (∃ body, (takeLine n bs).1 = body ++ [newline] ∧ newline ∉ body ∧ body.length < n)
      ∨ ((takeLine n bs).1.length = n ∧ newline ∉ (takeLine n bs).1)
      ∨ ((takeLine n bs).1.length < n ∧ newline ∉ (takeLine n bs).1
          ∧ (takeLine n bs).1 = bs ∧ (takeLine n bs).2 = []) := by
  induction bs generalizing n with
  | nil =>
      cases n with
      | zero => exact .inr (.inl ⟨rfl, by simp [takeLine]⟩)
      | succ n => exact .inr (.inr ⟨by simp [takeLine], by simp [takeLine], rfl, rfl⟩)
  | cons b bs ih =>
      cases n with
      | zero => exact .inr (.inl ⟨rfl, by simp [takeLine]⟩)
      | succ n =>
          by_cases hb : b = newline
          · exact .inl ⟨[], by simp [takeLine, hb], by simp, by simp⟩
          · have hnb : newline ≠ b := fun e => hb e.symm
            simp only [takeLine, if_neg hb]
            rcases ih n with ⟨body, htake, hbody, hlt⟩ | ⟨hlen, hmem⟩ | ⟨hlt, hmem, hall, hrest⟩
            · refine .inl ⟨b :: body, by simp [htake], ?_, by simpa using hlt⟩
              simp [hnb, hbody]
            · exact .inr (.inl ⟨by simpa using hlen, by simp [hnb, hmem]⟩)
            · exact .inr (.inr ⟨by simpa using hlt, by simp [hnb, hmem], by simp [hall], hrest⟩)

/-! ## What framing makes of a stretch of bytes -/

namespace Frame

variable {limit : Option UInt64} {line body : Bytes}

theorem exceeded_eq_none {length : Nat} (h : ∀ m, limit = some m → length ≤ m.toNat) :
    exceeded limit length = none := by
  cases limit with
  | none => rfl
  | some m =>
      have := h m rfl
      simpa [exceeded, Option.filter] using this

theorem ofMarks_newline (marks : List Mark) :
    ofMarks limit line (.byte newline :: marks)
      = .line (content line) :: ofMarks limit [] marks := by
  simp [ofMarks]

/-- A stretch without newline, all within the limit, joins the line. -/
theorem ofMarks_stretch (marks : List Mark) (hbody : newline ∉ body)
    (hlen : ∀ m, limit = some m → line.length + body.length ≤ m.toNat) :
    ofMarks limit line (body.map .byte ++ marks) = ofMarks limit (line ++ body) marks := by
  induction body generalizing line with
  | nil => simp
  | cons b body ih =>
      have hb : b ≠ newline := fun e => hbody (e ▸ List.mem_cons_self)
      have hnone : exceeded limit (line.length + 1) = none :=
        exceeded_eq_none fun m hm => by
          have := hlen m hm
          simp only [List.length_cons] at this
          omega
      have hrest : newline ∉ body := fun e => hbody (List.mem_cons_of_mem _ e)
      have := @ih (line ++ [b]) hrest fun m hm => by
        have := hlen m hm
        simp only [List.length_cons, List.length_append, List.length_nil] at this ⊢
        omega
      simpa [ofMarks, hb, hnone] using this

/-- The byte after `m` of them breaks the line. -/
theorem ofMarks_exceeded {m : UInt64} (marks : List Mark) (hm : limit = some m)
    (hbody : newline ∉ body) (hlen : line.length + body.length = m.toNat + 1)
    (hline : line.length ≤ m.toNat) :
    ofMarks limit line (body.map .byte ++ marks) = .tooLong m :: ofMarks limit [] marks := by
  have hne : body ≠ [] := by
    rintro rfl
    rw [List.length_nil] at hlen
    omega
  obtain ⟨init, b, rfl⟩ : ∃ init b, body = init ++ [b] :=
    ⟨_, _, (List.dropLast_append_getLast hne).symm⟩
  simp only [List.mem_append, List.mem_singleton, not_or] at hbody
  simp only [List.length_append, List.length_cons, List.length_nil] at hlen
  have hb : b ≠ newline := fun e => hbody.2 e.symm
  have hinit := @ofMarks_stretch limit line init (.byte b :: marks) hbody.1
    fun m' hm' => by
      obtain rfl : m' = m := Option.some.inj (hm'.symm.trans hm)
      omega
  have hover : exceeded limit ((line ++ init).length + 1) = some m := by
    have : m.toNat < line.length + init.length + 1 := by omega
    simp [exceeded, hm, Option.filter, this]
  have hlast : ofMarks limit (line ++ init) (.byte b :: marks)
      = .tooLong m :: ofMarks limit [] marks := by
    simp only [ofMarks, if_neg hb, hover]
  simpa [hlast] using hinit

/-! ## Lines that fit into a machine -/

/-- No line of the stream is as long as the greatest word, when `length`
bytes of the first one have already come. -/
def LinesFit (length : Nat) : List Mark → Prop
  | [] => True
  | .ended :: marks => LinesFit 0 marks
  | .byte b :: marks =>
      if b = newline then LinesFit 0 marks
      else length + 1 < Framer.unlimited.toNat ∧ LinesFit (length + 1) marks

instance decLinesFit : ∀ (length : Nat) (marks : List Mark), Decidable (LinesFit length marks)
  | _, [] => .isTrue trivial
  | _, .ended :: marks => decLinesFit 0 marks
  | length, .byte b :: marks =>
      have := decLinesFit 0 marks
      have := decLinesFit (length + 1) marks
      inferInstanceAs (Decidable (if b = newline then LinesFit 0 marks
        else length + 1 < Framer.unlimited.toNat ∧ LinesFit (length + 1) marks))

theorem LinesFit.append {length : Nat} {before after : List Mark} (h : LinesFit length before)
    (hafter : ∀ length, LinesFit length after) : LinesFit length (before ++ after) := by
  induction before generalizing length with
  | nil => exact hafter length
  | cons mark before ih =>
      cases mark with
      | ended => exact ih h
      | byte b =>
          by_cases hb : b = newline
          · simp only [LinesFit, List.cons_append, if_pos hb] at h ⊢
            exact ih h
          · simp only [LinesFit, List.cons_append, if_neg hb] at h ⊢
            exact ⟨h.1, ih h.2⟩

/-- After a stretch without newline the line is longer by it, and still fits. -/
theorem LinesFit.after_stretch {length : Nat} {marks : List Mark} (hbody : newline ∉ body)
    (hlength : length < Framer.unlimited.toNat)
    (h : LinesFit length (body.map .byte ++ marks)) :
    length + body.length < Framer.unlimited.toNat ∧ LinesFit (length + body.length) marks := by
  induction body generalizing length with
  | nil => exact ⟨by simpa using hlength, by simpa using h⟩
  | cons b body ih =>
      have hb : b ≠ newline := fun e => hbody (e ▸ List.mem_cons_self)
      simp only [List.map_cons, List.cons_append, LinesFit, if_neg hb] at h
      have := ih (fun e => hbody (List.mem_cons_of_mem _ e)) h.1 h.2
      simpa [Nat.add_assoc, Nat.add_comm 1] using this

theorem LinesFit.after_newline {length : Nat} {marks : List Mark} (hbody : newline ∉ body)
    (h : LinesFit length (body.map .byte ++ .byte newline :: marks)) : LinesFit 0 marks := by
  induction body generalizing length with
  | nil => simpa [LinesFit] using h
  | cons b body ih =>
      have hb : b ≠ newline := fun e => hbody (e ▸ List.mem_cons_self)
      simp only [List.map_cons, List.cons_append, LinesFit, if_neg hb] at h
      exact ih (fun e => hbody (List.mem_cons_of_mem _ e)) h.2

end Frame

/-! ## The budget -/

namespace Framer

/-- Whether a limit limits anything: its successor has to be a word. -/
def isLimited (limit : Option UInt64) : Bool := limit.any (· ≠ unlimited)

theorem exists_of_isLimited {limit : Option UInt64} (h : isLimited limit = true) :
    ∃ m, limit = some m ∧ m ≠ unlimited := by
  cases limit with
  | none => simp [isLimited] at h
  | some m => exact ⟨m, rfl, by simpa [isLimited] using h⟩

theorem budget_of_limited {m : UInt64} {kept : Nat} (hm : m ≠ unlimited) (hkept : kept ≤ m.toNat) :
    (budget (some m) kept).toNat + kept = m.toNat + 1 := by
  have hlt : m.toNat < unlimited.toNat := by
    have h1 := m.toNat_lt
    have h2 : m.toNat ≠ unlimited.toNat := fun e => hm (UInt64.toNat_inj.1 e)
    simp only [unlimited] at *
    have : (0xFFFFFFFFFFFFFFFF : UInt64).toNat = 18446744073709551615 := by decide
    omega
  have hword : kept.toUInt64.toNat = kept := by
    have := m.toNat_lt
    simp only [Nat.toUInt64_eq, UInt64.toNat_ofNat']
    omega
  have hsucc : (m + 1).toNat = m.toNat + 1 := by
    have : unlimited.toNat = 18446744073709551615 := by decide
    rw [UInt64.toNat_add]
    simp only [UInt64.toNat_one]
    omega
  have hle : kept.toUInt64 ≤ m + 1 := by
    rw [UInt64.le_iff_toNat_le, hword, hsucc]
    omega
  simp only [budget, if_neg hm, if_pos hle]
  rw [UInt64.toNat_sub_of_le _ _ hle, hword, hsucc]
  omega

theorem budget_of_not_limited {limit : Option UInt64} (kept : Nat) (h : isLimited limit = false) :
    budget limit kept = unlimited := by
  cases limit with
  | none => rfl
  | some m =>
      have : m = unlimited := by simpa [isLimited] using h
      simp [budget, this]

end Framer

end LineRelay
