/-
# The grammar of numeric settings

A numeric setting is read character by character, and the reading stops at
its first fault.  What it accepts is told here by a grammar and by the places
of the digits alone:

    digits     one or more of '0' to '9'
    numeral    digits, or a plus sign and digits
    value      the sum of the digits, each times its power of ten
    setting    white space, a numeral, white space; the value is neither 0
               nor above the greatest word

`Numeral.Spells` is the numeral with its value, `Settings.Denotes` the
setting with its own.  The bound is on the value and not on the length, so
leading zeros may be any number; the reader, which looks at the bound after
each digit, cannot go wrong there, since no further digit makes a number
smaller (`Numeral.readDigits_eq_ok`).
-/
import Mathlib
import LineRelay.Settings.Basic

namespace LineRelay

/-! ## Numerals -/

namespace Numeral

variable {bound value₀ n : Nat} {c : Char} {cs ds : List Char}

/-- One of the ten decimal digits. -/
def IsDigit (c : Char) : Prop := '0' ≤ c ∧ c ≤ '9'

/-- The number of which these are the digits, the last one that of the units. -/
def value (ds : List Char) : Nat :=
  Nat.ofDigits 10 (ds.reverse.map fun d => d.toNat - '0'.toNat)

/-- `Spells cs n`: the characters are a numeral of `n`. -/
inductive Spells : List Char → Nat → Prop
  | unsigned {ds : List Char} : ds ≠ [] → (∀ d ∈ ds, IsDigit d) → Spells ds (value ds)
  | signed {ds : List Char} : ds ≠ [] → (∀ d ∈ ds, IsDigit d) → Spells ('+' :: ds) (value ds)

theorem digit?_of_isDigit (h : IsDigit c) : digit? c = some (c.toNat - '0'.toNat) :=
  if_pos h

theorem digit?_of_not_isDigit (h : ¬ IsDigit c) : digit? c = none :=
  if_neg h

theorem not_isDigit_plus : ¬ IsDigit '+' := by
  rw [IsDigit]
  decide

theorem value_cons (d : Char) (ds : List Char) :
    value (d :: ds) = (d.toNat - '0'.toNat) * 10 ^ ds.length + value ds := by
  rw [value, List.reverse_cons, List.map_append, Nat.ofDigits_append, List.length_map,
    List.length_reverse, List.map_singleton, Nat.ofDigits_singleton, ← value]
  ring

/-- Digits are read if the number that they make with those before them stays
below the bound. -/
theorem readDigits_eq_ok (h : value₀ < bound) :
    readDigits bound value₀ ds = .ok n
      ↔ (∀ d ∈ ds, IsDigit d) ∧ n = value₀ * 10 ^ ds.length + value ds ∧ n < bound := by
  induction ds generalizing value₀ with
  | nil =>
      simp only [readDigits, Except.ok.injEq, List.length_nil, pow_zero, mul_one]
      constructor
      · rintro rfl
        exact ⟨by simp, rfl, h⟩
      · rintro ⟨-, rfl, -⟩
        rfl
  | cons d ds ih =>
      by_cases hd : IsDigit d
      · have hsum : value₀ * 10 ^ (d :: ds).length + value (d :: ds)
            = (value₀ * 10 + (d.toNat - '0'.toNat)) * 10 ^ ds.length + value ds := by
          rw [value_cons, List.length_cons]
          ring
        simp only [readDigits, digit?_of_isDigit hd]
        split_ifs with hlt
        · rw [ih hlt, hsum, List.forall_mem_cons]
          exact and_congr_left fun _ => (and_iff_right hd).symm
        · -- what follows only makes the number larger
          have hle := Nat.le_mul_of_pos_right (value₀ * 10 + (d.toNat - '0'.toNat))
            (Nat.pow_pos (n := ds.length) (show 0 < 10 by decide))
          refine iff_of_false (fun h => by cases h) ?_
          rintro ⟨-, hn, hn'⟩
          omega
      · simp only [readDigits, digit?_of_not_isDigit hd, reduceCtorEq, false_iff]
        exact fun h => hd (h.1 d List.mem_cons_self)

/-- A numeral is read if its value is below the bound. -/
theorem readBelow_eq_ok (h : 0 < bound) :
    readBelow bound cs = .ok n ↔ Spells cs n ∧ n < bound := by
  constructor
  · intro hread
    unfold readBelow at hread
    split at hread
    · cases hread
    · cases hread
    · next ds hne =>
        obtain ⟨hds, rfl, hlt⟩ := (readDigits_eq_ok h).1 hread
        rw [Nat.zero_mul, Nat.zero_add] at hlt ⊢
        exact ⟨.signed (fun hnil => hne (by rw [hnil])) hds, hlt⟩
    · next hne _ _ =>
        obtain ⟨hds, rfl, hlt⟩ := (readDigits_eq_ok h).1 hread
        rw [Nat.zero_mul, Nat.zero_add] at hlt ⊢
        exact ⟨.unsigned hne hds, hlt⟩
  · rintro ⟨hspells, hlt⟩
    cases hspells with
    | unsigned hne hds =>
        have hplus : ∀ ds, cs ≠ '+' :: ds := fun ds hcs =>
          not_isDigit_plus (hds '+' (hcs ▸ List.mem_cons_self))
        rw [readBelow.eq_4 _ _ hne (hplus []) (fun ds => hplus ds), readDigits_eq_ok h]
        exact ⟨hds, by rw [Nat.zero_mul, Nat.zero_add], hlt⟩
    | signed hne hds =>
        rw [readBelow.eq_3 _ _ hne, readDigits_eq_ok h]
        exact ⟨hds, by rw [Nat.zero_mul, Nat.zero_add], hlt⟩

/-- The numerals of words are read as these. -/
theorem readWord_eq_ok {n : UInt64} : readWord cs = .ok n ↔ Spells cs n.toNat := by
  have hbelow := @readBelow_eq_ok UInt64.size n.toNat cs (by decide)
  rw [and_iff_left n.toNat_lt] at hbelow
  rw [← hbelow, readWord]
  cases hread : readBelow UInt64.size cs with
  | error e => simp [Except.map]
  | ok m =>
      have hm : m < UInt64.size := ((readBelow_eq_ok (by decide)).1 hread).2
      simp only [Except.map, Except.ok.injEq]
      constructor
      · rintro rfl
        exact (Nat.mod_eq_of_lt hm).symm
      · rintro rfl
        exact UInt64.ofNat_toNat

theorem isBlank_of_isDigit (h : IsDigit c) : Text.isBlank c = false := by
  have hlow : 48 ≤ c.toNat := h.1
  have hhigh : c.toNat ≤ 57 := h.2
  simp [Text.isBlank, Text.blankRanges, Text.inRanges]
  omega

/-- No white space stands in a numeral. -/
theorem Spells.isBlank_eq_false (h : Spells cs n) : ∀ c ∈ cs, Text.isBlank c = false := by
  cases h with
  | unsigned _ hds => exact fun c hc => isBlank_of_isDigit (hds c hc)
  | signed _ hds =>
      exact List.forall_mem_cons.2 ⟨by decide, fun c hc => isBlank_of_isDigit (hds c hc)⟩

end Numeral

/-! ## White space at the ends -/

namespace Text

variable {before core after cs : List Char}

theorem dropWhile_isBlank (hbefore : ∀ c ∈ before, isBlank c = true)
    (hcs : ∀ c ∈ cs, isBlank c = false) : (before ++ cs).dropWhile isBlank = cs := by
  rw [List.dropWhile_append_of_pos hbefore]
  cases cs with
  | nil => rfl
  | cons c cs => rw [List.dropWhile_cons, if_neg (by simp [hcs c])]

/-- Of a text without white space between white space, that text is left. -/
theorem trim_append (hbefore : ∀ c ∈ before, isBlank c = true)
    (hcore : ∀ c ∈ core, isBlank c = false) (hafter : ∀ c ∈ after, isBlank c = true) :
    trim (before ++ core ++ after) = core := by
  have hreverse : (after.reverse ++ core.reverse).dropWhile isBlank = core.reverse :=
    dropWhile_isBlank (by simpa using hafter) (by simpa using hcore)
  rw [trim, List.append_assoc, List.dropWhile_append_of_pos hbefore]
  cases core with
  | nil =>
      have hnil : after.dropWhile isBlank = [] := List.dropWhile_eq_nil_iff.2 hafter
      rw [List.nil_append, hnil]
      rfl
  | cons c core =>
      rw [List.cons_append, List.dropWhile_cons, if_neg (by simp [hcore c]), ← List.cons_append,
        List.reverse_append, hreverse, List.reverse_reverse]

theorem trim_eq_self (h : ∀ c ∈ cs, isBlank c = false) : trim cs = cs := by
  have hnil : ∀ c ∈ ([] : List Char), isBlank c = true := fun c hc => by cases hc
  simpa using trim_append hnil h hnil

/-- A text is white space, what is left of it, and white space. -/
theorem exists_eq_append_trim (cs : List Char) : ∃ before after, cs = before ++ trim cs ++ after
    ∧ (∀ c ∈ before, isBlank c = true) ∧ ∀ c ∈ after, isBlank c = true := by
  have hfront := List.takeWhile_append_dropWhile (p := isBlank) (l := cs)
  have hback := congrArg List.reverse
    (List.takeWhile_append_dropWhile (p := isBlank) (l := (cs.dropWhile isBlank).reverse))
  rw [List.reverse_append, List.reverse_reverse] at hback
  refine ⟨cs.takeWhile isBlank, ((cs.dropWhile isBlank).reverse.takeWhile isBlank).reverse,
    ?_, List.all_eq_true.1 List.all_takeWhile, fun c hc => ?_⟩
  · rw [trim, List.append_assoc, hback, hfront]
  · exact List.all_eq_true.1 List.all_takeWhile c (List.mem_reverse.1 hc)

end Text

/-! ## Values of settings -/

namespace Settings

variable {lookup : String → Option String} {key raw : String}

/-- `Denotes raw n`: a numeral of `n` stands in the text, between white space
at most, and `n` is a positive word. -/
def Denotes (raw : String) (n : Nat) : Prop :=
  ∃ before core after, raw.toList = before ++ core ++ after
    ∧ (∀ c ∈ before, Text.isBlank c = true) ∧ (∀ c ∈ after, Text.isBlank c = true)
    ∧ Numeral.Spells core n ∧ 1 ≤ n ∧ n ≤ 2 ^ 64 - 1

theorem denotes_iff {n : Nat} :
    Denotes raw n ↔ Numeral.Spells (Text.trim raw.toList) n ∧ 1 ≤ n ∧ n ≤ 2 ^ 64 - 1 := by
  constructor
  · rintro ⟨before, core, after, hraw, hbefore, hafter, hspells, hn⟩
    rw [hraw, Text.trim_append hbefore hspells.isBlank_eq_false hafter]
    exact ⟨hspells, hn⟩
  · rintro ⟨hspells, hn⟩
    obtain ⟨before, after, hraw, hbefore, hafter⟩ := Text.exists_eq_append_trim raw.toList
    exact ⟨before, _, after, hraw, hbefore, hafter, hspells, hn⟩

/-- What a text denotes is a word. -/
theorem Denotes.exists_word {n : Nat} (h : Denotes raw n) : ∃ m : UInt64, m.toNat = n :=
  ⟨UInt64.ofNat n, UInt64.toNat_ofNat_of_lt' (Nat.lt_of_le_sub_one (by decide)
    (denotes_iff.1 h).2.2)⟩

/-- A text is accepted as the number that it denotes. -/
theorem positive_eq_ok {n : UInt64} : positive key raw = .ok n ↔ Denotes raw n.toNat := by
  have hlt : n.toNat ≤ 2 ^ 64 - 1 := Nat.le_sub_one_of_lt n.toNat_lt
  rw [denotes_iff, ← Numeral.readWord_eq_ok, positive]
  cases hread : Numeral.readWord (Text.trim raw.toList) with
  | error e => simp
  | ok m =>
      simp only [Except.ok.injEq]
      split_ifs with hm
      · refine iff_of_false (fun h => by cases h) ?_
        rintro ⟨rfl, hpos, -⟩
        rw [hm] at hpos
        exact absurd hpos (by decide)
      · have hpos : m.toNat ≠ 0 := fun h => hm (UInt64.toNat_inj.1 h)
        rw [Except.ok.injEq]
        exact ⟨fun h => ⟨h, h ▸ by omega, hlt⟩, And.left⟩

/-- A text that denotes nothing is refused, with its key and as it was given. -/
theorem positive_eq_error {e : SettingError} :
    positive key raw = .error e ↔ e = ⟨key, raw⟩ ∧ ∀ n, ¬ Denotes raw n := by
  cases hread : positive key raw with
  | ok n => exact iff_of_false (fun h => by cases h) fun h => h.2 _ (positive_eq_ok.1 hread)
  | error e' =>
      have hnone : ∀ n, ¬ Denotes raw n := by
        intro n hn
        obtain ⟨m, rfl⟩ := hn.exists_word
        rw [positive_eq_ok.2 hn] at hread
        cases hread
      have he : e' = ⟨key, raw⟩ := by
        rw [positive] at hread
        split at hread
        · split_ifs at hread
          exact (Except.error.inj hread).symm
        · exact (Except.error.inj hread).symm
      rw [Except.error.injEq, he, and_iff_left hnone, eq_comm]

/-! ## What a look-up of variables comes to -/

/-- What a variable that need not be set stands for. -/
inductive Stands : Option String → Option UInt64 → Prop
  | unset : Stands none none
  | set {raw : String} {n : UInt64} : Denotes raw n.toNat → Stands (some raw) (some n)

/-- The settings that the variables denote. -/
structure Denoted (lookup : String → Option String) (s : Settings) : Prop where
  listen : s.listen = (lookup listenKey).getD "0.0.0.0:6380"
  statsInterval : ∃ n, Stands (lookup statsIntervalKey) n ∧ s.statsInterval = n.getD 1000
  maxLine : Stands (lookup maxLineKey) s.maxLine

/-- Whether a variable is not set, or set to a number. -/
def InGrammar (text : Option String) : Prop := ∀ raw, text = some raw → ∃ n, Denotes raw n

/-- The fault of the variables that is reported. -/
inductive Refused (lookup : String → Option String) : SettingError → Prop
  | statsInterval {raw : String} : lookup statsIntervalKey = some raw → (∀ n, ¬ Denotes raw n) →
      Refused lookup ⟨statsIntervalKey, raw⟩
  | maxLine {raw : String} : InGrammar (lookup statsIntervalKey) →
      lookup maxLineKey = some raw → (∀ n, ¬ Denotes raw n) → Refused lookup ⟨maxLineKey, raw⟩

theorem inGrammar_iff {text : Option String} : InGrammar text ↔ ∃ n, Stands text n := by
  cases text with
  | none => exact iff_of_true (fun _ h => by cases h) ⟨none, .unset⟩
  | some raw =>
      constructor
      · intro h
        obtain ⟨n, hn⟩ := h raw rfl
        obtain ⟨m, rfl⟩ := hn.exists_word
        exact ⟨some m, .set hn⟩
      · rintro ⟨_, hstands⟩ raw' hraw
        cases hraw
        cases hstands with
        | set hn => exact ⟨_, hn⟩

theorem positiveOr_eq_ok {α : Type} {default a : α} {wrap : UInt64 → α} {text : Option String} :
    positiveOr default wrap key text = .ok a
      ↔ ∃ n, Stands text n ∧ (n.map wrap).getD default = a := by
  cases text with
  | none =>
      rw [positiveOr, Except.ok.injEq]
      constructor
      · intro h
        exact ⟨none, .unset, h⟩
      · rintro ⟨_, ⟨⟩, h⟩
        exact h
  | some raw =>
      rw [positiveOr]
      constructor
      · intro h
        cases hraw : positive key raw with
        | error e =>
            rw [hraw] at h
            cases h
        | ok n =>
            rw [hraw] at h
            exact ⟨some n, .set (positive_eq_ok.1 hraw), Except.ok.inj h⟩
      · rintro ⟨_, hstands, rfl⟩
        cases hstands with
        | set hn =>
            rw [positive_eq_ok.2 hn]
            rfl

theorem positiveOr_eq_error {α : Type} {default : α} {wrap : UInt64 → α} {text : Option String}
    {e : SettingError} :
    positiveOr default wrap key text = .error e
      ↔ ∃ raw, text = some raw ∧ e = ⟨key, raw⟩ ∧ ∀ n, ¬ Denotes raw n := by
  cases text with
  | none => exact iff_of_false (fun h => by cases h) fun ⟨_, h, _⟩ => by cases h
  | some raw =>
      have herror : positiveOr default wrap key (some raw) = .error e
          ↔ positive key raw = .error e := by
        rw [positiveOr]
        cases positive key raw <;> simp [Except.map]
      rw [herror, positive_eq_error]
      constructor
      · intro h
        exact ⟨raw, rfl, h⟩
      · rintro ⟨_, hraw, h⟩
        cases hraw
        exact h

/-- The interval is looked at first, then the limit. -/
theorem ofLookup_eq (lookup : String → Option String) :
    ofLookup lookup = (positiveOr 1000 id statsIntervalKey (lookup statsIntervalKey)).bind fun ms =>
      (positiveOr none some maxLineKey (lookup maxLineKey)).map fun max =>
        { listen := (lookup listenKey).getD "0.0.0.0:6380", statsInterval := ms, maxLine := max } :=
  rfl

theorem ofLookup_eq_ok {s : Settings} : ofLookup lookup = .ok s ↔ Denoted lookup s := by
  rw [ofLookup_eq]
  constructor
  · intro h
    cases hms : positiveOr (1000 : UInt64) id statsIntervalKey (lookup statsIntervalKey) with
    | error e =>
        rw [hms] at h
        cases h
    | ok ms =>
        cases hmax : positiveOr none some maxLineKey (lookup maxLineKey) with
        | error e =>
            rw [hms, hmax] at h
            cases h
        | ok max =>
            rw [hms, hmax] at h
            cases h
            obtain ⟨n, hn, hms⟩ := positiveOr_eq_ok.1 hms
            obtain ⟨n', hn', hmax⟩ := positiveOr_eq_ok.1 hmax
            refine ⟨rfl, ⟨n, hn, ?_⟩, ?_⟩
            · rw [← hms, Option.map_id, id]
            · rw [← hmax]
              cases n' <;> exact hn'
  · rintro ⟨hlisten, ⟨n, hn, hms⟩, hmax⟩
    rw [positiveOr_eq_ok.2 ⟨n, hn, rfl⟩, positiveOr_eq_ok.2 ⟨_, hmax, rfl⟩]
    obtain ⟨listen, ms, max⟩ := s
    simp only at hlisten hms
    subst hlisten hms
    cases n <;> cases max <;> rfl

theorem ofLookup_eq_error {e : SettingError} :
    ofLookup lookup = .error e ↔ Refused lookup e := by
  rw [ofLookup_eq]
  constructor
  · intro h
    cases hms : positiveOr (1000 : UInt64) id statsIntervalKey (lookup statsIntervalKey) with
    | error e' =>
        rw [hms] at h
        cases h
        obtain ⟨raw, hraw, rfl, hnone⟩ := positiveOr_eq_error.1 hms
        exact .statsInterval hraw hnone
    | ok ms =>
        obtain ⟨n, hn, -⟩ := positiveOr_eq_ok.1 hms
        cases hmax : positiveOr none some maxLineKey (lookup maxLineKey) with
        | error e' =>
            rw [hms, hmax] at h
            cases h
            obtain ⟨raw, hraw, rfl, hnone⟩ := positiveOr_eq_error.1 hmax
            exact .maxLine (inGrammar_iff.2 ⟨n, hn⟩) hraw hnone
        | ok max =>
            rw [hms, hmax] at h
            cases h
  · intro h
    cases h with
    | statsInterval hraw hnone =>
        rw [positiveOr_eq_error.2 ⟨_, hraw, rfl, hnone⟩]
        rfl
    | maxLine hms hraw hnone =>
        obtain ⟨n, hn⟩ := inGrammar_iff.1 hms
        rw [positiveOr_eq_ok.2 ⟨n, hn, rfl⟩, positiveOr_eq_error.2 ⟨_, hraw, rfl, hnone⟩]
        rfl

end Settings

open Settings in
/-- The texts that a numeric setting accepts are those in which a numeral of a
positive word stands between white space, and it takes their value; all others
are refused as they are.  A look-up comes to settings exactly if its numeric
variables are such texts or are not set, namely to the values and defaults;
else the interval is reported before the limit. -/
theorem settings_by_grammar :
    (∀ key raw, (∀ n, positive key raw = .ok n ↔ Denotes raw n.toNat)
      ∧ ∀ e, positive key raw = .error e ↔ e = ⟨key, raw⟩ ∧ ∀ n, ¬ Denotes raw n)
    ∧ ∀ lookup : String → Option String,
      ((∃ s, ofLookup lookup = .ok s)
          ↔ InGrammar (lookup statsIntervalKey) ∧ InGrammar (lookup maxLineKey))
        ∧ (∀ s, ofLookup lookup = .ok s ↔ Denoted lookup s)
        ∧ ∀ e, ofLookup lookup = .error e ↔ Refused lookup e := by
  refine ⟨fun key raw => ⟨fun n => positive_eq_ok, fun e => positive_eq_error⟩, fun lookup =>
    ⟨?_, fun s => ofLookup_eq_ok, fun e => ofLookup_eq_error⟩⟩
  simp only [inGrammar_iff, ofLookup_eq_ok]
  constructor
  · rintro ⟨s, -, ⟨n, hn, -⟩, hmax⟩
    exact ⟨⟨n, hn⟩, s.maxLine, hmax⟩
  · rintro ⟨⟨n, hn⟩, n', hn'⟩
    exact ⟨{ listen := (lookup listenKey).getD "0.0.0.0:6380", statsInterval := n.getD 1000,
             maxLine := n' }, rfl, ⟨n, hn, rfl⟩, hn'⟩

open Settings in
/-- White space is not only that of ASCII, leading zeros do not count, and one
more than the greatest word is too much. -/
example :
    positive maxLineKey "\u2003+0064\t" = .ok 64
      ∧ positive maxLineKey "018446744073709551616"
        = .error ⟨maxLineKey, "018446744073709551616"⟩ := by
  decide +kernel

end LineRelay
