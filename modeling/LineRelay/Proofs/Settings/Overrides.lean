/-
# Options as overrides of the environment

A setting comes from an option, else from a variable, else it has its
default.  Options and variables are read by two paths: an option takes its
text as it is, or trims it, and refuses to be given twice; the variables are
trimmed and read together.  Both come to the same: the texts of the options
take the place of those of their variables (`overriding`), and what is so
written is read as an environment would be.

| | |
| :-- | :-- |
| `Opt.argument` | an option with its text, as an argument |
| `Opt.key` | the variable that the option overrides |
| `overriding` | the variables, as far as no option overrides them |

## What this is not

The environment is read before any option counts, so a faulty variable ends
the run also where an option overrides it.  And the interval is not trimmed
when it is given as an option; nothing is said of such texts.
-/
import Mathlib
import LineRelay.Daemon
import LineRelay.Proofs.Settings.Grammar
import LineRelay.Proofs.Text.Decoding

namespace LineRelay

/-! ## Values of texts -/

namespace Numeral

/-- The positive word that a numeral denotes. -/
def positive? (cs : List Char) : Option UInt64 :=
  match readWord cs with
  | .ok n => if n = 0 then none else some n
  | .error _ => none

end Numeral

namespace Settings

variable {lookup : String → Option String}

/-- The value of a text that may not be there: none if it is not there.  The
whole is nothing if it is there and is no positive numeral. -/
def valueOf : Option String → Option (Option UInt64)
  | none => some none
  | some text => (Numeral.positive? (Text.trim text.toList)).map some

/-- A text that stands before another one that has a value. -/
theorem valueOf_or {text text' : Option String} {n' : Option UInt64} (h : valueOf text' = some n') :
    valueOf (text.or text') = (valueOf text).map fun n => n.or n' := by
  cases text with
  | none => simpa [valueOf] using h
  | some text => cases hn : Numeral.positive? (Text.trim text.toList) <;> simp [valueOf, hn]

theorem toOption_positive (key text : String) :
    (positive key text).toOption = Numeral.positive? (Text.trim text.toList) := by
  rw [positive, Numeral.positive?]
  cases Numeral.readWord (Text.trim text.toList) with
  | error e => rfl
  | ok n =>
      simp only
      split_ifs
      · rfl
      · rfl

theorem toOption_positiveOr {α : Type} (default : α) (wrap : UInt64 → α) (key : String)
    (text : Option String) :
    (positiveOr default wrap key text).toOption
      = (valueOf text).map fun n => (n.map wrap).getD default := by
  cases text with
  | none => rfl
  | some text =>
      have hvalue := toOption_positive key text
      rw [positiveOr, valueOf, ← hvalue]
      cases positive key text with
      | error e => rfl
      | ok n => rfl

/-- What a look-up of variables comes to, each value by itself. -/
theorem toOption_ofLookup (lookup : String → Option String) :
    (ofLookup lookup).toOption = (valueOf (lookup statsIntervalKey)).bind fun ms =>
      (valueOf (lookup maxLineKey)).map fun max =>
        { listen := (lookup listenKey).getD "0.0.0.0:6380",
          statsInterval := ms.getD 1000, maxLine := max } := by
  have hms := toOption_positiveOr 1000 id statsIntervalKey (lookup statsIntervalKey)
  have hmax := toOption_positiveOr none some maxLineKey (lookup maxLineKey)
  rw [ofLookup]
  cases hms' : positiveOr (1000 : UInt64) id statsIntervalKey (lookup statsIntervalKey) with
  | error e =>
      rw [hms', eq_comm] at hms
      rw [Option.map_eq_none_iff.1 hms]
      rfl
  | ok ms =>
      rw [hms', eq_comm] at hms
      obtain ⟨n, hn, rfl⟩ := Option.map_eq_some_iff.1 hms
      rw [hn]
      cases hmax' : positiveOr none some maxLineKey (lookup maxLineKey) with
      | error e =>
          rw [hmax', eq_comm] at hmax
          rw [Option.map_eq_none_iff.1 hmax]
          rfl
      | ok max =>
          rw [hmax', eq_comm] at hmax
          obtain ⟨n', hn', rfl⟩ := Option.map_eq_some_iff.1 hmax
          rw [hn']
          cases n <;> cases n' <;> rfl

end Settings

namespace Arguments

variable {a : Arguments} {o : Opt} {text : String} {given : List (Opt × String)}

/-! ## Options as arguments -/

/-- The long name of an option. -/
def Opt.name : Opt → String
  | .listen => "listen"
  | .statsInterval => "stats-interval-ms"
  | .maxLine => "max-line"

/-- The variable that an option overrides. -/
def Opt.key : Opt → String
  | .listen => Settings.listenKey
  | .statsInterval => Settings.statsIntervalKey
  | .maxLine => Settings.maxLineKey

/-- The argument that gives an option its value. -/
def Opt.argument (o : Opt) (text : String) : String := "--" ++ o.name ++ "=" ++ text

theorem Opt.key_inj {o o' : Opt} : o.key = o'.key ↔ o = o' := by
  cases o <;> cases o' <;> decide

theorem toList_argument (o : Opt) (text : String) :
    (o.argument text).toList = '-' :: '-' :: (o.name.toList ++ '=' :: text.toList) := by
  simp [Opt.argument]

/-- Such an argument is taken for its option, and nothing is waited for. -/
theorem take_argument (a : Arguments) (o : Opt) (text : String) :
    a.take none (o.argument text) = (a.set o text).map fun a => (a, none) := by
  have hsplit : splitEquals (o.name.toList ++ '=' :: text.toList)
      = (o.name.toList, some text.toList) := by
    cases o <;> simp [Opt.name, splitEquals]
  have hname : long? o.name.toList = some (.opt o) := by
    cases o <;> simp [Opt.name, long?]
  rw [take, toList_argument]
  simp only [takeLong, hsplit, hname, reach, resolve, String.ofList_toList]
  show (a.set o text).bind _ = _
  cases a.set o text with
  | error e => rfl
  | ok a' => rfl

/-- Give the options their values, one after the other. -/
def setAll (a : Arguments) : List (Opt × String) → Except ArgumentError Arguments
  | [] => .ok a
  | g :: given => (a.set g.1 g.2).bind fun a => a.setAll given

/-- A command line of such arguments gives its options their values. -/
theorem readFrom_arguments (a : Arguments) (given : List (Opt × String)) :
    readFrom a none (given.map fun g => g.1.argument g.2) = a.setAll given := by
  induction given generalizing a with
  | nil => rfl
  | cons g given ih =>
      have hdashes : g.1.argument g.2 = "--" → False := by
        intro h
        have hlist := congrArg String.toList h
        rw [toList_argument] at hlist
        simp at hlist
      rw [List.map_cons, readFrom.eq_3 _ _ _ _ hdashes, take_argument, setAll]
      cases a.set g.1 g.2 with
      | error e => rfl
      | ok a' => exact ih a'

/-! ## What a command line sets -/

/-- The text that is given for an option. -/
def textOf (given : List (Opt × String)) (o : Opt) : Option String :=
  (given.find? (·.1 = o)).map (·.2)

theorem textOf_cons (g : Opt × String) (given : List (Opt × String)) (o : Opt) :
    textOf (g :: given) o = if g.1 = o then some g.2 else textOf given o := by
  rw [textOf, List.find?_cons]
  split_ifs with h
  · simp [h]
  · simp [h, textOf]

theorem textOf_eq_none (h : ∀ g ∈ given, g.1 ≠ o) : textOf given o = none := by
  rw [textOf, List.find?_eq_none.2 (by simpa using h), Option.map_none]

/-- The value of a text that may be given for an option, if the text is not trimmed. -/
def plainOf : Option String → Option (Option UInt64)
  | none => some none
  | some text => (Numeral.positive? text.toList).map some

theorem toOption_interval (text : String) :
    (interval text).toOption = Numeral.positive? text.toList := by
  rw [interval, Numeral.positive?]
  cases Numeral.readWord text.toList with
  | error e => rfl
  | ok n =>
      simp only
      split_ifs
      · rfl
      · rfl

/-- What an option sets that is given for the first time. -/
theorem toOption_set (hfree : a.isSet o = false) (text : String) :
    (a.set o text).toOption = match o with
      | .listen => some { a with listen := some text }
      | .statsInterval =>
          (Numeral.positive? text.toList).map fun n => { a with statsInterval := some n }
      | .maxLine => (Numeral.positive? (Text.trim text.toList)).map fun n =>
          { a with maxLine := some n } := by
  rw [set, if_neg (by simp [hfree])]
  cases o with
  | listen => rfl
  | statsInterval =>
      rw [← toOption_interval, setOnce]
      cases interval text <;> rfl
  | maxLine =>
      rw [← Settings.toOption_positive "--max-line", setOnce]
      cases Settings.positive "--max-line" text <;> rfl

/-- What is not set stays so while other options are given. -/
theorem isSet_set {a' : Arguments} {o' : Opt} (h : a.set o text = .ok a') (hne : o' ≠ o) :
    a'.isSet o' = a.isSet o' := by
  rw [set] at h
  split_ifs at h
  cases o with
  | listen =>
      cases h
      cases o' with
      | listen => exact absurd rfl hne
      | statsInterval | maxLine => rfl
  | statsInterval =>
      rw [setOnce] at h
      split at h
      · cases h
        cases o' with
        | statsInterval => exact absurd rfl hne
        | listen | maxLine => rfl
      · cases h
  | maxLine =>
      rw [setOnce] at h
      split at h
      · cases h
        cases o' with
        | maxLine => exact absurd rfl hne
        | listen | statsInterval => rfl
      · cases h

/-- What options come to that are given at most once, each by itself. -/
theorem toOption_setAll (honce : (given.map (·.1)).Nodup)
    (hfree : ∀ g ∈ given, a.isSet g.1 = false) :
    (a.setAll given).toOption
      = (plainOf (textOf given .statsInterval)).bind fun ms =>
          (Settings.valueOf (textOf given .maxLine)).map fun max =>
            { listen := (textOf given .listen).or a.listen,
              statsInterval := ms.or a.statsInterval, maxLine := max.or a.maxLine } := by
  induction given generalizing a with
  | nil => rfl
  | cons g given ih =>
      obtain ⟨o, text⟩ := g
      obtain ⟨hother, honce⟩ := List.nodup_cons.1 honce
      obtain ⟨hfirst, hfree⟩ := List.forall_mem_cons.1 hfree
      have hne : ∀ g ∈ given, g.1 ≠ o := fun g hg h => hother (List.mem_map.2 ⟨g, hg, h⟩)
      have hnone : textOf given o = none := textOf_eq_none hne
      have hvalue := toOption_set hfirst text
      cases hset : a.set o text with
      | error e =>
          -- the first option is refused, so its text denotes nothing
          rw [hset] at hvalue
          rw [setAll, hset]
          cases o with
          | listen => cases hvalue
          | statsInterval =>
              have hbad := Option.map_eq_none_iff.1 hvalue.symm
              simp [textOf_cons, plainOf, hbad, Except.toOption, Except.bind]
          | maxLine =>
              have hbad := Option.map_eq_none_iff.1 hvalue.symm
              simp [textOf_cons, Settings.valueOf, hbad, Except.toOption, Except.bind]
      | ok a' =>
          have hfree' : ∀ g ∈ given, a'.isSet g.1 = false := fun g hg => by
            rw [isSet_set hset (hne g hg)]
            exact hfree g hg
          rw [hset] at hvalue
          rw [setAll, hset]
          show (a'.setAll given).toOption = _
          rw [ih honce hfree']
          cases o with
          | listen =>
              cases hvalue
              simp [textOf_cons, hnone]
          | statsInterval =>
              obtain ⟨n, hn, rfl⟩ := Option.map_eq_some_iff.1 hvalue.symm
              simp [textOf_cons, hnone, plainOf, hn]
          | maxLine =>
              obtain ⟨n, hn, rfl⟩ := Option.map_eq_some_iff.1 hvalue.symm
              simp [textOf_cons, hnone, Settings.valueOf, hn]

/-! ## Options in the place of variables -/

/-- The variables, the text of each option in the place of the variable that
it overrides. -/
def overriding (given : List (Opt × String)) (vars : String → Option String) :
    String → Option String :=
  fun key => ((given.find? (·.1.key = key)).map (·.2)).or (vars key)

theorem overriding_key (given : List (Opt × String)) (vars : String → Option String) (o : Opt) :
    overriding given vars o.key = (textOf given o).or (vars o.key) := by
  simp only [overriding, textOf, Opt.key_inj]

/-- A numeral holds no white space, so a text that has a value as it is has
the same value when it is trimmed. -/
theorem valueOf_of_plainOf {text : Option String} {n : Option UInt64} (h : plainOf text = some n) :
    Settings.valueOf text = some n := by
  cases text with
  | none => exact h
  | some s =>
      obtain ⟨m, hm, rfl⟩ := Option.map_eq_some_iff.1 h
      have hself : Text.trim s.toList = s.toList := by
        rw [Numeral.positive?] at hm
        split at hm
        · exact Text.trim_eq_self (Numeral.readWord_eq_ok.1 ‹_›).isBlank_eq_false
        · cases hm
      rw [Settings.valueOf, hself, hm, Option.map_some]

/-- Without white space around a numeral the two readings of a text agree. -/
theorem plainOf_eq_valueOf {text : Option String}
    (h : ∀ s ∈ text, Numeral.positive? (Text.trim s.toList) ≠ none →
      Text.trim s.toList = s.toList) : plainOf text = Settings.valueOf text := by
  cases hplain : plainOf text with
  | some n => rw [valueOf_of_plainOf hplain]
  | none =>
      cases text with
      | none => cases hplain
      | some s =>
          rw [plainOf, Option.map_eq_none_iff] at hplain
          rw [Settings.valueOf, eq_comm, Option.map_eq_none_iff]
          by_contra htrim
          exact htrim (by rw [h s rfl htrim, hplain])

end Arguments

/-! ## A run's settings -/

/-- Variables that are text are read as their texts. -/
theorem Settings.ofEnvironment_text (vars : String → Option String) :
    ofEnvironment (fun key => (vars key).map Bytes.ofString) = ofLookup vars := by
  rw [ofEnvironment]
  congr 1
  funext key
  cases vars key with
  | none => rfl
  | some text => exact Text.Utf8.decode?_ofString text

theorem Launch.toOption_settings (args : List String) (env : String → Option Bytes) :
    (settings args env).toOption = (Arguments.read args).toOption.bind fun a =>
      (Settings.ofEnvironment env).toOption.map a.apply := by
  rw [settings]
  cases Arguments.read args with
  | error e => rfl
  | ok a =>
      cases Settings.ofEnvironment env with
      | error e => rfl
      | ok s => rfl

open Arguments in
/-- Options whose interval is read like a variable come to what the environment
comes to with their texts in the place of their variables. -/
theorem toOption_settings_arguments {given : List (Opt × String)}
    (honce : (given.map (·.1)).Nodup) (hinterval : plainOf (textOf given .statsInterval)
      = Settings.valueOf (textOf given .statsInterval)) (vars : String → Option String) :
    (Launch.settings (given.map fun g => g.1.argument g.2)
        fun key => (vars key).map Bytes.ofString).toOption
      = (Settings.ofLookup vars).toOption.bind fun _ =>
          (Settings.ofLookup (overriding given vars)).toOption := by
  have hset := toOption_setAll (a := {}) honce fun g _ => by cases g.1 <;> rfl
  have hlisten := overriding_key given vars .listen
  have hms := overriding_key given vars .statsInterval
  have hmax := overriding_key given vars .maxLine
  simp only [Opt.key] at hlisten hms hmax
  rw [Launch.toOption_settings, Arguments.read, readFrom_arguments, hset, hinterval,
    Settings.ofEnvironment_text, Settings.toOption_ofLookup, Settings.toOption_ofLookup, hlisten,
    hms, hmax]
  -- a faulty variable ends the run whatever is given
  cases hms' : Settings.valueOf (vars Settings.statsIntervalKey) with
  | none => simp
  | some ms =>
      cases hmax' : Settings.valueOf (vars Settings.maxLineKey) with
      | none => simp
      | some max =>
          rw [Settings.valueOf_or hms', Settings.valueOf_or hmax']
          cases Settings.valueOf (textOf given .statsInterval) with
          | none => simp
          | some n =>
              cases Settings.valueOf (textOf given .maxLine) with
              | none => simp
              | some n' =>
                  cases textOf given .listen <;> cases n <;> simp [Arguments.apply]

open Arguments in
/-- Options that are given at most once come to what the environment comes to
with their texts in the place of their variables, if the environment can be
read: always if the interval has no white space around a numeral, and else if
they come to anything. -/
theorem options_override (vars : String → Option String) (given : List (Opt × String))
    (honce : (given.map (·.1)).Nodup) :
    let launched := (Launch.settings (given.map fun g => g.1.argument g.2)
      fun key => (vars key).map Bytes.ofString).toOption
    let layered := (Settings.ofLookup vars).toOption.bind fun _ =>
      (Settings.ofLookup (overriding given vars)).toOption
    ((∀ text, (Opt.statsInterval, text) ∈ given →
        Numeral.positive? (Text.trim text.toList) ≠ none → Text.trim text.toList = text.toList) →
      launched = layered)
    ∧ ∀ s, launched = some s → layered = some s := by
  intro launched layered
  constructor
  · intro hplain
    refine toOption_settings_arguments honce (plainOf_eq_valueOf fun text htext => ?_) vars
    refine hplain text ?_
    obtain ⟨⟨o, text'⟩, hfind, rfl⟩ := Option.map_eq_some_iff.1 htext
    obtain rfl : o = .statsInterval := by simpa using List.find?_some hfind
    exact List.mem_of_find?_eq_some hfind
  · intro s hs
    have hset := toOption_setAll (a := {}) honce fun g _ => by cases g.1 <;> rfl
    cases hinterval : plainOf (textOf given .statsInterval) with
    | none =>
        rw [hinterval] at hset
        rw [show launched = _ from Launch.toOption_settings _ _, Arguments.read,
          readFrom_arguments, hset] at hs
        cases hs
    | some n =>
        rw [← hs]
        exact (toOption_settings_arguments honce
          (by rw [hinterval, valueOf_of_plainOf hinterval]) vars).symm

open Arguments in
/-- Three options in an order of their own; the variable of the limit is set,
and so is that of the address. -/
theorem options_override_reordered :
    let given : List (Opt × String) :=
      [(.maxLine, " 7 "), (.statsInterval, "+09"), (.listen, "")]
    let vars : String → Option String := fun key =>
      if key = Settings.maxLineKey then some "\t3"
      else if key = Settings.listenKey then some "localhost:1" else none
    (given.map (·.1)).Nodup
      ∧ (∀ text, (Opt.statsInterval, text) ∈ given →
        Numeral.positive? (Text.trim text.toList) ≠ none → Text.trim text.toList = text.toList)
      ∧ (Launch.settings (given.map fun g => g.1.argument g.2)
        fun key => (vars key).map Bytes.ofString).toOption
          = some { listen := "", statsInterval := 9, maxLine := some 7 } := by
  have hplain : ∀ text, (Opt.statsInterval, text) ∈
      [(Opt.maxLine, " 7 "), (.statsInterval, "+09"), (.listen, "")] →
      Numeral.positive? (Text.trim text.toList) ≠ none → Text.trim text.toList = text.toList := by
    intro text htext _
    obtain rfl : text = "+09" := by simpa using htext
    decide
  refine ⟨by decide, hplain, ?_⟩
  rw [(options_override _ _ (by decide)).1 hplain]
  decide +kernel

open Arguments in
/-- A faulty variable is not made good by the option that overrides it; and an
interval with white space around it, good in the variable, is refused in the
option. -/
theorem options_not_read_as_variables :
    let vars : String → Option String := fun key =>
      if key = Settings.maxLineKey then some "x" else none
    ((Launch.settings [Opt.maxLine.argument "5"] fun key => (vars key).map Bytes.ofString).toOption
        = none
      ∧ (Settings.ofLookup (overriding [(.maxLine, "5")] vars)).toOption
        = some { maxLine := some 5 })
    ∧ (Launch.settings [Opt.statsInterval.argument " 5"] fun _ => none).toOption = none
      ∧ (Settings.ofLookup (overriding [(.statsInterval, " 5")] fun _ => none)).toOption
        = some { statsInterval := 5 } := by
  refine ⟨⟨?_, by decide +kernel⟩, by decide +kernel, by decide +kernel⟩
  rw [Launch.toOption_settings, Settings.ofEnvironment_text]
  decide +kernel

end LineRelay
