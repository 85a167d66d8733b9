/-
# Variables that are set count

An environment holds bytes.  What a numeric variable is set to is a text that
denotes a number, a text that denotes none, or no text at all, and the three
fare differently:

    a text that denotes a number     the setting is that number
    a text that denotes none         the reading fails and names the variable,
                                     or the one that is looked at before it
    bytes that spell no text         the variable counts as not set

So no text is passed over in silence (`set_variables_count`); the bytes of the
last kind are, which `limit_without_text_is_dropped` shows of a limit.

That the second kind and the third are told apart by what is spelled, and not
by what the reading makes of it, is `Text.Utf8.decode?_eq_some`.
-/
import Mathlib
import LineRelay.Proofs.Settings.Grammar
import LineRelay.Proofs.Text.Decoding

namespace LineRelay

/-- Whether the bytes spell a text. -/
def Bytes.IsText (bs : Bytes) : Prop := ∃ text, bs = Bytes.ofString text

namespace Settings

variable {env : String → Option Bytes} {key text : String} {bytes : Bytes}

/-- Whether the bytes spell a text that denotes the number. -/
def BytesDenote (bytes : Bytes) (n : Nat) : Prop :=
  ∃ text, bytes = Bytes.ofString text ∧ Denotes text n

/-- A variable is seen as a text exactly if it is set to the bytes of that text. -/
theorem bind_decode?_eq_some :
    (env key).bind Text.Utf8.decode? = some text ↔ env key = some (Bytes.ofString text) := by
  rw [Option.bind_eq_some_iff]
  constructor
  · rintro ⟨bytes, hbytes, htext⟩
    rw [hbytes, Text.Utf8.decode?_eq_some.1 htext]
  · intro h
    exact ⟨_, h, Text.Utf8.decode?_eq_some.2 rfl⟩

/-- A variable that is set stands for the number that its bytes denote, unless
they are no text. -/
theorem Stands.of_set {n : Option UInt64} (h : Stands ((env key).bind Text.Utf8.decode?) n)
    (hset : env key = some bytes) :
    (∃ m : UInt64, n = some m ∧ BytesDenote bytes m.toNat) ∨ ¬ bytes.IsText ∧ n = none := by
  cases hseen : (env key).bind Text.Utf8.decode? with
  | none =>
      rw [hseen] at h
      cases h
      refine .inr ⟨?_, rfl⟩
      rintro ⟨text, rfl⟩
      rw [bind_decode?_eq_some.2 hset] at hseen
      cases hseen
  | some text =>
      rw [hseen] at h
      have hbytes := hset.symm.trans (bind_decode?_eq_some.1 hseen)
      cases h with
      | set hn => exact .inl ⟨_, rfl, text, Option.some.inj hbytes, hn⟩

/-- A limit that denotes nothing is reported, or else the interval is. -/
theorem ofEnvironment_eq_error_of_maxLine (hset : env maxLineKey = some (Bytes.ofString text))
    (hnone : ∀ n, ¬ Denotes text n) :
    ∃ key text, (key = statsIntervalKey ∨ key = maxLineKey)
      ∧ env key = some (Bytes.ofString text) ∧ ofEnvironment env = .error ⟨key, text⟩ := by
  by_cases hms : InGrammar ((env statsIntervalKey).bind Text.Utf8.decode?)
  · exact ⟨_, _, .inr rfl, hset,
      ofLookup_eq_error.2 (.maxLine hms (bind_decode?_eq_some.2 hset) hnone)⟩
  · simp only [InGrammar, not_forall, not_exists] at hms
    obtain ⟨raw, hraw, hnone'⟩ := hms
    exact ⟨_, _, .inl rfl, bind_decode?_eq_some.1 hraw,
      ofLookup_eq_error.2 (.statsInterval hraw hnone')⟩

/-- What is no text might as well not be there. -/
theorem ofEnvironment_update_of_not_isText (hset : env key = some bytes)
    (htext : ¬ bytes.IsText) :
    ofEnvironment env = ofEnvironment (Function.update env key none) := by
  rw [ofEnvironment, ofEnvironment]
  congr 1
  funext key'
  by_cases hkey : key' = key
  · subst hkey
    rw [Function.update_self, Option.bind_none, Option.eq_none_iff_forall_ne_some]
    intro text hseen
    have hbytes := hset.symm.trans (bind_decode?_eq_some.1 hseen)
    exact htext ⟨text, Option.some.inj hbytes⟩
  · rw [Function.update_of_ne hkey]

end Settings

open Settings in
/-- A numeric variable that is set to a text either denotes what its setting
becomes, or makes the reading fail, by its own name or by that of the variable
before it.  Only bytes that spell no text are passed over, as if the variable
were not set. -/
theorem set_variables_count (env : String → Option Bytes) :
    (∀ s, ofEnvironment env = .ok s →
      (∀ bytes, env statsIntervalKey = some bytes →
        BytesDenote bytes s.statsInterval.toNat ∨ ¬ bytes.IsText ∧ s.statsInterval = 1000)
      ∧ ∀ bytes, env maxLineKey = some bytes →
        (∃ n, s.maxLine = some n ∧ BytesDenote bytes n.toNat) ∨ ¬ bytes.IsText ∧ s.maxLine = none)
    ∧ (∀ text, env statsIntervalKey = some (Bytes.ofString text) → (∀ n, ¬ Denotes text n) →
      ofEnvironment env = .error ⟨statsIntervalKey, text⟩)
    ∧ (∀ text, env maxLineKey = some (Bytes.ofString text) → (∀ n, ¬ Denotes text n) →
      ∃ key text, (key = statsIntervalKey ∨ key = maxLineKey)
        ∧ env key = some (Bytes.ofString text) ∧ ofEnvironment env = .error ⟨key, text⟩)
    ∧ ∀ key bytes, env key = some bytes → ¬ bytes.IsText →
      ofEnvironment env = ofEnvironment (Function.update env key none) := by
  refine ⟨fun s hs => ?_, fun text hset hnone => ?_,
    fun text => ofEnvironment_eq_error_of_maxLine,
    fun key bytes => ofEnvironment_update_of_not_isText⟩
  · obtain ⟨-, ⟨n, hn, hms⟩, hmax⟩ := ofLookup_eq_ok.1 hs
    refine ⟨fun bytes hset => ?_, fun bytes hset => hmax.of_set hset⟩
    rcases hn.of_set hset with ⟨m, rfl, hm⟩ | ⟨htext, rfl⟩
    · rw [hms]
      exact .inl hm
    · exact .inr ⟨htext, hms⟩
  · exact ofLookup_eq_error.2 (.statsInterval (bind_decode?_eq_some.2 hset) hnone)

open Settings in
/-- A limit with a byte in it that no text has is passed over: the relay runs
without one. -/
theorem limit_without_text_is_dropped :
    let env : String → Option Bytes := fun key =>
      if key = maxLineKey then some [0x36, 0x34, 0xFF] else none
    ofEnvironment env = .ok {} ∧ (∃ bytes, env maxLineKey = some bytes ∧ ∀ n, ¬ BytesDenote bytes n)
      := by
  refine ⟨by decide +kernel, _, if_pos rfl, ?_⟩
  rintro n ⟨text, hbytes, -⟩
  have hread := Text.Utf8.decode?_eq_some.2 hbytes
  rw [show Text.Utf8.decode? [0x36, 0x34, 0xFF] = none by decide +kernel] at hread
  cases hread

end LineRelay
