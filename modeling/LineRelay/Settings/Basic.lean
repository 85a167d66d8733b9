/-
# `Settings` — what a relay is started with

Three settings, each with a default that a variable of the environment
replaces.  A numeric variable that is set must hold a numeral of a
positive 64-bit word, white space at its ends apart; if it does not, the
whole reading fails and names it.  The interval is looked at before the
limit.  A variable whose value is not text counts as not set.
-/
import LineRelay.Settings.Numeral
import LineRelay.Text.Blank
import LineRelay.Text.Quoted
import LineRelay.Text.Utf8

namespace LineRelay

/-- What a relay is started with: the address to listen on, the milliseconds
between two reports of how many peers are online, and the most bytes a line
may have before its terminator. -/
structure Settings where
  listen : String := "0.0.0.0:6380"
  statsInterval : UInt64 := 1000
  maxLine : Option UInt64 := none
deriving DecidableEq

/-- Why settings cannot be read: the value of `key` is no positive word. -/
structure SettingError where
  key : String
  value : String
deriving DecidableEq

def SettingError.message (e : SettingError) : String :=
  "invalid value for " ++ e.key ++ ": " ++ Text.Quoted.quote e.value
    ++ " (expected a positive integer)"

namespace Settings

def listenKey : String := "LINECAST_LISTEN"

def statsIntervalKey : String := "LINECAST_STATS_INTERVAL_MS"

def maxLineKey : String := "LINECAST_MAX_LINE"

/-- The positive word that a value denotes; white space around it does
not count. -/
def positive (key raw : String) : Except SettingError UInt64 :=
  match Numeral.readWord (Text.trim raw.toList) with
  | .ok n => if n = 0 then .error ⟨key, raw⟩ else .ok n
  | .error _ => .error ⟨key, raw⟩

/-- The value of a numeric setting, or its default where it is not set. -/
def positiveOr {α : Type} (default : α) (wrap : UInt64 → α) (key : String) :
    Option String → Except SettingError α
  | none => .ok default
  | some raw => (positive key raw).map wrap

/-- The defaults, as far as a look-up of variables does not replace them. -/
def ofLookup (lookup : String → Option String) : Except SettingError Settings := do
  let defaults : Settings := {}
  let statsInterval ←
    positiveOr defaults.statsInterval id statsIntervalKey (lookup statsIntervalKey)
  let maxLine ← positiveOr defaults.maxLine some maxLineKey (lookup maxLineKey)
  return { listen := (lookup listenKey).getD defaults.listen, statsInterval, maxLine }

/-- The defaults, as far as an environment does not replace them.  Its
values are bytes; one that spells no text is not seen. -/
def ofEnvironment (env : String → Option Bytes) : Except SettingError Settings :=
  ofLookup fun key => (env key).bind Text.Utf8.decode?

end Settings

end LineRelay
