/-
# The command line

Three options that override what the environment says, each taking one
value and given at most once, and two flags that ask for something to be
printed.  An option is written `--name value` or `--name=value`, the
address also `-l value`, `-lvalue` or `-l=value`.  Arguments are read
from left to right.  A value that stands in an argument of its own is
looked at when the next option or flag is reached, or at the end, so a
fault of that next argument itself comes first.
-/
import LineRelay.Settings.Basic
import LineRelay.Text.Terminal

namespace LineRelay

/-- What the command line sets, if it sets it. -/
structure Arguments where
  listen : Option String := none
  statsInterval : Option UInt64 := none
  maxLine : Option UInt64 := none
deriving DecidableEq

/-- Why a command line sets nothing.  An unknown argument is no option, no
flag and no value of an option; a conflict is an option that is given again;
and a flag that is given a value has too many.  The last two are the flags
that ask for something else. -/
inductive ArgumentError where
  | unknownArgument
  | missingValue
  | badValue (option value cause : String)
  | conflict
  | tooManyValues
  | help
  | version
deriving DecidableEq

namespace ArgumentError

def programVersion : String := "linecastd 0.1.0"

/-- A text up to its first line break. -/
def firstLine (s : String) : String :=
  match s.toList.span (· != '\n') with
  | (line, []) => String.ofList line
  | (line, _) => String.ofList (if line.getLast? = some '\r' then line.dropLast else line)

/-- The first line of what is printed, where that is more than a usage
summary.  The value is set off, and all that a terminal would take as a
command is left out again, so that the value gives none. -/
def headline? : ArgumentError → Option String
  | .badValue option value cause =>
      some (firstLine (Text.Terminal.shown
        ("error: invalid value '" ++ Text.Terminal.highlighted value ++ "' for '"
          ++ Text.Terminal.highlighted option ++ "': " ++ cause)))
  | .version => some programVersion
  | _ => none

/-- Whether the program was asked to print something and has not failed. -/
def isRequest : ArgumentError → Bool
  | .help | .version => true
  | _ => false

end ArgumentError

namespace Arguments

inductive Opt where
  | listen
  | statsInterval
  | maxLine
deriving DecidableEq

/-- What stands behind a name: an option, which takes a value, or a flag,
which takes none. -/
inductive Named where
  | opt (o : Opt)
  | flag (asks : ArgumentError)

def long? : List Char → Option Named
  | cs =>
      if cs = "listen".toList then some (.opt .listen)
      else if cs = "stats-interval-ms".toList then some (.opt .statsInterval)
      else if cs = "max-line".toList then some (.opt .maxLine)
      else if cs = "help".toList then some (.flag .help)
      else if cs = "version".toList then some (.flag .version)
      else none

def short? : Char → Option Named
  | 'l' => some (.opt .listen)
  | 'h' => some (.flag .help)
  | 'V' => some (.flag .version)
  | _ => none

/-- The numeral of a positive word, without white space, or why it is none. -/
def interval (value : String) : Except String UInt64 :=
  match Numeral.readWord value.toList with
  | .error fault => .error fault.message
  | .ok n =>
      if n = 0 then .error s!"{n.toNat} is not in 1..18446744073709551615" else .ok n

def isSet (a : Arguments) : Opt → Bool
  | .listen => a.listen.isSome
  | .statsInterval => a.statsInterval.isSome
  | .maxLine => a.maxLine.isSome

/-- Give the option a value for the first time. -/
def setOnce (a : Arguments) (o : Opt) (value : String) : Except ArgumentError Arguments :=
  match o with
  | .listen => .ok { a with listen := some value }
  | .statsInterval =>
      match interval value with
      | .ok n => .ok { a with statsInterval := some n }
      | .error cause => .error (.badValue "--stats-interval-ms <STATS_INTERVAL_MS>" value cause)
  | .maxLine =>
      match Settings.positive "--max-line" value with
      | .ok n => .ok { a with maxLine := some n }
      | .error e => .error (.badValue "--max-line <MAX_LINE>" value e.message)

def set (a : Arguments) (o : Opt) (value : String) : Except ArgumentError Arguments :=
  if a.isSet o then .error .conflict else a.setOnce o value

/-- An option whose value has not been looked at, and the value if there is one. -/
abbrev Pending := Option (Opt × Option String)

/-- Look at what is pending. -/
def resolve (a : Arguments) : Pending → Except ArgumentError Arguments
  | none => .ok a
  | some (_, none) => .error .missingValue
  | some (o, some value) => a.set o value

/-- The part before the first equals sign, and the part after it if there is one. -/
def splitEquals (cs : List Char) : List Char × Option (List Char) :=
  (cs.takeWhile (· != '='),
    match cs.dropWhile (· != '=') with
    | [] => none
    | _ :: value => some value)

/-- Reach an option: what is pending is looked at, then the option's
value if it is attached; else it is waited for. -/
def reach (a : Arguments) (pending : Pending) (o : Opt) (attached : Option (List Char)) :
    Except ArgumentError (Arguments × Pending) := do
  let a ← a.resolve pending
  match attached with
  | some value => return (← a.set o (String.ofList value), none)
  | none => return (a, some (o, none))

/-- Reach a flag: what is pending is looked at, then the flag counts. -/
def reachFlag (a : Arguments) (pending : Pending) (asks : ArgumentError) :
    Except ArgumentError (Arguments × Pending) := do
  let _ ← a.resolve pending
  .error asks

/-- An argument that begins with two dashes and goes on. -/
def takeLong (a : Arguments) (pending : Pending) (cs : List Char) :
    Except ArgumentError (Arguments × Pending) :=
  let (name, attached) := splitEquals cs
  match long? name with
  | none => .error .unknownArgument
  | some (.opt o) => a.reach pending o attached
  | some (.flag asks) =>
      if attached.isSome then .error .tooManyValues else a.reachFlag pending asks

/-- The value attached to a short option: what follows it, less one
equals sign in front; nothing at all is no value. -/
def attachedShort : List Char → Option (List Char)
  | [] => none
  | '=' :: value => some value
  | value => some value

/-- An argument that begins with one dash and goes on.  A flag in it ends
the reading, so only its first letter matters. -/
def takeShort (a : Arguments) (pending : Pending) : List Char →
    Except ArgumentError (Arguments × Pending)
  | [] => .ok (a, pending)
  | c :: cs =>
      match short? c with
      | none => .error .unknownArgument
      | some (.opt o) => a.reach pending o (attachedShort cs)
      | some (.flag asks) => a.reachFlag pending asks

/-- An argument that is no option: the value of an option that waits for one. -/
def takeValue (a : Arguments) (pending : Pending) (value : String) :
    Except ArgumentError (Arguments × Pending) :=
  match pending with
  | some (o, none) => .ok (a, some (o, some value))
  | _ => .error .unknownArgument

def take (a : Arguments) (pending : Pending) (arg : String) :
    Except ArgumentError (Arguments × Pending) :=
  match arg.toList with
  | '-' :: '-' :: cs => a.takeLong pending cs
  | ['-'] => a.takeValue pending arg
  | '-' :: cs => a.takeShort pending cs
  | _ => a.takeValue pending arg

/-- The arguments from here on.  After a bare `--` none may follow. -/
def readFrom (a : Arguments) (pending : Pending) : List String → Except ArgumentError Arguments
  | [] => a.resolve pending
  | "--" :: args => if args.isEmpty then a.resolve pending else .error .unknownArgument
  | arg :: args => do
      let (a, pending) ← a.take pending arg
      readFrom a pending args

def read (args : List String) : Except ArgumentError Arguments := readFrom {} none args

/-- The settings, as far as the command line does not override them. -/
def apply (a : Arguments) (s : Settings) : Settings where
  listen := a.listen.getD s.listen
  statsInterval := a.statsInterval.getD s.statsInterval
  maxLine := a.maxLine.or s.maxLine

end Arguments

end LineRelay
