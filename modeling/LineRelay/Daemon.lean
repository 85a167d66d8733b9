/-
# The daemon

How a run of the program begins: the command line is read, then the
environment, the first overriding the second; then the relay listens.
Each of the three may end the run before it has begun, with an exit
status and, except for the requests and faults of the command line, a
diagnosis that names the step and its cause.
-/
import LineRelay.Arguments
import LineRelay.Net.Host

namespace LineRelay

/-- Where the beginning of a run leads: to a relay that listens, unless the
command line asks for something else or is faulty, or the environment is, or
the address cannot be listened on. -/
inductive Launch where
  | arguments (e : ArgumentError)
  | environment (e : SettingError)
  | address (listen : String) (e : ListenError)
  | listening (settings : Settings) (bound : SocketAddress)

namespace Launch

/-- The settings of a run, before anything is listened on. -/
def settings (args : List String) (env : String → Option Bytes) :
    Except (ArgumentError ⊕ SettingError) Settings :=
  match Arguments.read args with
  | .error e => .error (.inl e)
  | .ok a =>
      match Settings.ofEnvironment env with
      | .error e => .error (.inr e)
      | .ok s => .ok (a.apply s)

def begin (host : Host) (args : List String) (env : String → Option Bytes) : Launch :=
  match settings args env with
  | .error (.inl e) => .arguments e
  | .error (.inr e) => .environment e
  | .ok s =>
      match host.bind s.listen with
      | .error e => .address s.listen e
      | .ok a => .listening s a

/-- The margin of a cause. -/
def margin : List Char := "    ".toList

/-- A text whose every line begins after the margin. -/
def indented (s : String) : String :=
  String.ofList (margin ++ s.toList.flatMap fun c => if c = '\n' then c :: margin else [c])

/-- A diagnosis: the step that failed, and why. -/
def diagnosis (step cause : String) : String :=
  "Error: " ++ step ++ "\n\nCaused by:\n" ++ indented cause ++ "\n"

/-- What a run that fails says of the failure. -/
def diagnosis? : Launch → Option String
  | .environment e => some (diagnosis "Invalid LINECAST_* environment" e.message)
  | .address listen e => some (diagnosis ("Failed to start relay on " ++ listen) e.message)
  | .arguments _ | .listening .. => none

/-- The exit status of the run.  A relay that listens serves until it is
told to stop, and then has not failed. -/
def exitCode : Launch → Nat
  | .arguments e => if e.isRequest then 0 else 2
  | .environment _ | .address .. => 1
  | .listening .. => 0

def isListening : Launch → Bool
  | .listening .. => true
  | _ => false

end Launch

end LineRelay
