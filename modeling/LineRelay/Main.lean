/-
# The program

The outer layer: it reads the command line and the environment, opens
the sockets, hands what comes in to the relay and carries out what the
relay wants done.  It decides nothing itself.
-/
import LineRelay.Daemon
import LineRelay.Relay.Carrier
import Std.Async.DNS
import Std.Async.Signal
import Std.Async.TCP
import Std.Sync.Channel

namespace LineRelay.Program

open Std.Async (Async Signal)

abbrev Listener := Std.Async.TCP.Socket.Server

abbrev Client := Std.Async.TCP.Socket.Client

/-! ## Addresses -/

def toNet (a : SocketAddress) : Std.Net.SocketAddress :=
  match a.ip with
  | .v4 x y z u => .v4 ⟨.ofParts x y z u, a.port⟩
  | .v6 groups h => .v6 ⟨⟨⟨groups.toArray, by simp [h]⟩⟩, a.port⟩

def ofNetIp : Std.Net.IPAddr → IpAddress
  | .v4 ip => .v4 ip.octets[0] ip.octets[1] ip.octets[2] ip.octets[3]
  | .v6 ip => .v6 ip.segments.toList (by simp)

def ofNet (a : Std.Net.SocketAddress) : SocketAddress := ⟨ofNetIp a.ipAddr, a.port, 0⟩

def lookUp (name : String) : IO (Except String (List IpAddress)) := do
  match SocketAddress.ipOfString? name with
  | some ip => return .ok [ip]
  | none =>
    try
      let ips ← (Std.Async.DNS.getAddrInfo name "").block
      return .ok (ips.toList.map ofNetIp)
    catch e => return .error s!"failed to lookup address information: {e}"

def listenOn (a : SocketAddress) : IO (Except String (Listener × SocketAddress)) := do
  try
    let server ← Std.Async.TCP.Socket.Server.mk
    server.bind (toNet a)
    server.listen 1024
    return .ok (server, ofNet (← server.getSockName))
  catch e => return .error (toString e)

/-- What this host answers to a text that is to be listened on, and the
sockets that listen. -/
def askHost (listen : String) : IO (Host × List (SocketAddress × Listener)) := do
  let name := ((Host.splitPort? listen).map (·.1)).getD ""
  let ips ← lookUp name
  let blank : Host :=
    { lookUp := fun _ => ips, listen := fun _ => .error "", connect := .ok () }
  match blank.resolve listen with
  | .error _ => return (blank, [])
  | .ok addresses =>
    let tried ← addresses.mapM fun a => do return (a, ← listenOn a)
    let answers := tried.map fun (a, r) => (a, r.map (·.2))
    let sockets := tried.filterMap fun (_, r) => r.toOption.map fun (s, got) => (got, s)
    return ({ blank with listen := fun a => (answers.lookup a).getD (.error "") }, sockets)

/-! ## Carrying the relay -/

/-- What comes in from outside: a client, or why there is none; the end of a
read or of a write; the time that passes; and the signal that tells the
program to stop. -/
inductive Incoming where
  | accepted (client : Client) (addr : String)
  | acceptFailed (cause : String)
  | read (k : PeerKey) (d : Delivery)
  | wrote (k : PeerKey) (a : WriteAnswer)
  | woken
  | told (name : String)

instance : Inhabited Incoming := ⟨.woken⟩

/-- The socket of a connection, and what is under way there. -/
structure Link where
  key : PeerKey
  client : Client
  reads : Bool := false
  writes : Bool := false
  isShut : Bool := false

/-- The relay and its sockets. -/
structure Carrier where
  world : World
  links : List Link := []
  incoming : Std.Channel Incoming
  listener : Listener
  began : Nat
  armed : Option Nat := none

def serverKey : TaskKey := 0

def background (act : Async Unit) : IO Unit := discard act.asTask

/-- Tell the relay what has come in. -/
def tell (c : Carrier) (i : Incoming) : IO Unit := discard <| c.incoming.send i

/-- A failure in the words of the sockets. -/
def failureOf (e : IO.Error) : Failure := ⟨.other, some (toString e)⟩

/-- Wait for a client. -/
def acceptNext (c : Carrier) : IO Unit :=
  background do
    try
      let client ← c.listener.accept
      let addr ← client.getPeerName
      tell c (.accepted client (ofNet addr).text)
    catch e => tell c (.acceptFailed (toString e))

def readNext (c : Carrier) (k : PeerKey) (client : Client) : IO Unit :=
  background do
    try
      match ← client.recv? Delivery.readSize.toUInt64 with
      | some bs => tell c (.read k (.data bs.data.toList))
      | none => tell c (.read k .ended)
    catch e => tell c (.read k (.failed (failureOf e)))

def writeNext (c : Carrier) (k : PeerKey) (client : Client) (bs : Bytes) : IO Unit :=
  background do
    try
      client.send ⟨bs.toArray⟩
      tell c (.wrote k (.takes bs.length))
    catch e => tell c (.wrote k (.fails (failureOf e)))

def shutNext (client : Client) : IO Unit :=
  background do
    try client.shutdown catch _ => pure ()

/-- Carry out what a connection wants done.  A connection that nobody
holds is let go. -/
def attend (c : Carrier) (l : Link) : IO (Option Link) := do
  let mut l := l
  let transport := ((c.world.peer? l.key).map (·.outlet.transport)).getD {}
  let isHeld := c.world.isHeld l.key
  if !l.isShut && (0 < transport.shutdowns || !isHeld) then
    shutNext l.client
    l := { l with isShut := true }
  if !isHeld then
    return none
  let offered := c.world.offered l.key
  if !l.writes && !offered.isEmpty then
    writeNext c l.key l.client offered
    l := { l with writes := true }
  if !l.reads && c.world.connections[l.key]?.any (·.inlet.items.isEmpty) then
    readNext c l.key l.client
    l := { l with reads := true }
  return some l

def writeLog (e : Note.Entry) : IO Unit := do
  let out ← IO.getStdout
  out.putStrLn e.text
  out.flush

/-- Wake the relay when its next task is due. -/
def arm (c : Carrier) : IO Carrier := do
  match c.world.nextWake with
  | none => return c
  | some due =>
    if c.armed = some due then return c
    let ms := min (due - c.world.now) 86400000
    discard <| IO.asTask do
      IO.sleep ms.toUInt32
      tell c .woken
    return { c with armed := some due }

/-- Everyone goes on until all wait; then the carrier does its part. -/
def goOn (c : Carrier) : IO Carrier := do
  let c := { c with world := c.world.settle }
  for n in c.world.journal do
    if let some e := n.entry? then writeLog e
  let links ← c.links.filterMapM (attend c)
  arm { c with links, world := c.world.forget }

/-- What has come in, as a move of the relay.  A failed read ends the
reads of its connection. -/
def takeIn (c : Carrier) : Incoming → Carrier
  | .accepted client addr =>
      let k := c.world.connections.length
      let w := (c.world.move (.arrive serverKey (.connection ⟨addr⟩ .carried .silent))).settle
      let links := if k < w.connections.length then [{ key := k, client : Link }] else []
      { c with world := w, links := c.links ++ links }
  | .acceptFailed cause =>
      { c with world := c.world.move (.arrive serverKey (.failure ⟨.other, some cause⟩)) }
  | .read k d =>
      let stays (l : Link) : Link :=
        match d with
        | .data _ => if l.key = k then { l with reads := false } else l
        | _ => l
      { c with world := c.world.move (.supply k d), links := c.links.map stays }
  | .wrote k a =>
      let idle (l : Link) : Link := if l.key = k then { l with writes := false } else l
      { c with world := c.world.move (.answer k a), links := c.links.map idle }
  | .woken => { c with armed := none }
  | .told _ => { c with world := c.world.move .shutdown }

/-- Serve until the server task has ended. -/
partial def serve (c : Carrier) : IO Unit := do
  if c.world.hasEnded serverKey then return
  let i ← c.incoming.sync.recv
  let now := (← IO.monoMsNow) - c.began
  match i with
  | .accepted .. | .acceptFailed _ => acceptNext c
  | .told name =>
    writeLog ⟨.info, s!"Received {name}", []⟩
    writeLog ⟨.info, "Shutdown signal received", []⟩
  | _ => pure ()
  let c := { c with world := c.world.move (.elapse (now - c.world.now)) }
  serve (← goOn (takeIn c i))

/-- Stop when a signal comes. -/
def obey (c : Carrier) (s : Signal) (name : String) : IO Unit := do
  let waiter ← Signal.Waiter.mk s false
  let received ← waiter.wait
  background do
    discard <| Std.Async.await received
    tell c (.told name)

/-- Carry a relay out from beginning to end. -/
def runRelay (s : Settings) (listener : Listener) : IO Unit := do
  let server : Server :=
    { listen := s.listen, maxLine := s.maxLine, interval := s.statsInterval.toNat }
  let c : Carrier :=
    { world := ({} : World).spawn (.server server), incoming := ← Std.Channel.new, listener
      began := ← IO.monoMsNow }
  obey c .sigterm "SIGTERM"
  obey c .sigint "SIGINT"
  acceptNext c
  serve (← goOn c)

/-! ## The command line -/

def usage : String :=
  "linecastd - broadcasts each line to every other connected peer\n\n"
    ++ "Usage: linecastd [OPTIONS]\n\nOptions:\n"
    ++ "  -l, --listen <LISTEN>                        Address to listen on\n"
    ++ "      --stats-interval-ms <STATS_INTERVAL_MS>  Report interval in milliseconds\n"
    ++ "      --max-line <MAX_LINE>                    Maximum line length in bytes\n"
    ++ "  -h, --help                                   Print help\n"
    ++ "  -V, --version                                Print version"

def sayArguments (e : ArgumentError) : IO Unit :=
  match e with
  | .help => IO.println usage
  | .version => IO.println ArgumentError.programVersion
  | e => IO.eprintln (e.headline?.getD "error: unexpected argument" ++ "\n\n" ++ usage)

/-- The variables of the environment that count. -/
def environment : IO (String → Option Bytes) := do
  let keys := [Settings.listenKey, Settings.statsIntervalKey, Settings.maxLineKey]
  let values ← keys.mapM fun k => do return (k, (← IO.getEnv k).map Bytes.ofString)
  return fun k => (values.lookup k).join

def run (args : List String) : IO UInt32 := do
  let env ← environment
  let (host, sockets) ←
    match Launch.settings args env with
    | .ok s => askHost s.listen
    | .error _ => askHost ""
  let launch := Launch.begin host args env
  match launch with
  | .arguments e => sayArguments e
  | .environment _ | .address .. => IO.eprint (launch.diagnosis?.getD "")
  | .listening s bound =>
    writeLog ⟨.info, "linecast daemon starting", [("listen", s.listen)]⟩
    writeLog ⟨.info, "Listening", [("addr", bound.text)]⟩
    if let some listener := sockets.lookup bound then runRelay s listener
    writeLog ⟨.info, "linecast daemon stopped", []⟩
  return launch.exitCode.toUInt32

end LineRelay.Program

def main (args : List String) : IO UInt32 := LineRelay.Program.run args
