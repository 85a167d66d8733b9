/-
# The host a relay listens on

Whether an address can be listened on is the host's affair, and a relay
only learns the answer.  Before the host is asked the text has to name
an address: a socket address as it is written, or a name and a port with
a colon between them, the name to be looked up.
-/
import LineRelay.Net.SocketAddress

namespace LineRelay

/-- What a host answers to those who want to use its network: the addresses
that a name stands for, the address that listening there got (a port of zero
asks for any), and why a socket cannot connect to a listener on the same
host, if it cannot. -/
structure Host where
  lookUp : String → Except String (List IpAddress)
  listen : SocketAddress → Except String SocketAddress
  connect : Except String Unit

/-- Why a relay does not start to listen: there is no listening on the
address, or the address that was got cannot be told. -/
inductive ListenError where
  | cannotBind (addr : String) (cause : String)
  | noAddress (cause : String)
deriving DecidableEq

def ListenError.message : ListenError → String
  | .cannotBind addr cause => "Failed to bind " ++ addr ++ ": " ++ cause
  | .noAddress cause => "Failed to read local address: " ++ cause

namespace Host

/-- The text before its last colon and the text after it. -/
def splitPort? (s : String) : Option (String × String) :=
  let back := s.toList.reverse
  match back.dropWhile (· != ':') with
  | [] => none
  | _ :: before =>
      some (String.ofList before.reverse, String.ofList (back.takeWhile (· != ':')).reverse)

/-- The socket addresses that a text names on the host, or why there are none. -/
def resolve (h : Host) (s : String) : Except String (List SocketAddress) :=
  match SocketAddress.ofString? s with
  | some a => .ok [a]
  | none =>
      match splitPort? s with
      | none => .error "invalid socket address"
      | some (name, port) =>
          match Numeral.readBelow UInt16.size port.toList with
          | .error _ => .error "invalid port value"
          | .ok port => (h.lookUp name).map fun ips => ips.map fun ip => ⟨ip, port.toUInt16, 0⟩

/-- Listen on the first address that allows it; the last refusal counts. -/
def listenFirst (h : Host) (refusal : String) : List SocketAddress → Except String SocketAddress
  | [] => .error refusal
  | a :: rest =>
      match h.listen a with
      | .ok got => .ok got
      | .error cause => listenFirst h cause rest

/-- Listen on the address that a text names. -/
def bind (h : Host) (addr : String) : Except ListenError SocketAddress :=
  match (h.resolve addr).bind (h.listenFirst "could not resolve to any address") with
  | .ok got => .ok got
  | .error cause => .error (.cannotBind addr cause)

end Host

end LineRelay
