/-
# Who a peer is

A peer is identified by the number its connection got when it was
accepted.  The address is a label for readers of logs: two connections
from one address are two peers.
-/
import LineRelay.Text.Quoted

namespace LineRelay

/-- The number of a connection. -/
structure PeerId where
  raw : UInt64
deriving DecidableEq

namespace PeerId

instance : Inhabited PeerId := ⟨⟨0⟩⟩

def text (id : PeerId) : String := s!"peer-{id.raw.toNat}"

/-- The number with its type, as a diagnosis shows it. -/
def inspect (id : PeerId) : String := s!"PeerId({id.raw.toNat})"

/-- Peers are ordered by their numbers. -/
def order (a b : PeerId) : Ordering := compare a.raw.toNat b.raw.toNat

end PeerId

/-- The label of a peer's address.  It is text, so that a transport
without network addresses can be labelled too. -/
structure AddressLabel where
  label : String
deriving DecidableEq

namespace AddressLabel

/-- The label with its type, as a diagnosis shows it. -/
def inspect (a : AddressLabel) : String := "PeerAddr(" ++ Text.Quoted.quote a.label ++ ")"

end AddressLabel

/-- What is known of a peer from the moment its connection is accepted, which
is given in milliseconds on the clock in use. -/
structure Identity where
  id : PeerId
  addr : AddressLabel
  connectedAt : Int
deriving DecidableEq

namespace Identity

/-- Whole seconds since the connection was accepted; none are counted if
the clock was set back before that moment. -/
def connectedSeconds (p : Identity) (now : Int) : Nat := ((now - p.connectedAt) / 1000).toNat

end Identity

end LineRelay
