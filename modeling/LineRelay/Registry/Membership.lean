/-
# `Membership` — the set of registered peers, and the commands on it

A map from peer ids to handles.  Registering an id that is present
changes nothing; unregistering one that is absent changes nothing; a
change publishes one event.  In which order a snapshot lists the members
is not the map's to say: it is given by a rank of the ids, and any rank
will do.
-/
import LineRelay.Peer.Identity

namespace LineRelay

/-- A handle to a peer: the key under which the relay keeps its state. -/
abbrev PeerKey := Nat

/-- Why a peer left: its own reads ended or failed, a broadcast could not
write to it, or the relay shuts down. -/
inductive Reason where
  | disconnected
  | writeFailed
  | shutdown
deriving DecidableEq

def Reason.text : Reason → String
  | .disconnected => "disconnected"
  | .writeFailed => "pruned after failed write"
  | .shutdown => "server shutdown"

/-- A registered peer, and where its state is. -/
structure Member where
  info : Identity
  handle : PeerKey
deriving DecidableEq

/-- What can be asked of the registry.  A snapshot lists the members, all or
all but one. -/
inductive Command where
  | register (m : Member)
  | unregister (id : PeerId) (reason : Reason)
  | snapshot (except : Option PeerId)
  | size
  | contains (id : PeerId)
deriving DecidableEq

/-- What the registry replies, to each command in its turn: whether the peer
is new, the peer that was removed, the members listed, their number, or
whether the id is registered. -/
inductive Reply where
  | registered (new : Bool)
  | removed (m : Option Member)
  | members (ms : List Member)
  | count (n : Nat)
  | present (b : Bool)
deriving DecidableEq

/-- A change of the membership. -/
inductive Change where
  | registered (peer : Identity)
  | removed (peer : Identity) (reason : Reason)
deriving DecidableEq

/-- Put an element where its rank is not above that of the next. -/
def insertRanked {α : Type} (rank : α → Nat) (a : α) : List α → List α
  | [] => [a]
  | b :: bs => if rank a ≤ rank b then a :: b :: bs else b :: insertRanked rank a bs

/-- The elements by ascending rank. -/
def ranked {α : Type} (rank : α → Nat) (as : List α) : List α := as.foldr (insertRanked rank) []

theorem perm_insertRanked {α : Type} (rank : α → Nat) (a : α) (as : List α) :
    (insertRanked rank a as).Perm (a :: as) := by
  induction as with
  | nil => exact .refl _
  | cons b bs ih =>
      unfold insertRanked
      split
      · exact .refl _
      · exact (ih.cons b).trans (.swap a b bs)

/-- Ranking only reorders. -/
theorem perm_ranked {α : Type} (rank : α → Nat) (as : List α) : (ranked rank as).Perm as := by
  induction as with
  | nil => exact .refl _
  | cons a as ih => exact (perm_insertRanked rank a _).trans (ih.cons a)

/-- The registered peers, no two with one id and the newest last. -/
structure Membership where
  members : List Member := []
deriving DecidableEq

namespace Membership

def find? (m : Membership) (id : PeerId) : Option Member := m.members.find? (·.info.id = id)

def contains (m : Membership) (id : PeerId) : Bool := (m.find? id).isSome

def size (m : Membership) : Nat := m.members.length

def erase (m : Membership) (id : PeerId) : Membership := ⟨m.members.filter (·.info.id ≠ id)⟩

/-- The members, all or all but one, by ascending rank of their ids. -/
def list (m : Membership) (rank : PeerId → Nat) (except : Option PeerId) : List Member :=
  ranked (fun a => rank a.info.id) (m.members.filter fun a => some a.info.id ≠ except)

/-- Carry out a command: the membership after it, the reply, and the
event it publishes if it changes anything. -/
def apply (m : Membership) (rank : PeerId → Nat) :
    Command → Membership × Reply × Option Change
  | .register a =>
      if m.contains a.info.id then (m, .registered false, none)
      else (⟨m.members ++ [a]⟩, .registered true, some (.registered a.info))
  | .unregister id reason =>
      match m.find? id with
      | none => (m, .removed none, none)
      | some a => (m.erase id, .removed (some a), some (.removed a.info reason))
  | .snapshot except => (m, .members (m.list rank except), none)
  | .size => (m, .count m.size, none)
  | .contains id => (m, .present (m.contains id), none)

end Membership

end LineRelay
