/-
# `Registry` — one membership behind a queue of commands

All who read or change the membership send a command and wait for its
reply.  Commands enter a queue of `queueSize` places, in an order that
is up to the callers, and are served one at a time from its front; so
every change has its place in one order, and a snapshot never shows half
of one.  A caller holds a ticket for its reply.  Whether it still waits
when the reply comes makes no difference to the registry.

A registry that has stopped serves no more: its queue is dropped, and a
ticket without a reply whose command is not queued will never have one.
A registry that is deaf takes commands and drops them.
-/
import LineRelay.Registry.Membership

namespace LineRelay

/-- The number of a request. -/
abbrev Ticket := Nat

/-- Whether commands are served, taken and dropped, or not even taken. -/
inductive Service where
  | serving
  | deaf
  | stopped
deriving DecidableEq

/-- Why a request has no reply: nobody will serve it. -/
inductive RequestError where
  | unserved
deriving DecidableEq

def RequestError.message : RequestError → String
  | .unserved => "registry channel closed"

/-- A request that was served: whose it was, what was asked and what was
replied. -/
structure Served where
  ticket : Ticket
  command : Command
  reply : Reply
deriving DecidableEq

/-- The registry: the peers registered, the commands that wait, first things
first, and the requests served and the events published so far, in their
order. -/
structure Registry where
  service : Service := .serving
  membership : Membership := {}
  queue : List (Ticket × Command) := []
  served : List Served := []
  events : List Change := []
  nextTicket : Ticket := 0
deriving DecidableEq

namespace Registry

def queueSize : Nat := 256

/-- Whether a command can enter now.  A registry that has stopped keeps
nobody waiting. -/
def admits (r : Registry) : Bool := r.service = .stopped || r.queue.length < queueSize

/-- Send a command: the registry, and the ticket for the reply. -/
def request (r : Registry) (c : Command) : Registry × Ticket :=
  let queue := if r.service = .stopped then r.queue else r.queue ++ [(r.nextTicket, c)]
  ({ r with queue, nextTicket := r.nextTicket + 1 }, r.nextTicket)

/-- Serve the command at the front of the queue, and tell what event it
published.  `none` if there is nothing to serve. -/
def serve (r : Registry) (rank : PeerId → Nat) : Option (Registry × Option Change) :=
  match r.queue with
  | [] => none
  | (ticket, command) :: queue =>
      if r.service = .serving then
        let (membership, reply, event) := r.membership.apply rank command
        some ({ r with
          membership, queue
          served := r.served ++ [⟨ticket, command, reply⟩]
          events := r.events ++ event.toList }, event)
      else some ({ r with queue }, none)

/-- Stop: the queue is dropped, and the handles with the membership. -/
def stop (r : Registry) : Registry :=
  { r with service := .stopped, membership := {}, queue := [] }

/-- The reply to a ticket.  `none` while it can still come. -/
def answer? (r : Registry) (t : Ticket) : Option (Except RequestError Reply) :=
  match r.served.find? (·.ticket = t) with
  | some s => some (.ok s.reply)
  | none => if r.queue.any (·.1 = t) then none else some (.error .unserved)

def isConnected (r : Registry) : Bool := r.service ≠ .stopped

end Registry

/-! ## Watching the events -/

/-- What one who watches the events is given: an event, or the news that the
oldest `n` that waited were overwritten. -/
inductive Watched where
  | event (e : Change)
  | lagged (n : Nat)
deriving DecidableEq

/-- What has been published since the first `seen` events, to one for
whom the last `room` events are kept. -/
def Registry.watch (r : Registry) (room seen : Nat) : List Watched :=
  let missed := (r.events.length - seen) - room
  (if missed = 0 then [] else [.lagged missed])
    ++ (r.events.drop (seen + missed)).map .event

end LineRelay
