/-
# `Outlet` — a transport behind a write buffer

Lines are gathered in a buffer of `capacity` bytes before they go to the
transport.  A send passes through up to four stages, and each of them
may stall or fail:

    makingRoom   the wire does not fit beside what is buffered, so the
                 buffer is written out first
    passing      the wire fills a buffer by itself, so it goes to the
                 transport directly until less than that is left
    emptying     the buffer is written out
    flushing     the transport is flushed

A write that is only interrupted is made again; a flush fails then too.
A send that fails leaves the rest of the buffer where it is, and the
next send begins by writing it.  What it had not yet put into the buffer
is lost: a wire that fails while room is made leaves nothing behind, one
that fails on the direct path leaves the part that had gone out.
-/
import LineRelay.Peer.Transport

namespace LineRelay

/-- How many bytes the buffer holds at most. -/
def capacity : Nat := 8192

/-- Where a send stands that has the transport to itself: the buffer is being
written out, so that `wire` can follow; `rest` of a long wire goes to the
transport directly; the buffer is being written out with the wire in it; or
the transport is being flushed. -/
inductive SendStage where
  | makingRoom (wire : Bytes)
  | passing (rest : Bytes)
  | emptying
  | flushing
deriving DecidableEq

/-- How far a send came; one that stalled waits for the transport. -/
inductive Progress where
  | done
  | failed (f : Failure)
  | stalled (stage : SendStage)
deriving DecidableEq

/-- A transport and the bytes that wait for it. -/
structure Outlet where
  transport : Transport
  buffer : Bytes := []
deriving DecidableEq

namespace Outlet

/-- The failure of a write of buffered bytes that takes none. -/
def bufferRefused : Failure := ⟨.writeZero, some "failed to write the buffered data"⟩

/-- The failure of a direct write that takes no byte. -/
def wireRefused : Failure := ⟨.writeZero, none⟩

/-- The last stage: flush the transport. -/
def flush (o : Outlet) : Outlet × Progress :=
  let (transport, ended) := o.transport.flush
  let o := { o with transport }
  match ended with
  | .done => (o, .done)
  | .refused => (o, .failed bufferRefused)
  | .failed f => (o, .failed f)
  | .stalled => (o, .stalled .flushing)

/-- Write the buffer out, then go on with `next`; `stage` is where the
send stands while this stalls. -/
def drain (o : Outlet) (stage : SendStage) (next : Outlet → Outlet × Progress) :
    Outlet × Progress :=
  let (transport, buffer, ended) := o.transport.offer 0 o.buffer
  let o : Outlet := { transport, buffer }
  match ended with
  | .done => next o
  | .refused => (o, .failed bufferRefused)
  | .failed f => (o, .failed f)
  | .stalled => (o, .stalled stage)

def empty (o : Outlet) : Outlet × Progress := o.drain .emptying flush

/-- Send the rest of a long wire directly, and what is left of it through
the buffer. -/
def pass (o : Outlet) (rest : Bytes) : Outlet × Progress :=
  let (transport, rest, ended) := o.transport.offer (capacity - 1) rest
  let o := { o with transport }
  match ended with
  | .done => empty { o with buffer := o.buffer ++ rest }
  | .refused => (o, .failed wireRefused)
  | .failed f => (o, .failed f)
  | .stalled => (o, .stalled (.passing rest))

/-- Send a wire for which the buffer has room, or that needs none. -/
def place (o : Outlet) (wire : Bytes) : Outlet × Progress :=
  if wire.length < capacity then empty { o with buffer := o.buffer ++ wire } else o.pass wire

def makeRoom (o : Outlet) (wire : Bytes) : Outlet × Progress :=
  o.drain (.makingRoom wire) fun o => o.place wire

def send (o : Outlet) (wire : Bytes) : Outlet × Progress :=
  if capacity < o.buffer.length + wire.length then o.makeRoom wire else o.place wire

def resume (o : Outlet) : SendStage → Outlet × Progress
  | .makingRoom wire => o.makeRoom wire
  | .passing rest => o.pass rest
  | .emptying => o.empty
  | .flushing => o.flush

/-- Whether a send that stands there would find no answer. -/
def stalls (o : Outlet) : SendStage → Bool
  | .flushing => o.transport.flushStalls
  | .makingRoom _ | .passing _ | .emptying => o.transport.writeStalls

end Outlet

end LineRelay
