/-
# The read side of a connection

A stream is what its successive reads give: a block of bytes, the mark
of its end, a failure, or nothing yet.  The end is a mark and not a
state, since a reader may be asked again after it and a stream may then
give more.  No read gives more than `readSize` bytes, so a long stretch
of data arrives as several blocks.
-/
import LineRelay.Bytes
import LineRelay.Failure

namespace LineRelay

/-- What one read of a stream gives: some bytes, the end, a failure, or
nothing yet. -/
inductive Delivery where
  | data (block : Bytes)
  | ended
  | failed (f : Failure)
  | notReady
deriving DecidableEq

namespace Delivery

def readSize : Nat := 8192

/-- The reads that a stretch of bytes supplies: full blocks and a last
shorter one.  A stretch of no bytes reads as an end of the stream. -/
def ofBytes (bs : Bytes) : List Delivery :=
  if bs.isEmpty then [.ended] else (Bytes.blocks (readSize - 1) bs).map .data

/-- The reads that one supplied item takes. -/
def reads : Delivery → List Delivery
  | .data bs => ofBytes bs
  | d => [d]

end Delivery

/-- A stream: the reads that are ready, first things first, and whether every
read after those finds the end.  If not, it finds nothing yet. -/
structure Inlet where
  items : List Delivery
  ends : Bool
deriving DecidableEq

namespace Inlet

/-- A stream whose other side has said nothing so far and may speak later. -/
def silent : Inlet := ⟨[], false⟩

/-- A stream that gives what is listed and then ends, however often it is
asked. -/
def ofScript (script : List Delivery) : Inlet := ⟨script.flatMap Delivery.reads, true⟩

/-- The stream once its other side has supplied `d` as well. -/
def supply (d : Delivery) (i : Inlet) : Inlet := { i with items := i.items ++ d.reads }

end Inlet

end LineRelay
