/-
# `Framer` — lines out of a stream

The reader keeps the beginning of a line across calls, so a call that is
given up in the middle of a line, or that meets a failure, loses nothing:
the next one goes on where it stopped.  A limit `m` bounds the bytes
before the terminator.  Each call may take in `m + 1` bytes less those
kept, which is one more than the limit, to leave room for the terminator
itself; when they are used up without one, the line is too long.

The budget is a 64-bit word.  A limit of `2 ^ 64 - 1` has no successor
there and means no limit.
-/
import LineRelay.Framing.Stream
import LineRelay.Line

namespace LineRelay

/-- Why a call yields no line: the stream failed, it ended in the middle of a
line of `length` bytes, or more than `limit` bytes came without a terminator.
The bytes of such a line are dropped. -/
inductive FramingError where
  | stream (f : Failure)
  | unterminated (length : Nat)
  | tooLong (limit : UInt64)
deriving DecidableEq

namespace FramingError

def message : FramingError → String
  | .stream f => f.message
  | .unterminated length => s!"stream ended with {length} unterminated bytes"
  | .tooLong limit => s!"line too long (max: {limit.toNat} bytes)"

/-- Whether this is an ordinary end of the stream and no failure. -/
def isEnd : FramingError → Bool
  | .unterminated _ => true
  | _ => false

end FramingError

/-- The answer of one call.  `ended` says that the stream ended between two
lines, `notReady` that it has nothing yet. -/
inductive ReadResult where
  | line (l : Line)
  | ended
  | notReady
  | failed (e : FramingError)
deriving DecidableEq

/-- The bytes up to and with the first newline, but at most `n` of them,
and the bytes after those. -/
def takeLine : Nat → Bytes → Bytes × Bytes
  | 0, bs => ([], bs)
  | _ + 1, [] => ([], [])
  | n + 1, b :: bs =>
      if b = newline then ([b], bs)
      else
        let (taken, rest) := takeLine n bs
        (b :: taken, rest)

theorem takeLine_append (n : Nat) (bs : Bytes) :
    (takeLine n bs).1 ++ (takeLine n bs).2 = bs := by
  induction bs generalizing n with
  | nil => cases n <;> rfl
  | cons b bs ih =>
      cases n with
      | zero => rfl
      | succ n =>
          simp only [takeLine]
          split
          · rfl
          · simp [ih n]

/-- A reader of lines: the most bytes a line may have before its terminator,
the line so far, and what the last read brought and no line has taken yet. -/
structure Framer where
  limit : Option UInt64
  kept : Bytes := []
  unread : Bytes := []
deriving DecidableEq

namespace Framer

/-- The budget of a call that is not limited: the greatest word. -/
def unlimited : UInt64 := 0xFFFFFFFFFFFFFFFF

/-- How many bytes a call may take in, by the limit and by how many are
kept.  A limit whose successor is no word limits nothing. -/
def budget (limit : Option UInt64) (kept : Nat) : UInt64 :=
  match limit with
  | none => unlimited
  | some m =>
      if m = unlimited then unlimited
      else if kept.toUInt64 ≤ m + 1 then m + 1 - kept.toUInt64 else 0

/-- The answer once the bytes of this call are in: `kept` ends in a
newline, or the stream ended, or the budget is used up. -/
def conclude (limit : Option UInt64) (kept : Bytes) : ReadResult :=
  if kept.isEmpty then .ended
  else if kept.getLast? = some newline then .line (Line.ofFrame kept)
  else
    match limit with
    | some m =>
        if m.toNat < kept.length then .failed (.tooLong m)
        else .failed (.unterminated kept.length)
    | none => .failed (.unterminated kept.length)

/-- Whether a call needs no more bytes after it has taken `taken` of the
`budget` it had. -/
def isComplete (budget : Nat) (taken : Bytes) : Bool :=
  taken.length = budget || taken.getLast? = some newline

/-- The reader after a call that is over, with `rest` left of its last read. -/
def afterCall (limit : Option UInt64) (rest : Bytes) : Framer := ⟨limit, [], rest⟩

/-- The reader after a call that was cut short with `kept` in hand. -/
def cutShort (limit : Option UInt64) (kept : Bytes) : Framer := ⟨limit, kept, []⟩

/-- One call on the reads that are ready: take from what is unread, and
while that completes nothing go on to the next read.  A read that was
only interrupted is made again. -/
def readFrom (limit : Option UInt64) (ends : Bool) (budget : Nat) (kept unread : Bytes) :
    List Delivery → ReadResult × Framer × List Delivery
  | [] =>
      let (taken, rest) := takeLine budget unread
      if isComplete budget taken || ends then
        (conclude limit (kept ++ taken), afterCall limit rest, [])
      else (.notReady, cutShort limit (kept ++ taken), [])
  | d :: items =>
      let (taken, rest) := takeLine budget unread
      if isComplete budget taken then
        (conclude limit (kept ++ taken), afterCall limit rest, d :: items)
      else
        match d with
        | .data [] | .ended => (conclude limit (kept ++ taken), afterCall limit [], items)
        | .data block =>
            readFrom limit ends (budget - taken.length) (kept ++ taken) block items
        | .failed f =>
            if f.kind = .interrupted then
              readFrom limit ends (budget - taken.length) (kept ++ taken) [] items
            else (.failed (.stream f), cutShort limit (kept ++ taken), items)
        | .notReady => (.notReady, cutShort limit (kept ++ taken), items)

def next (r : Framer) (i : Inlet) : ReadResult × Framer × Inlet :=
  let (result, r, items) :=
    readFrom r.limit i.ends (budget r.limit r.kept.length).toNat r.kept r.unread i.items
  (result, r, { i with items })

/-- The answers of up to `calls` calls.  A call that finds nothing ready
is given up and the next one starts anew; the calls stop early at an end
of the stream after which nothing is left to read. -/
def answers (r : Framer) (i : Inlet) : Nat → List ReadResult
  | 0 => []
  | calls + 1 =>
      let (result, r, i) := r.next i
      if result = .ended ∧ i.items = [] then [result]
      else result :: answers r i calls

end Framer

end LineRelay
