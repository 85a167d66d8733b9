/-
# What framing means

The frames of a stream, told from its bytes and its ends alone.  Where
the reads cut the bytes, where they found nothing and where they failed
has no place here:

    a byte that is no newline     joins the line, or breaks it as the
                                  first byte over the limit
    a newline                     completes the line
    an end                        is clean between two lines, and breaks
                                  a line it stands in

A broken line is dropped, and the next byte begins a new one.
-/
import LineRelay.Framing.Framer

namespace LineRelay

/-- What a stream holds at one place: a byte, or the mark of an end. -/
inductive Mark where
  | byte (b : UInt8)
  | ended
deriving DecidableEq

/-- What a read contributes to the stream.  One that failed or found
nothing contributes nothing, and one of no bytes is an end. -/
def Delivery.marks : Delivery → List Mark
  | .data [] | .ended => [.ended]
  | .data (b :: bs) => (b :: bs).map .byte
  | .failed _ | .notReady => []

/-- What a stretch of the stream amounts to: a line, an end between two
lines, an end in a line of so many bytes, or a line of more bytes than the
limit allows. -/
inductive Frame where
  | line (bs : Bytes)
  | ended
  | unterminated (length : Nat)
  | tooLong (limit : UInt64)
deriving DecidableEq

namespace Frame

/-- The bytes of a line without one carriage return at their end. -/
def content (bs : Bytes) : Bytes :=
  if bs.getLast? = some carriageReturn then bs.dropLast else bs

/-- The frame of an end after the bytes of an unfinished line. -/
def atEnd : Bytes → Frame
  | [] => .ended
  | b :: bs => .unterminated (b :: bs).length

/-- Whether a line of so many bytes is over the limit, and over which. -/
def exceeded (limit : Option UInt64) (length : Nat) : Option UInt64 :=
  limit.filter fun m => m.toNat < length

/-- The frames of a stream, `line` being the bytes since the last
boundary. -/
def ofMarks (limit : Option UInt64) (line : Bytes) : List Mark → List Frame
  | [] => []
  | .ended :: marks => atEnd line :: ofMarks limit [] marks
  | .byte b :: marks =>
      if b = newline then .line (content line) :: ofMarks limit [] marks
      else
        match exceeded limit (line.length + 1) with
        | some m => .tooLong m :: ofMarks limit [] marks
        | none => ofMarks limit (line ++ [b]) marks

end Frame

/-- The frame that a call answers.  One that found nothing, or whose read
failed, answers none. -/
def ReadResult.frame? : ReadResult → Option Frame
  | .line l => some (.line l.bytes)
  | .ended => some .ended
  | .failed (.unterminated length) => some (.unterminated length)
  | .failed (.tooLong limit) => some (.tooLong limit)
  | .failed (.stream _) | .notReady => none

@[simp] theorem Delivery.marks_ended : Delivery.ended.marks = [.ended] := rfl

@[simp] theorem Delivery.marks_failed (f : Failure) : (Delivery.failed f).marks = [] := rfl

@[simp] theorem Delivery.marks_notReady : Delivery.notReady.marks = [] := rfl

/-- A stretch of bytes contributes the same however it is cut. -/
theorem Delivery.marks_of_blocks {blocks : List Bytes} (h : ∀ block ∈ blocks, block ≠ []) :
    (blocks.map Delivery.data).flatMap Delivery.marks = blocks.flatten.map .byte := by
  induction blocks with
  | nil => rfl
  | cons block blocks ih =>
      have := ih fun b hb => h b (List.mem_cons_of_mem _ hb)
      match block, h block List.mem_cons_self with
      | b :: bs, _ => simp [Delivery.marks, this]

/-- Cutting a supplied item into reads changes nothing in the stream. -/
theorem Delivery.flatMap_marks_reads (d : Delivery) :
    d.reads.flatMap Delivery.marks = d.marks := by
  match d with
  | .ended | .failed _ | .notReady => simp [reads, marks]
  | .data [] => simp [reads, ofBytes, marks]
  | .data (b :: bs) =>
      have h := fun block (hb : block ∈ Bytes.blocks (readSize - 1) (b :: bs)) =>
        (Bytes.mem_blocks hb).1
      have := marks_of_blocks h
      rw [Bytes.flatten_blocks] at this
      exact this

theorem Delivery.flatMap_reads_marks (script : List Delivery) :
    (script.flatMap Delivery.reads).flatMap Delivery.marks = script.flatMap Delivery.marks := by
  induction script with
  | nil => rfl
  | cons d script ih =>
      rw [List.flatMap_cons, List.flatMap_append, d.flatMap_marks_reads, ih, List.flatMap_cons]

end LineRelay
