/-
# `Line` — one message, without its terminator

A line is any string of bytes that holds no newline, since the newline
is what ends it on the wire.  That is kept in the type: a line made from
arbitrary bytes stops before their first newline, so no payload can
smuggle in a second line.
-/
import LineRelay.Text.Utf8

namespace LineRelay

/-- One message.  Its content need not be text, but no terminator stands in
it. -/
structure Line where
  bytes : Bytes
  newline_not_mem : newline ∉ bytes
deriving DecidableEq

namespace Line

theorem ext {a b : Line} (h : a.bytes = b.bytes) : a = b := by
  cases a; cases b; cases h; rfl

/-- The bytes before the first newline. -/
def content (bs : Bytes) : Bytes := bs.takeWhile (· != newline)

theorem newline_not_mem_content (bs : Bytes) : newline ∉ content bs := by
  intro h
  have := List.all_takeWhile (p := (· != newline)) (l := bs)
  simp only [List.all_eq_true] at this
  have := this _ h
  simp at this

theorem content_eq_self {bs : Bytes} (h : newline ∉ bs) : content bs = bs := by
  induction bs with
  | nil => rfl
  | cons b bs ih =>
      have hb : b ≠ newline := fun e => h (e ▸ List.mem_cons_self)
      have hbs : newline ∉ bs := fun e => h (List.mem_cons_of_mem _ e)
      have := ih hbs
      simp only [content] at this
      simp [content, hb, this]

/-- The line that arbitrary bytes hold: what stands before their first
newline. -/
def ofBytes (bs : Bytes) : Line := ⟨content bs, newline_not_mem_content bs⟩

def ofString (s : String) : Line := ofBytes (Bytes.ofString s)

def empty : Line := ⟨[], by simp⟩

/-- `bs` without its last byte, if that is `b`. -/
def dropLast (b : UInt8) (bs : Bytes) : Bytes :=
  if bs.getLast? = some b then bs.dropLast else bs

/-- The line in a frame read off the wire: the frame less its newline
and less one carriage return before that, so that lines ended either way
relay alike.  A frame without a newline is taken as it is. -/
def ofFrame (frame : Bytes) : Line :=
  ofBytes (if frame.getLast? = some newline then dropLast carriageReturn frame.dropLast else frame)

/-- The line as it goes out, terminator included. -/
def toWire (l : Line) : Bytes := l.bytes ++ [newline]

/-- The line as a reader of logs sees it. -/
def text (l : Line) : String := Text.Utf8.decodeLenient l.bytes

@[simp] theorem bytes_ofBytes (bs : Bytes) : (ofBytes bs).bytes = content bs := rfl

@[simp] theorem ofBytes_bytes (l : Line) : ofBytes l.bytes = l :=
  ext (content_eq_self l.newline_not_mem)

theorem toWire_ne_nil (l : Line) : l.toWire ≠ [] := by simp [toWire]

theorem toWire_injective {a b : Line} (h : a.toWire = b.toWire) : a = b :=
  ext (by simpa [toWire] using h)

end Line

end LineRelay
