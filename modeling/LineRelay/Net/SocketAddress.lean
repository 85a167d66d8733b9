/-
# Socket addresses, read and written

An address is four numbers or eight groups, with a port.  Reading takes
the usual forms: `1.2.3.4:80`, and in brackets eight groups to base
sixteen, of which `::` may stand for a run of zeros and the last two may
be written as four numbers; a zone may follow them after a percent sign.
Writing is canonical: the longest run of two or more zero groups, the
first of several, becomes `::`, and an address that embeds four numbers
after five zero groups and `ffff` shows them.
-/
import LineRelay.Settings.Numeral

namespace LineRelay

/-- A network address: four numbers, or eight groups of sixteen bits. -/
inductive IpAddress where
  | v4 (a b c d : UInt8)
  | v6 (groups : List UInt16) (length_groups : groups.length = 8)
deriving DecidableEq

/-- A network address and a port there.  The zone is zero where none is
meant. -/
structure SocketAddress where
  ip : IpAddress
  port : UInt16
  zone : UInt32 := 0
deriving DecidableEq

namespace SocketAddress

/-! ## Reading

A reader yields a value and the characters it leaves. -/

/-- The value of a digit to base sixteen. -/
def hexDigit? (c : Char) : Option Nat :=
  if '0' ≤ c ∧ c ≤ '9' then some (c.toNat - '0'.toNat)
  else if 'a' ≤ c ∧ c ≤ 'f' then some (c.toNat - 'a'.toNat + 10)
  else if 'A' ≤ c ∧ c ≤ 'F' then some (c.toNat - 'A'.toNat + 10)
  else none

def digit? (base : Nat) (c : Char) : Option Nat := (hexDigit? c).filter (· < base)

/-- A number to the given base and below the bound: at least one digit,
at most `most` if that is given, and a leading zero only where `zeros`
allows it. -/
def number (base : Nat) (most : Option Nat) (zeros : Bool) (bound : Nat) (cs : List Char) :
    Option (Nat × List Char) :=
  let digits := cs.takeWhile fun c => (digit? base c).isSome
  let value := digits.foldl (fun v c => v * base + (digit? base c).getD 0) 0
  if digits.isEmpty then none
  else if most.any (· < digits.length) then none
  else if !zeros && digits.head? = some '0' && 1 < digits.length then none
  else if value < bound then some (value, cs.drop digits.length)
  else none

def given (c : Char) : List Char → Option (Unit × List Char)
  | [] => none
  | d :: cs => if d = c then some ((), cs) else none

/-- One of the parts of a list: the separator stands before each but the first. -/
def part {α : Type} (separator : Char) (first : Bool) (inner : List Char → Option (α × List Char))
    (cs : List Char) : Option (α × List Char) :=
  if first then inner cs else (given separator cs).bind fun r => inner r.2

/-- Four numbers below 256, with points between them. -/
def readV4 (cs : List Char) : Option ((UInt8 × UInt8 × UInt8 × UInt8) × List Char) := do
  let byte := number 10 (some 3) false 256
  let (a, cs) ← byte cs
  let (b, cs) ← part '.' false byte cs
  let (c, cs) ← part '.' false byte cs
  let (d, cs) ← part '.' false byte cs
  return ((a.toUInt8, b.toUInt8, c.toUInt8, d.toUInt8), cs)

/-- Two bytes as a group. -/
def pair (a b : UInt8) : UInt16 := a.toUInt16 * 256 + b.toUInt16

/-- As many groups as there are, up to a number; the last two of those
may be written as four numbers, which ends the groups.  The flag says
whether that happened. -/
def readGroups : Nat → Bool → List Char → List UInt16 × Bool × List Char
  | 0, _, cs => ([], false, cs)
  | left + 1, first, cs =>
      match if 1 ≤ left then part ':' first readV4 cs else none with
      | some ((a, b, c, d), rest) => ([pair a b, pair c d], true, rest)
      | none =>
          match part ':' first (number 16 (some 4) true UInt16.size) cs with
          | some (group, rest) =>
              let (groups, embedded, rest) := readGroups left false rest
              (group.toUInt16 :: groups, embedded, rest)
          | none => ([], false, cs)

/-- Eight groups as an address. -/
def ofGroups? (groups : List UInt16) : Option IpAddress :=
  if h : groups.length = 8 then some (.v6 groups h) else none

/-- Eight groups, or fewer around a `::` that stands for one or more. -/
def readV6 (cs : List Char) : Option (IpAddress × List Char) := do
  let (head, embedded, cs) := readGroups 8 true cs
  if head.length = 8 then return (← ofGroups? head, cs)
  if embedded then none
  let (_, cs) ← given ':' cs
  let (_, cs) ← given ':' cs
  let (tail, _, cs) := readGroups (7 - head.length) true cs
  let zeros := List.replicate (8 - head.length - tail.length) 0
  return (← ofGroups? (head ++ zeros ++ tail), cs)

/-- A colon and a port. -/
def readPort (cs : List Char) : Option (UInt16 × List Char) := do
  let (_, cs) ← given ':' cs
  let (port, cs) ← number 10 none true UInt16.size cs
  return (port.toUInt16, cs)

/-- A percent sign and a zone, or nothing. -/
def readZone (cs : List Char) : UInt32 × List Char :=
  match (given '%' cs).bind fun r => number 10 none true UInt32.size r.2 with
  | some (zone, cs) => (zone.toUInt32, cs)
  | none => (0, cs)

/-- Four numbers with a port. -/
def readSocketV4 (cs : List Char) : Option (SocketAddress × List Char) := do
  let ((a, b, c, d), cs) ← readV4 cs
  let (port, cs) ← readPort cs
  return (⟨.v4 a b c d, port, 0⟩, cs)

/-- Eight groups in brackets with a port. -/
def readSocketV6 (cs : List Char) : Option (SocketAddress × List Char) := do
  let (_, cs) ← given '[' cs
  let (ip, cs) ← readV6 cs
  let (zone, cs) := readZone cs
  let (_, cs) ← given ']' cs
  let (port, cs) ← readPort cs
  return (⟨ip, port, zone⟩, cs)

/-- The whole of a text, read. -/
def whole {α : Type} (inner : List Char → Option (α × List Char)) (s : String) : Option α :=
  match inner s.toList with
  | some (a, []) => some a
  | _ => none

/-- The socket address that a text spells. -/
def ofString? (s : String) : Option SocketAddress :=
  whole (fun cs => readSocketV4 cs <|> readSocketV6 cs) s

def ipOfString? (s : String) : Option IpAddress :=
  whole (fun cs =>
    ((readV4 cs).map fun ((a, b, c, d), cs) => (.v4 a b c d, cs)) <|> readV6 cs) s

/-- What a text that spells none is answered with. -/
def unreadable : String := "invalid socket address syntax"

/-! ## Writing -/

def textV4 (a b c d : UInt8) : String :=
  s!"{a.toNat}.{b.toNat}.{c.toNat}.{d.toNat}"

def textGroups (groups : List UInt16) : String :=
  ":".intercalate (groups.map fun g => String.ofList (Nat.toDigits 16 g.toNat))

/-- The first of the longest runs of zero groups, as its start and its
length; `i` is the index of the next group, `run` the length of the run
that ends before it. -/
def longestZeros (i run : Nat) (best : Nat × Nat) : List UInt16 → Nat × Nat
  | [] => best
  | g :: groups =>
      if g = 0 then
        let best := if best.2 < run + 1 then (i - run, run + 1) else best
        longestZeros (i + 1) (run + 1) best groups
      else longestZeros (i + 1) 0 best groups

/-- Eight groups, abridged. -/
def textV6 (groups : List UInt16) : String :=
  match groups with
  | [0, 0, 0, 0, 0, 0xFFFF, x, y] =>
      "::ffff:" ++ textV4 (x / 256).toUInt8 x.toUInt8 (y / 256).toUInt8 y.toUInt8
  | _ =>
      let (start, length) := longestZeros 0 0 (0, 0) groups
      if 1 < length then
        textGroups (groups.take start) ++ "::" ++ textGroups (groups.drop (start + length))
      else textGroups groups

end SocketAddress

/-- The address in its canonical form. -/
def IpAddress.text : IpAddress → String
  | .v4 a b c d => SocketAddress.textV4 a b c d
  | .v6 groups _ => SocketAddress.textV6 groups

def SocketAddress.text (s : SocketAddress) : String :=
  match s.ip with
  | .v4 .. => s.ip.text ++ s!":{s.port.toNat}"
  | .v6 .. =>
      let zone := if s.zone = 0 then "" else s!"%{s.zone.toNat}"
      "[" ++ s.ip.text ++ zone ++ s!"]:{s.port.toNat}"

end LineRelay
