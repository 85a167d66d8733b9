/-
# Texts without commands for a terminal

A terminal takes some characters as commands and does not show them: the
control characters, and the sequences that an escape character begins.
What is left of a text without them can be written anywhere.

    ESC, blanks to slashes, one more     a plain sequence
    ESC [ ... one from @ to ~            a control sequence
    ESC ] ... BEL                        a command to the system
    ESC P, ESC X, ESC ^, ESC _ ...       a string

A string, like anything else, ends where the next escape character
begins a new sequence, and at the two control characters that cancel.  A
string ends also at the byte 9C, its terminator in eight-bit form, and
that inside the encoding of a character too.  White space breaks off a
plain or control sequence and is kept; what follows it is text again.
-/

namespace LineRelay.Text.Terminal

/-- Where in a sequence a terminal is.  It shows characters when it is in
none.  Otherwise it is just after the escape character, in a plain or a
control sequence, in a command to the system, before, in or after the
parameters of a device string, or in a string. -/
inductive Mode where
  | showing
  | escape
  | plain
  | control
  | system
  | device
  | parameters
  | intermediates
  | string
deriving DecidableEq

/-- The white space that a terminal acts on while it shows a text. -/
def isSpacing (n : Nat) : Bool := n = 0x9 || n = 0xA || n = 0xC || n = 0xD

/-- Whether the character can be shown: no control character but white
space. -/
def isShown (c : Char) : Bool :=
  if c.toNat < 0x20 then isSpacing c.toNat else c.toNat ≠ 0x7F

/-- The mode after the character that follows the escape character. -/
def Mode.afterEscape (n : Nat) : Mode :=
  if n < 0x20 || n = 0x7F then .escape
  else if n < 0x30 then .plain
  else
    match Char.ofNat n with
    | '[' => .control
    | ']' => .system
    | 'P' => .device
    | 'X' | '^' | '_' => .string
    | _ => .showing

/-- The mode after a character of a sequence, by its code point, which is
below 80 and neither the escape character nor one that cancels. -/
def Mode.next (mode : Mode) (n : Nat) : Mode :=
  let isSilent := n < 0x20 || n = 0x7F
  match mode with
  | .showing => .showing
  | .escape => .afterEscape n
  | .plain => if isSilent || n < 0x30 then .plain else .showing
  | .control => if isSilent || n < 0x40 then .control else .showing
  | .system => if n = 0x7 then .showing else .system
  | .device =>
      if isSilent then .device
      else if n < 0x30 then .intermediates
      else if n < 0x40 then .parameters
      else .string
  | .parameters =>
      if isSilent then .parameters
      else if n < 0x30 then .intermediates
      else if n < 0x3C then .parameters
      else .string
  | .intermediates => if isSilent || n < 0x30 then .intermediates else .string
  | .string => .string

/-- Whether white space breaks a sequence off. -/
def Mode.isBreakable : Mode → Bool
  | .escape | .plain | .control => true
  | _ => false

/-- Whether the encoding of a character holds the byte that ends a string. -/
def endsString (c : Char) : Bool := (String.utf8EncodeChar c).contains 0x9C

/-- The mode after a character beyond the control codes and letters of a
sequence. -/
def Mode.afterForeign (mode : Mode) (c : Char) : Mode :=
  if mode = .string && endsString c then .showing else mode

/-- The characters that are shown, from a mode on. -/
def shownFrom : Mode → List Char → List Char
  | _, [] => []
  | mode, c :: cs =>
      if c.toNat = 0x18 || c.toNat = 0x1A then shownFrom .showing cs
      else if c.toNat = 0x1B then shownFrom .escape cs
      else if mode = .showing || (mode.isBreakable && isSpacing c.toNat) then
        if isShown c then c :: shownFrom .showing cs else shownFrom .showing cs
      else if c.toNat < 0x80 then shownFrom (mode.next c.toNat) cs
      else shownFrom (mode.afterForeign c) cs

/-- A text without what a terminal takes as a command. -/
def shown (s : String) : String := String.ofList (shownFrom .showing s.toList)

def highlighted (s : String) : String := "\x1b[33m" ++ s ++ "\x1b[0m"

/-- A text without control characters is shown as it is. -/
theorem shownFrom_eq_self {cs : List Char} (h : ∀ c ∈ cs, isShown c = true) :
    shownFrom .showing cs = cs := by
  induction cs with
  | nil => rfl
  | cons c cs ih =>
      have hc := h c List.mem_cons_self
      have hcs := ih fun d hd => h d (List.mem_cons_of_mem _ hd)
      have h18 : c.toNat ≠ 0x18 := fun e => by simp [isShown, isSpacing, e] at hc
      have h1A : c.toNat ≠ 0x1A := fun e => by simp [isShown, isSpacing, e] at hc
      have h1B : c.toNat ≠ 0x1B := fun e => by simp [isShown, isSpacing, e] at hc
      simp [shownFrom, h18, h1A, h1B, hc, hcs]

/-- Only characters of the text are shown, in their order. -/
theorem shownFrom_sublist (mode : Mode) (cs : List Char) :
    (shownFrom mode cs).Sublist cs := by
  induction cs generalizing mode with
  | nil => exact .slnil
  | cons c cs ih =>
      unfold shownFrom
      split
      · exact (ih _).cons c
      · split
        · exact (ih _).cons c
        · split
          · split
            · exact (ih _).cons_cons c
            · exact (ih _).cons c
          · split
            · exact (ih _).cons c
            · exact (ih _).cons c

end LineRelay.Text.Terminal
