/-
# Quoted texts

A value that a message quotes stands in double quotes, so that blanks
and an empty text can be seen.  What would end or change the quotation,
or could not be seen in it, is written as an escape; all else stands as
it is, single quotes included.
-/
import LineRelay.Text.Printable

namespace LineRelay.Text.Quoted

/-- The digits of a number to base sixteen, without leading zeros. -/
def hex (n : Nat) : List Char := Nat.toDigits 16 n

/-- How a character stands in a quoted text. -/
def escape (c : Char) : List Char :=
  if c = '\x00' then ['\\', '0']
  else if c = '\t' then ['\\', 't']
  else if c = '\r' then ['\\', 'r']
  else if c = '\n' then ['\\', 'n']
  else if c = '\\' || c = '"' then ['\\', c]
  else if isExtending c || !isPrintable c then ['\\', 'u', '\x7b'] ++ hex c.toNat ++ ['\x7d']
  else [c]

/-- The text in double quotes. -/
def quote (s : String) : String :=
  String.ofList (['"'] ++ s.toList.flatMap escape ++ ['"'])

end LineRelay.Text.Quoted
