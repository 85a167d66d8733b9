/-
# Numerals of 64-bit words

A numeral is an optional plus sign and decimal digits, any number of
leading zeros among them.  Reading goes from left to right and stops at
the first fault, so of a foreign character and an excess over the
greatest word the one met first is reported.
-/

namespace LineRelay.Numeral

/-- Why a text is no numeral of a word: it has no characters, it has one that
is no digit or is a sign alone, or its digits exceed the greatest word. -/
inductive Fault where
  | empty
  | invalidDigit
  | tooLarge
deriving DecidableEq

def Fault.message : Fault → String
  | .empty => "cannot parse integer from empty string"
  | .invalidDigit => "invalid digit found in string"
  | .tooLarge => "number too large to fit in target type"

def digit? (c : Char) : Option Nat :=
  if '0' ≤ c ∧ c ≤ '9' then some (c.toNat - '0'.toNat) else none

/-- Read digits below the bound, `value` being that of the digits before. -/
def readDigits (bound value : Nat) : List Char → Except Fault Nat
  | [] => .ok value
  | c :: cs =>
      match digit? c with
      | none => .error .invalidDigit
      | some d =>
          if value * 10 + d < bound then readDigits bound (value * 10 + d) cs
          else .error .tooLarge

/-- Read a numeral of a number below the bound. -/
def readBelow (bound : Nat) : List Char → Except Fault Nat
  | [] => .error .empty
  | ['+'] => .error .invalidDigit
  | '+' :: cs => readDigits bound 0 cs
  | cs => readDigits bound 0 cs

def readWord (cs : List Char) : Except Fault UInt64 :=
  (readBelow UInt64.size cs).map Nat.toUInt64

end LineRelay.Numeral
