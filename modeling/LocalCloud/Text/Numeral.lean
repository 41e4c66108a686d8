import LocalCloud.Text.Blank

/-!
# Numerals

Reading whole numbers written in digits.  A numeral has at least one digit and nothing else;
the 64-bit reader adds an optional plus sign and the bound.
-/

namespace LocalCloud.Text

/-- The value of a digit in the given base, letters standing for ten and up. -/
def digitValue? (base : Nat) (c : Char) : Option Nat :=
  let value? :=
    if c.isDigit then some (c.toNat - '0'.toNat)
    else if 'a' ≤ c ∧ c ≤ 'z' then some (c.toNat - 'a'.toNat + 10)
    else if 'A' ≤ c ∧ c ≤ 'Z' then some (c.toNat - 'A'.toNat + 10)
    else none
  value?.filter (· < base)

/-- The number that the digits write, most significant first, continuing from `start`. -/
def digitsValue? (base : Nat) : Nat → List Char → Option Nat
  | start, [] => some start
  | start, c :: rest => do
    let digit ← digitValue? base c
    digitsValue? base (start * base + digit) rest

/-- The number that a non-empty text of digits writes. -/
def readDigits? (base : Nat) (text : List Char) : Option Nat :=
  if text.isEmpty then none else digitsValue? base 0 text

/-- One more than the largest number of 64 bits. -/
def wordBound : Nat := Nat.pow 2 64

/-- Digits in the given base whose number has at most 64 bits, behind an optional plus sign. -/
def readWord? (base : Nat) (text : List Char) : Option Nat :=
  let digits := match text with
    | '+' :: rest => rest
    | _ => text
  (readDigits? base digits).filter (· < wordBound)

/-- A decimal number of at most 64 bits, read between blanks. -/
def readTrimmedWord? (text : String) : Option Nat := readWord? 10 (trim text.toList)

end LocalCloud.Text
