import LocalCloud.Text.Extending
import LocalCloud.Text.Unprintable

/-!
# Quoted texts

A text between quotation marks in which everything that cannot be told by looking at it is spelled
out: the marks themselves, backslashes, characters that are not printed, and characters that extend
the one before them.
-/

namespace LocalCloud.Text

/-- One character of a quoted text. -/
def quoteChar (c : Char) : List Char :=
  if c = '"' ∨ c = '\\' then ['\\', c]
  else if c.toNat = 0 then ['\\', '0']
  else if c = '\t' then ['\\', 't']
  else if c = '\r' then ['\\', 'r']
  else if c = '\n' then ['\\', 'n']
  else if isExtending c || isUnprintable c then
    '\\' :: 'u' :: '\x7b' :: Nat.toDigits 16 c.toNat ++ ['\x7d']
  else [c]

/-- A text between quotation marks. -/
def quote (s : String) : String := String.ofList ('"' :: s.toList.flatMap quoteChar ++ ['"'])

end LocalCloud.Text
