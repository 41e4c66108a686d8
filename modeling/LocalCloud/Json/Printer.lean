import LocalCloud.Json.Basic
import LocalCloud.Json.Real

/-!
# Printing JSON

Two forms: `compact` without any blank, and `pretty` with one item a line and two blanks for each
level.  Both keep the order of the fields.
-/

namespace LocalCloud.Json

/-- The lower-case hexadecimal digit of a number below 16. -/
def hexDigit (n : Nat) : Char := "0123456789abcdef".toList.getD n '0'

/-- A character inside a quoted text. -/
def escapeChar (c : Char) : List Char :=
  match c with
  | '\"' => ['\\', '\"']
  | '\\' => ['\\', '\\']
  | '\x08' => ['\\', 'b']
  | '\t' => ['\\', 't']
  | '\n' => ['\\', 'n']
  | '\x0c' => ['\\', 'f']
  | '\r' => ['\\', 'r']
  | c =>
    if c.toNat < 0x20 then
      ['\\', 'u', '0', '0', hexDigit (c.toNat / 16), hexDigit (c.toNat % 16)]
    else [c]

/-- A quoted text. -/
def quote (s : String) : String :=
  String.ofList ('\"' :: s.toList.flatMap escapeChar ++ ['\"'])

/-- The text of a number. -/
def Number.text : Number → String
  | .whole n => toString n
  | .real x => writeReal x

mutual

/-- The text of a value without blanks. -/
def compact : Json → String
  | .null => "null"
  | .bool b => if b then "true" else "false"
  | .number n => n.text
  | .string s => quote s
  | .array items => "[" ++ compactItems items ++ "]"
  | .object fields => "\x7b" ++ compactFields fields ++ "\x7d"

/-- Items with commas between them. -/
def compactItems : List Json → String
  | [] => ""
  | [item] => compact item
  | item :: next :: rest => compact item ++ "," ++ compactItems (next :: rest)

/-- Fields with commas between them. -/
def compactFields : List (String × Json) → String
  | [] => ""
  | [(key, value)] => quote key ++ ":" ++ compact value
  | (key, value) :: next :: rest =>
    quote key ++ ":" ++ compact value ++ "," ++ compactFields (next :: rest)

end

/-- A new line with the margin of a level. -/
def newLine (level : Nat) : String := String.ofList ('\n' :: List.replicate (2 * level) ' ')

mutual

/-- The text of a value with one item a line, standing at a level. -/
def prettyAt (level : Nat) : Json → String
  | .array [] => "[]"
  | .array items => "[" ++ prettyItems (level + 1) items ++ newLine level ++ "]"
  | .object [] => "\x7b\x7d"
  | .object fields => "\x7b" ++ prettyFields (level + 1) fields ++ newLine level ++ "\x7d"
  | .null => "null"
  | .bool b => if b then "true" else "false"
  | .number n => n.text
  | .string s => quote s

/-- Items, each on a line of its own. -/
def prettyItems (level : Nat) : List Json → String
  | [] => ""
  | [item] => newLine level ++ prettyAt level item
  | item :: next :: rest =>
    newLine level ++ prettyAt level item ++ "," ++ prettyItems level (next :: rest)

/-- Fields, each on a line of its own. -/
def prettyFields (level : Nat) : List (String × Json) → String
  | [] => ""
  | [(key, value)] => newLine level ++ quote key ++ ": " ++ prettyAt level value
  | (key, value) :: next :: rest =>
    newLine level ++ quote key ++ ": " ++ prettyAt level value ++ "," ++
      prettyFields level (next :: rest)

end

/-- The text of a value with one item a line. -/
def pretty (v : Json) : String := prettyAt 0 v

/-- A value as part of a text: a string without its quotes, nothing for `null`. -/
def plainText : Json → String
  | .string s => s
  | .null => ""
  | v => v.compact

@[simp] theorem plainText_string (s : String) : plainText (.string s) = s := rfl

@[simp] theorem plainText_null : plainText .null = "" := rfl

end LocalCloud.Json
