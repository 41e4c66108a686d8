import LocalCloud.Json.Basic
import LocalCloud.Json.Real
import LocalCloud.Text.Cut
import LocalCloud.Text.Numeral

/-!
# Reading JSON

The strict grammar: no comments, no commas at the end, no zeros in front, no control characters
in a text, no half of a surrogate pair, and no value below 127 levels of brackets.  A key that
occurs again keeps its place and takes the later value.

A reader takes the rest of the text and gives what it has read with what is left, or `none` when
the text is not in the grammar.
-/

namespace LocalCloud.Json

/-- The deepest nesting of brackets that is read. -/
def maxNesting : Nat := 127

/-- The characters that may stand between two tokens. -/
def isSpace (c : Char) : Bool := c == ' ' || c == '\t' || c == '\n' || c == '\r'

/-- The text behind the space at its start. -/
def skipSpace (text : List Char) : List Char := text.dropWhile isSpace

/-- The number of the four hexadecimal digits of an escape. -/
def hexQuad? (a b c d : Char) : Option Nat := Text.digitsValue? 16 0 [a, b, c, d]

/-- The character that follows a backslash in a short escape. -/
def shortEscape? : Char → Option Char
  | '\"' => some '\"'
  | '\\' => some '\\'
  | '/' => some '/'
  | 'b' => some '\x08'
  | 'f' => some '\x0c'
  | 'n' => some '\n'
  | 'r' => some '\r'
  | 't' => some '\t'
  | _ => none

/-- The rest of a quoted text behind its first quote; `done` holds what has been read, last
character first. -/
def readQuoted (done : List Char) : List Char → Option (String × List Char)
  | [] => none
  | '\"' :: rest => some (String.ofList done.reverse, rest)
  | '\\' :: 'u' :: a :: b :: c :: d :: rest =>
    match hexQuad? a b c d with
    | none => none
    | some high =>
      if high < 0xD800 ∨ 0xDFFF < high then readQuoted (Char.ofNat high :: done) rest
      else if 0xDC00 ≤ high then none
      else match rest with
        | '\\' :: 'u' :: e :: f :: g :: h :: rest =>
          match hexQuad? e f g h with
          | none => none
          | some low =>
            if 0xDC00 ≤ low ∧ low ≤ 0xDFFF then
              let n := 0x10000 + (high - 0xD800) * 0x400 + (low - 0xDC00)
              readQuoted (Char.ofNat n :: done) rest
            else none
        | _ => none
  | '\\' :: c :: rest =>
    match shortEscape? c with
    | some e => readQuoted (e :: done) rest
    | none => none
  | c :: rest => if c.toNat < 0x20 ∨ c = '\\' then none else readQuoted (c :: done) rest

/-- The digits at the start of a text. -/
def takeDigits (text : List Char) : List Nat × List Char :=
  ((text.takeWhile Char.isDigit).map fun c => c.toNat - '0'.toNat, text.dropWhile Char.isDigit)

/-- The exponent part of a number: its value and what is left.  Without one the value is zero. -/
def readExponent (text : List Char) : Option (Int × List Char) :=
  match text with
  | e :: rest =>
    if e = 'e' ∨ e = 'E' then
      let (negative, rest) := match rest with
        | '-' :: rest => (true, rest)
        | '+' :: rest => (false, rest)
        | _ => (false, rest)
      let (digits, rest) := takeDigits rest
      if digits.isEmpty then none
      else
        let n : Nat := digits.foldl (fun n d => n * 10 + d) 0
        some (if negative then -(n : Int) else n, rest)
    else some (0, text)
  | [] => some (0, [])

/-- The real number with the given sign. -/
def signedReal (negative : Bool) (s : Significand) : Option Number :=
  s.value?.map fun x => .real (if negative then -x else x)

/-- A number without fraction and exponent: whole if it fits 64 bits with its sign, real
otherwise.  Minus zero is real. -/
def wholeOrReal (negative : Bool) (digits : List Nat) : Option Number :=
  let n : Nat := digits.foldl (fun n d => n * 10 + d) 0
  if negative then
    if 0 < n ∧ n ≤ Nat.pow 2 63 then some (.whole (-(n : Int)))
    else signedReal true (digits.foldl Significand.pushWhole ⟨0, 0, false⟩)
  else
    if n < Nat.pow 2 64 then some (.whole n)
    else signedReal false (digits.foldl Significand.pushWhole ⟨0, 0, false⟩)

/-- A number behind its sign. -/
def readUnsigned (negative : Bool) (text : List Char) : Option (Number × List Char) := do
  let (whole, rest) := takeDigits text
  if whole.isEmpty ∨ (whole.head? = some 0 ∧ 1 < whole.length) then none
  else
    let (hasPoint, afterPoint) := match rest with
      | '.' :: rest => (true, rest)
      | _ => (false, rest)
    let (fraction, rest) := if hasPoint then takeDigits afterPoint else ([], rest)
    if hasPoint ∧ fraction.isEmpty then none
    else
      let hasExponent := match rest with
        | c :: _ => c == 'e' || c == 'E'
        | [] => false
      if !hasPoint && !hasExponent then
        let n ← wholeOrReal negative whole
        some (n, rest)
      else
        let (exponent, rest) ← readExponent rest
        let s := whole.foldl Significand.pushWhole ⟨0, 0, false⟩
        let s := fraction.foldl Significand.pushFraction { s with full := false }
        let n ← signedReal negative { s with exponent := s.exponent + exponent }
        some (n, rest)

mutual

/-- A value, at most `depth` levels of brackets deep. -/
def readValue : (fuel : Nat) → (depth : Nat) → List Char → Option (Json × List Char)
  | 0, _, _ => none
  | fuel + 1, depth, text =>
    match skipSpace text with
    | 'n' :: 'u' :: 'l' :: 'l' :: rest => some (.null, rest)
    | 't' :: 'r' :: 'u' :: 'e' :: rest => some (.bool true, rest)
    | 'f' :: 'a' :: 'l' :: 's' :: 'e' :: rest => some (.bool false, rest)
    | '\"' :: rest => (readQuoted [] rest).map fun (s, rest) => (.string s, rest)
    | '-' :: rest => (readUnsigned true rest).map fun (n, rest) => (.number n, rest)
    | '[' :: rest =>
      match depth, skipSpace rest with
      | 0, _ => none
      | _ + 1, ']' :: rest => some (.array [], rest)
      | depth + 1, rest => (readItems fuel depth [] rest).map fun (l, rest) => (.array l, rest)
    | '\x7b' :: rest =>
      match depth, skipSpace rest with
      | 0, _ => none
      | _ + 1, '\x7d' :: rest => some (.object [], rest)
      | depth + 1, rest => (readFields fuel depth [] rest).map fun (l, rest) => (.object l, rest)
    | rest => (readUnsigned false rest).map fun (n, rest) => (.number n, rest)

/-- The items of an array up to its closing bracket; `done` holds those read, last first. -/
def readItems : (fuel : Nat) → (depth : Nat) → List Json → List Char →
    Option (List Json × List Char)
  | 0, _, _, _ => none
  | fuel + 1, depth, done, text =>
    match readValue fuel depth text with
    | none => none
    | some (item, rest) =>
      match skipSpace rest with
      | ',' :: rest => readItems fuel depth (item :: done) rest
      | ']' :: rest => some ((item :: done).reverse, rest)
      | _ => none

/-- The fields of an object up to its closing brace. -/
def readFields : (fuel : Nat) → (depth : Nat) → Fields → List Char →
    Option (Fields × List Char)
  | 0, _, _, _ => none
  | fuel + 1, depth, done, text =>
    match skipSpace text with
    | '\"' :: rest =>
      match readQuoted [] rest with
      | none => none
      | some (key, rest) =>
        match skipSpace rest with
        | ':' :: rest =>
          match readValue fuel depth rest with
          | none => none
          | some (value, rest) =>
            let done := done.set key value
            match skipSpace rest with
            | ',' :: rest => readFields fuel depth done rest
            | '\x7d' :: rest => some (done, rest)
            | _ => none
        | _ => none
    | _ => none

end

/-- The value that a whole text writes, with brackets at most `depth` levels deep.  Every reading
step takes at least one character, or one together with its closing bracket, so that twice the
length of the text is fuel enough. -/
def readWithin? (depth : Nat) (text : String) : Option Json :=
  let text := text.toList
  match readValue (2 * text.length + 2) depth text with
  | some (value, rest) => if (skipSpace rest).isEmpty then some value else none
  | none => none

/-- The value that a whole text writes. -/
def read? (text : String) : Option Json := readWithin? maxNesting text

theorem read?_ofList {text : List Char} {value : Json}
    (h : readValue (2 * text.length + 2) maxNesting text = some (value, [])) :
    read? (String.ofList text) = some value := by
  unfold read? readWithin?
  simp only [String.toList_ofList, h]
  rfl

end LocalCloud.Json
