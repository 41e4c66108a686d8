import LocalCloud.Text.Numeral
import LocalCloud.Yaml.Token

/-!
# Scalars

Where a scalar ends and which text it stands for.  Line breaks are folded: a single one between two
lines becomes a space, and of several ones the first is left out.  Only a literal block keeps its
breaks as they are.

Every function here takes fuel; as each step passes over a character, the length of the text is
enough.
-/

namespace LocalCloud.Yaml

/-! ## Folding -/

/-- What stands between two pieces of a scalar. -/
inductive Gap where
  /-- Blanks within a line. -/
  | blanks (chars : List Char)
  /-- Line breaks: the first one, unless it was escaped, and the others. -/
  | lines (first : Option Char) (others : List Char)

/-- Whether the line ends in a gap. -/
def Gap.crossed : Gap → Bool
  | .blanks _ => false
  | .lines .. => true

/-- What a gap stands for when it is folded. -/
def Gap.folded : Gap → List Char
  | .blanks chars => chars
  | .lines (some '\n') [] => [' ']
  | .lines (some '\n') others => others
  | .lines first others => first.toList ++ others

/-- Passes over the blanks and line breaks at the beginning of a line; the result holds the breaks.
No tab may stand before the column `indent`. -/
def scanBreaks (indent : Nat) : Nat → Cursor → Option (List Char × Cursor)
  | 0, _ => none
  | fuel + 1, c =>
    let (blanks, behind) := c.takeWhile isBlank
    if (blanks.take (indent - c.column)).contains '\t' then none
    else if isBreak behind.peek then
      (scanBreaks indent fuel behind.skip).map fun (breaks, c) => (behind.peek :: breaks, c)
    else some ([], behind)

/-- Passes over a gap. -/
def scanGap (indent fuel : Nat) (c : Cursor) : Option (Gap × Cursor) :=
  let (blanks, behind) := c.takeWhile isBlank
  if isBreak behind.peek then
    (scanBreaks indent fuel behind.skip).map fun (others, c) =>
      (.lines (some behind.peek) others, c)
  else some (.blanks blanks, behind)

/-! ## Plain scalars -/

/-- Whether a character ends a plain scalar in brackets. -/
def isFlowMark (c : Char) : Bool := c = ',' || c = '[' || c = ']' || c = '{' || c = '}'

/-- The characters of a plain scalar up to the next gap or mark, none if a colon stands where it
must not. -/
def scanPlainPiece (inFlow : Bool) : Nat → Cursor → Option (List Char × Cursor)
  | 0, _ => none
  | fuel + 1, c =>
    let ch := c.peek
    if isGap ch then some ([], c)
    else if inFlow ∧ ch = ':' ∧ (isFlowMark (c.peekAt 1) ∨ c.peekAt 1 = '?') then none
    else if ch = ':' ∧ isGap (c.peekAt 1) then some ([], c)
    else if inFlow ∧ isFlowMark ch then some ([], c)
    else (scanPlainPiece inFlow fuel c.skip).map fun (piece, c) => (ch :: piece, c)

/-- What is left of a plain scalar behind a gap; also whether it ends behind a line break.  `indent`
is the column that its further lines must reach. -/
def scanPlain (inFlow : Bool) (indent : Nat) :
    Nat → Gap → Cursor → Option ((List Char × Bool) × Cursor)
  | 0, _, _ => none
  | fuel + 1, gap, c =>
    if c.atDocumentEdge ∨ c.peek = '#' then some (([], gap.crossed), c)
    else
      match scanPlainPiece inFlow (fuel + 1) c with
      | none => none
      | some ([], c) => some (([], gap.crossed), c)
      | some (piece, c) =>
        let head := gap.folded ++ piece
        if isBlank c.peek ∨ isBreak c.peek then
          match scanGap indent (fuel + 1) c with
          | none => none
          | some (gap, c) =>
            if !inFlow ∧ c.column < indent then some ((head, gap.crossed), c)
            else
              (scanPlain inFlow indent fuel gap c).map fun ((rest, crossed), c) =>
                ((head ++ rest, crossed), c)
        else some ((head, false), c)

/-! ## Quoted scalars -/

/-- The character that the letter behind a backslash stands for. -/
def escapeLetter? : Char → Option Char
  | '0' => some '\x00'
  | 'a' => some '\x07'
  | 'b' => some '\x08'
  | 't' | '\t' => some '\t'
  | 'n' => some '\n'
  | 'v' => some '\x0b'
  | 'f' => some '\x0c'
  | 'r' => some '\r'
  | 'e' => some '\x1b'
  | ' ' => some ' '
  | '\"' => some '\"'
  | '/' => some '/'
  | '\\' => some '\\'
  | 'N' => some '\u0085'
  | '_' => some '\u00a0'
  | 'L' => some '\u2028'
  | 'P' => some '\u2029'
  | _ => none

/-- How many hexadecimal digits follow the letter behind a backslash. -/
def escapeDigits : Char → Nat
  | 'x' => 2
  | 'u' => 4
  | 'U' => 8
  | _ => 0

/-- The character that an escape stands for; the cursor is behind the backslash. -/
def scanEscape (c : Cursor) : Option (Char × Cursor) :=
  match escapeDigits c.peek with
  | 0 => (escapeLetter? c.peek).map fun ch => (ch, c.skip)
  | count => do
    let digits := c.skip.rest.take count
    if digits.length < count then none
    else
      let n ← Text.readDigits? 16 digits
      if n.isValidChar then some (Char.ofNat n, c.skip.skipBy count) else none

/-- The characters of a quoted scalar up to the next gap or its closing quote; also whether an
escaped line break ended them. -/
def scanQuotedPiece (quote : Char) : Nat → Cursor → Option ((List Char × Bool) × Cursor)
  | 0, _ => none
  | fuel + 1, c =>
    let ch := c.peek
    let more := fun e c => (scanQuotedPiece quote fuel c).map fun ((piece, crossed), c) =>
      ((e :: piece, crossed), c)
    if isGap ch then some (([], false), c)
    else if quote = '\'' ∧ ch = '\'' ∧ c.peekAt 1 = '\'' then more '\'' (c.skipBy 2)
    else if ch = quote then some (([], false), c)
    else if quote = '\"' ∧ ch = '\\' then
      if isBreak (c.peekAt 1) then some (([], true), c.skipBy 2)
      else
        match scanEscape c.skip with
        | none => none
        | some (e, c) => more e c
    else more ch c.skip

/-- The rest of a quoted scalar; the cursor is behind its first quote. -/
def scanQuoted (quote : Char) : Nat → Cursor → Option (List Char × Cursor)
  | 0, _ => none
  | fuel + 1, c =>
    if c.atDocumentEdge ∨ c.atEnd then none
    else
      match scanQuotedPiece quote (fuel + 1) c with
      | none => none
      | some ((piece, escaped), c) =>
        if c.peek = quote then some (piece, c.skip)
        else
          let gap? :=
            if escaped then
              (scanBreaks 0 (fuel + 1) c).map fun (others, c) => (Gap.lines none others, c)
            else scanGap 0 (fuel + 1) c
          match gap? with
          | none => none
          | some (gap, c) =>
            (scanQuoted quote fuel c).map fun (rest, c) => (piece ++ gap.folded ++ rest, c)

/-! ## Block scalars -/

/-- What becomes of the line breaks at the end of a block scalar. -/
inductive Chomping where
  | strip
  | clip
  | keep
  deriving DecidableEq

def Chomping.ofChar? : Char → Option Chomping
  | '+' => some .keep
  | '-' => some .strip
  | _ => none

/-- The indentation that a block scalar gives itself; zero is not one. -/
def scanIncrement (c : Cursor) : Option (Option Nat × Cursor) :=
  if c.peek.isDigit then
    if c.peek = '0' then none else some (some (c.peek.toNat - '0'.toNat), c.skip)
  else some (none, c)

/-- The chomping and the indentation in the head of a block scalar, in either order. -/
def scanBlockHead (c : Cursor) : Option ((Chomping × Option Nat) × Cursor) :=
  match Chomping.ofChar? c.peek with
  | some chomping => do
    let (increment, c) ← scanIncrement c.skip
    some ((chomping, increment), c)
  | none => do
    let (increment, c) ← scanIncrement c
    if increment.isNone then some ((.clip, none), c)
    else
      match Chomping.ofChar? c.peek with
      | some chomping => some ((chomping, increment), c.skip)
      | none => some ((.clip, increment), c)

/-- The empty lines of a block scalar, up to the column where its next line begins; also how far
the lines were indented.  Without an indentation every space counts. -/
def scanBlockBreaks (indent : Option Nat) : Nat → Cursor → Option ((List Char × Nat) × Cursor)
  | 0, _ => none
  | fuel + 1, c =>
    let spaces := (c.rest.takeWhile (· = ' ')).length
    let c := c.skipBy (match indent with
      | some i => min spaces (i - c.column)
      | none => spaces)
    if c.peek = '\t' ∧ indent.all (fun i => decide (c.column < i)) then none
    else if isBreak c.peek then
      (scanBlockBreaks indent fuel c.skip).map fun ((breaks, widest), behind) =>
        ((c.peek :: breaks, max c.column widest), behind)
    else some (([], c.column), c)

/-- The lines of a block scalar with the given indentation, and the line breaks behind them: the
one that ends the last line, and those of the empty lines.  `leading` is the break before the
current line, `trailing` the empty lines behind it, and `wasBlank` says whether the line before
began with a blank. -/
def scanBlockLines (isLiteral : Bool) (indent : Nat) :
    Nat → (leading trailing : List Char) → (wasBlank : Bool) → Cursor →
      Option ((List Char × List Char × List Char) × Cursor)
  | 0, _, _, _, _ => none
  | fuel + 1, leading, trailing, wasBlank, c =>
    if c.column = indent ∧ !c.atEnd then
      let nowBlank := isBlank c.peek
      let lead :=
        if !isLiteral ∧ leading = ['\n'] ∧ !wasBlank ∧ !nowBlank then
          (if trailing = [] then [' '] else [])
        else leading
      let (line, c) := c.takeWhile fun ch => !isBreak ch
      let leading := if c.atEnd then [] else [c.peek]
      match scanBlockBreaks (some indent) (fuel + 1) c.skip with
      | none => none
      | some ((empty, _), c) =>
        (scanBlockLines isLiteral indent fuel leading empty nowBlank c).map fun ((rest, tail), c) =>
          ((lead ++ trailing ++ line ++ rest, tail), c)
    else some (([], leading, trailing), c)

/-- A block scalar; the cursor is behind its mark, and `outer` is the indentation around it. -/
def scanBlock (isLiteral : Bool) (outer : Int) (fuel : Nat) (c : Cursor) :
    Option (List Char × Cursor) := do
  let ((chomping, increment), c) ← scanBlockHead c
  let c := c.dropWhile isBlank
  let c := if c.peek = '#' then c.dropWhile fun ch => !isBreak ch else c
  if !(isBreak c.peek || c.atEnd) then none
  else
    let given := increment.map fun n => outer.toNat + n
    let ((breaks, widest), c) ← scanBlockBreaks given fuel c.skip
    let indent := given.getD (max widest (max (outer + 1).toNat 1))
    let ((text, leading, trailing), c) ← scanBlockLines isLiteral indent fuel [] breaks false c
    let tail := match chomping with
      | .strip => []
      | .clip => leading
      | .keep => leading ++ trailing
    some (text ++ tail, c)

end LocalCloud.Yaml
