import LocalCloud.Yaml.Scalar

/-!
# The layout of a YAML text

From characters to tokens.  A block lasts as long as its lines are indented as far as its first
one; a mapping begins with its first key, which can only be told from the colon behind it.  So the
place of every token that may be a key is kept until its line is over, and the marks are put in
there when the colon comes.
-/

namespace LocalCloud.Yaml

/-- A token that is a key if a colon follows on its line. -/
structure KeyCandidate where
  /-- Whether the layout allows nothing but a key there. -/
  isRequired : Bool
  /-- How many tokens come before it. -/
  position : Nat
  line : Nat
  column : Nat
  offset : Nat

/-- How many bytes a token without a mark of its own may take to be a key. -/
def keyLimit : Nat := 1024

/-- Whether the candidate is still on its line and short enough to be a key. -/
def KeyCandidate.isFresh (k : KeyCandidate) (c : Cursor) : Bool :=
  k.line == c.line && c.offset ≤ k.offset + keyLimit

/-- How far a text has been cut into tokens. -/
structure Layout where
  cursor : Cursor
  tokens : Array Token := #[]
  /-- The column of the innermost block. -/
  indent : Int := -1
  /-- The columns of the blocks around it, the next one first. -/
  outer : List Int := []
  /-- Whether a key may begin here. -/
  keyAllowed : Bool := true
  /-- The candidate of the innermost brackets, or of the block outside all brackets. -/
  candidate : Option KeyCandidate := none
  /-- The candidates around the innermost brackets, the next one first. -/
  suspended : List (Option KeyCandidate) := []

namespace Layout

variable (l : Layout)

/-- Whether the place is within brackets. -/
def inFlow : Bool := !l.suspended.isEmpty

/-- The layout with one more token. -/
def push (t : Token) : Layout := { l with tokens := l.tokens.push t }

/-- The layout with a token put in at a position. -/
def insert (position : Nat) (t : Token) : Layout :=
  { l with tokens := l.tokens.insertIdxIfInBounds position t }

/-- The layout behind some characters. -/
def skip (count : Nat) : Layout := { l with cursor := l.cursor.skipBy count }

/-- Gives up the candidate, unless it is required to be a key. -/
def dropCandidate : Option Layout :=
  match l.candidate with
  | some k => if k.isRequired then none else some { l with candidate := none }
  | none => some l

/-- Makes the next token the candidate, if a key may begin here. -/
def saveCandidate : Option Layout :=
  if l.keyAllowed then do
    let l ← l.dropCandidate
    some { l with
      candidate := some
        { isRequired := !l.inFlow && l.indent == (l.cursor.column : Int)
          position := l.tokens.size
          line := l.cursor.line
          column := l.cursor.column
          offset := l.cursor.offset } }
  else some l

/-- Begins a block at a column, unless the innermost block is there already or the place is within
brackets.  Its mark goes to the given position. -/
def openBlock (column : Nat) (position : Nat) (t : Token) : Layout :=
  if !l.inFlow ∧ l.indent < (column : Int) then
    { l.insert position t with indent := column, outer := l.indent :: l.outer }
  else l

/-- Ends the blocks that are further in than a column. -/
def closeBlocks (column : Int) : Layout :=
  if l.inFlow then l
  else
    let blocks := l.indent :: l.outer
    let ended := (blocks.takeWhile fun i => decide (column < i)).length
    match blocks.drop ended with
    | [] => l
    | indent :: outer =>
      { l with indent, outer, tokens := l.tokens ++ Array.replicate ended .blockEnd }

/-! ## The space between tokens -/

/-- Passes over blanks, comments and line breaks.  A tab is no blank where a key may begin. -/
def skipSpace : Nat → Layout → Layout
  | 0, l => l
  | fuel + 1, l =>
    let c := l.cursor
    let c := if c.column = 0 ∧ c.peek = '\ufeff' then c.skip else c
    let c := c.dropWhile fun ch => ch = ' ' || ((l.inFlow || !l.keyAllowed) && ch = '\t')
    let c := if c.peek = '#' then c.dropWhile fun ch => !isBreak ch else c
    if isBreak c.peek then
      skipSpace fuel { l with cursor := c.skip, keyAllowed := l.keyAllowed || !l.inFlow }
    else { l with cursor := c }

/-! ## Marks -/

/-- A mark between documents. -/
def takeDocumentMark (t : Token) : Option Layout := do
  let l ← (l.closeBlocks (-1)).dropCandidate
  some ({ l with keyAllowed := false }.push t |>.skip 3)

/-- An opening bracket. -/
def openFlow (t : Token) : Option Layout := do
  let l ← l.saveCandidate
  some ({ l with
    suspended := l.candidate :: l.suspended
    candidate := none
    keyAllowed := true }.push t |>.skip 1)

/-- A closing bracket. -/
def closeFlow (t : Token) : Option Layout := do
  let l ← l.dropCandidate
  let l := match l.suspended with
    | [] => l
    | candidate :: suspended => { l with candidate, suspended }
  some ({ l with keyAllowed := false }.push t |>.skip 1)

/-- A comma within brackets. -/
def takeFlowEntry : Option Layout := do
  let l ← l.dropCandidate
  some ({ l with keyAllowed := true }.push .flowEntry |>.skip 1)

/-- The dash before an item. -/
def takeBlockEntry : Option Layout := do
  if !l.inFlow ∧ !l.keyAllowed then none
  else
    let l := l.openBlock l.cursor.column l.tokens.size .blockSequenceStart
    let l ← l.dropCandidate
    some ({ l with keyAllowed := true }.push .blockEntry |>.skip 1)

/-- The question mark before a key. -/
def takeKey : Option Layout := do
  if !l.inFlow ∧ !l.keyAllowed then none
  else
    let l := l.openBlock l.cursor.column l.tokens.size .blockMappingStart
    let l ← l.dropCandidate
    some ({ l with keyAllowed := !l.inFlow }.push .key |>.skip 1)

/-- The colon behind a key.  The marks before the key are put in at the place of the candidate. -/
def takeValue : Option Layout := do
  let fresh := l.candidate.filter (·.isFresh l.cursor)
  match fresh, l.candidate with
  | some k, _ =>
    let l := (l.insert k.position .key).openBlock k.column k.position .blockMappingStart
    some ({ l with candidate := none, keyAllowed := false }.push .value |>.skip 1)
  | none, some k =>
    if k.isRequired then none else withoutKey { l with candidate := none }
  | none, none => withoutKey l
where
  withoutKey (l : Layout) : Option Layout :=
    if !l.inFlow ∧ !l.keyAllowed then none
    else
      let l := l.openBlock l.cursor.column l.tokens.size .blockMappingStart
      some ({ l with keyAllowed := !l.inFlow }.push .value |>.skip 1)

/-- The name behind the mark of an anchor or an alias. -/
def takeName (make : String → Token) : Option Layout := do
  let l ← l.saveCandidate
  let (name, c) := l.cursor.skip.takeWhile isNameChar
  if name = [] ∨ !(isGap c.peek || "?:,]\x7d%@\x60".toList.contains c.peek) then none
  else some ({ l with keyAllowed := false, cursor := c }.push (make (String.ofList name)))

/-! ## Tags and directives -/

/-- Whether a character can stand in a tag; commas and brackets only between angle brackets. -/
def isTagChar (verbatim : Bool) (c : Char) : Bool :=
  isNameChar c || ";/?:@&=+$.!~*'()%".toList.contains c ||
    (verbatim && (c = ',' || c = '[' || c = ']'))

/-- How many bytes follow the first one of a UTF-8 sequence. -/
def trailingBytes? (first : UInt8) : Option Nat :=
  if first &&& 0x80 = 0x00 then some 0
  else if first &&& 0xe0 = 0xc0 then some 1
  else if first &&& 0xf0 = 0xe0 then some 2
  else if first &&& 0xf8 = 0xf0 then some 3
  else none

/-- The bytes of a tag, with `%` before two hexadecimal digits read as the byte they write.  The
escaped bytes have the form of UTF-8 sequences, whether these stand for characters or not;
`missing` is how many bytes the last sequence lacks. -/
def unescapeTag : Nat → List Char → Option (List UInt8)
  | 0, [] => some []
  | missing, '%' :: a :: b :: rest => do
    let byte := (← Text.readDigits? 16 [a, b]).toUInt8
    let missing ←
      match missing with
      | 0 => trailingBytes? byte
      | missing + 1 => if byte &&& 0xc0 = 0x80 then some missing else none
    (byte :: ·) <$> unescapeTag missing rest
  | _, '%' :: _ => none
  | 0, c :: rest => (c.toNat.toUInt8 :: ·) <$> unescapeTag 0 rest
  | _, _ => none

/-- A part of a tag behind the given head; without a head it must not be empty.  A zero byte ends
it. -/
def scanTagText (verbatim : Bool) (head : Option (List Char)) (c : Cursor) :
    Option (List UInt8 × Cursor) := do
  let (text, c) := c.takeWhile (isTagChar verbatim)
  if head.isNone ∧ text = [] then none
  else
    let bytes ← unescapeTag 0 (head.getD [] ++ text)
    some (bytes.takeWhile (· ≠ 0), c)

/-- The handle and the suffix of a tag; the cursor is at its exclamation mark. -/
def scanTag (c : Cursor) : Option ((String × List UInt8) × Cursor) :=
  if c.peekAt 1 = '<' then do
    let (suffix, c) ← scanTagText true none (c.skipBy 2)
    if c.peek = '>' then some (("", suffix), c.skip) else none
  else
    let (name, c) := c.skip.takeWhile isNameChar
    if c.peek = '!' then do
      let (suffix, c) ← scanTagText false none c.skip
      some (("!" ++ String.ofList name ++ "!", suffix), c)
    else do
      let (suffix, c) ← scanTagText false (some name) c
      some (if suffix = [] then ("", "!".toUTF8.toList) else ("!", suffix), c)

/-- A tag. -/
def takeTag : Option Layout := do
  let l ← l.saveCandidate
  let ((handle, suffix), c) ← scanTag l.cursor
  if isGap c.peek || (l.inFlow && c.peek = ',') then
    some ({ l with keyAllowed := false, cursor := c }.push (.tag handle suffix))
  else none

/-- The cursor behind a number of at most nine digits, and the number. -/
def scanVersionNumber (c : Cursor) : Option (Nat × Cursor) :=
  let (digits, c) := c.takeWhile Char.isDigit
  if digits = [] ∨ 9 < digits.length then none
  else (Text.readDigits? 10 digits).map fun n => (n, c)

/-- The version behind its directive; only versions 1.1 and 1.2 are known. -/
def scanVersion (c : Cursor) : Option (Token × Cursor) := do
  let (major, c) ← scanVersionNumber (c.dropWhile isBlank)
  if c.peek ≠ '.' then none
  else
    let (minor, c) ← scanVersionNumber c.skip
    if major = 1 ∧ (minor = 1 ∨ minor = 2) then some (.version, c) else none

/-- The tag handle behind its directive, with what it stands for. -/
def scanTagHandle (c : Cursor) : Option (Token × Cursor) :=
  let c := c.dropWhile isBlank
  if c.peek ≠ '!' then none
  else
    let (name, c) := c.skip.takeWhile isNameChar
    let (handle?, c) :=
      if c.peek = '!' then (some ("!" ++ String.ofList name ++ "!"), c.skip)
      else (if name = [] then some "!" else none, c)
    match handle? with
    | none => none
    | some handle =>
      if !isBlank c.peek then none
      else do
        let (expansion, c) ← scanTagText true none (c.dropWhile isBlank)
        if isGap c.peek then some (.tagHandle handle expansion, c) else none

/-- A directive. -/
def takeDirective : Option Layout := do
  let l ← (l.closeBlocks (-1)).dropCandidate
  let (name, c) := l.cursor.skip.takeWhile isNameChar
  let (token, c) ←
    if !isGap c.peek then none
    else if name = "YAML".toList then scanVersion c
    else if name = "TAG".toList then scanTagHandle c
    else none
  let c := c.dropWhile isBlank
  let c := if c.peek = '#' then c.dropWhile fun ch => !isBreak ch else c
  if isBreak c.peek || c.atEnd then
    some ({ l with keyAllowed := false, cursor := c.skip }.push token)
  else none

/-! ## Scalars -/

def takeBlockScalar (fuel : Nat) (isLiteral : Bool) : Option Layout := do
  let l ← l.dropCandidate
  let (text, c) ← scanBlock isLiteral l.indent fuel l.cursor.skip
  some ({ l with keyAllowed := true, cursor := c }.push
    (.scalar (String.ofList text) (if isLiteral then .literal else .folded)))

def takeQuoted (fuel : Nat) (quote : Char) : Option Layout := do
  let l ← l.saveCandidate
  let (text, c) ← scanQuoted quote fuel l.cursor.skip
  some ({ l with keyAllowed := false, cursor := c }.push (.scalar (String.ofList text) .quoted))

def takePlain (fuel : Nat) : Option Layout := do
  let l ← l.saveCandidate
  let ((text, crossed), c) ←
    scanPlain l.inFlow (l.indent + 1).toNat fuel (.blanks []) l.cursor
  some ({ l with keyAllowed := crossed, cursor := c }.push (.scalar (String.ofList text) .plain))

/-! ## All tokens -/

/-- Whether a plain scalar can begin at the place. -/
def startsPlain : Bool :=
  let c := l.cursor
  !(isGap c.peek || "-?:,[]\x7b\x7d#&*!|>'\"%@\x60".toList.contains c.peek) ||
    (c.peek == '-' && !isBlank (c.peekAt 1)) ||
    (!l.inFlow && (c.peek == '?' || c.peek == ':') && !isGap (c.peekAt 1))

/-- Takes the token at the place, which is neither a gap nor the end. -/
def takeToken (fuel : Nat) : Option Layout :=
  let c := l.cursor
  let separate := l.inFlow || isGap (c.peekAt 1)
  if c.column = 0 ∧ c.peek = '%' then l.takeDirective
  else if c.atDocumentMark '-' then l.takeDocumentMark .documentStart
  else if c.atDocumentMark '.' then l.takeDocumentMark .documentEnd
  else if c.peek = '-' ∧ isGap (c.peekAt 1) then l.takeBlockEntry
  else if c.peek = '?' ∧ separate then l.takeKey
  else if c.peek = ':' ∧ separate then l.takeValue
  else
    match c.peek with
    | '[' => l.openFlow .flowSequenceStart
    | '{' => l.openFlow .flowMappingStart
    | ']' => l.closeFlow .flowSequenceEnd
    | '}' => l.closeFlow .flowMappingEnd
    | ',' => l.takeFlowEntry
    | '*' => l.takeName .alias
    | '&' => l.takeName .anchor
    | '!' => l.takeTag
    | '\'' => l.takeQuoted fuel '\''
    | '\"' => l.takeQuoted fuel '\"'
    | ch =>
      if ch = '|' ∧ !l.inFlow then l.takeBlockScalar fuel true
      else if ch = '>' ∧ !l.inFlow then l.takeBlockScalar fuel false
      else if l.startsPlain then l.takePlain fuel
      else none

/-- Takes all tokens.  Every token passes over a character, so fuel for the whole text is enough for
what is left of it at any time. -/
def takeAll : Nat → Layout → Option (List Token)
  | 0, _ => none
  | fuel + 1, l =>
    let l := l.skipSpace (fuel + 1)
    if l.cursor.atEnd then (l.closeBlocks (-1)).dropCandidate.map (·.tokens.toList)
    else takeAll fuel =<< (l.closeBlocks l.cursor.column).takeToken (fuel + 1)

end Layout

/-- The tokens of a text. -/
def tokens? (text : String) : Option (List Token) :=
  let chars := text.toList
  if chars.all isAllowed then
    let chars := unifyBreaks chars
    Layout.takeAll (chars.length + 2) { cursor := { rest := chars } }
  else none

end LocalCloud.Yaml
