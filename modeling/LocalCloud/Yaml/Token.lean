/-!
# Tokens of a YAML text

The marks and scalars that a YAML text consists of, and a cursor that walks over the text.  The
layout of a text becomes marks of its own: the tokens say where a block begins and ends, so that
nothing after them has to look at columns.
-/

namespace LocalCloud.Yaml

/-- How a scalar is written. -/
inductive Style where
  | plain
  | quoted
  | literal
  | folded
  deriving DecidableEq, Inhabited

/-- A mark or a scalar. -/
inductive Token where
  | version
  | tagHandle (handle : String) (expansion : List UInt8)
  | documentStart
  | documentEnd
  | blockSequenceStart
  | blockMappingStart
  | blockEnd
  | flowSequenceStart
  | flowSequenceEnd
  | flowMappingStart
  | flowMappingEnd
  | blockEntry
  | flowEntry
  | key
  | value
  | anchor (name : String)
  | alias (name : String)
  | tag (handle : String) (suffix : List UInt8)
  | scalar (text : String) (style : Style)
  deriving DecidableEq, Inhabited

/-! ## Characters -/

/-- Whether a character ends a line. -/
def isBreak (c : Char) : Bool := c = '\n' || c = '\u2028' || c = '\u2029'

def isBlank (c : Char) : Bool := c = ' ' || c = '\t'

/-- What a cursor sees behind the end of the text; no text holds it. -/
def endMark : Char := '\x00'

/-- Whether a character is a blank or ends the line or the text. -/
def isGap (c : Char) : Bool := isBlank c || isBreak c || c = endMark

/-- Whether a character can stand in a name. -/
def isNameChar (c : Char) : Bool := c.isAlphanum || c = '_' || c = '-'

/-- Whether a text may hold a character at all. -/
def isAllowed (c : Char) : Bool :=
  c = '\t' || c = '\n' || c = '\r' || (' ' ≤ c && c ≤ '~') || c = '\u0085' ||
    ('\u00a0' ≤ c && c ≤ '\ufffd') || '\ufffd'.toNat + 2 < c.toNat

/-- The text with every line end of one or two characters written as one. -/
def unifyBreaks : List Char → List Char
  | '\r' :: '\n' :: rest => '\n' :: unifyBreaks rest
  | c :: rest => (if c = '\r' ∨ c = '\u0085' then '\n' else c) :: unifyBreaks rest
  | [] => []

/-! ## The cursor -/

/-- A place in a text. -/
structure Cursor where
  /-- The text from the place on. -/
  rest : List Char
  line : Nat := 0
  column : Nat := 0
  /-- How many bytes of the line lie before the place. -/
  offset : Nat := 0
  deriving Inhabited

namespace Cursor

variable (c : Cursor)

/-- The character at the place, or `endMark`. -/
def peek : Char := c.rest.headD endMark

/-- The character some places further on, or `endMark`. -/
def peekAt (n : Nat) : Char := (c.rest.drop n).headD endMark

/-- Whether the text is over. -/
def atEnd : Bool := c.rest.isEmpty

/-- The next place. -/
def skip : Cursor :=
  match c.rest with
  | [] => c
  | ch :: rest =>
    if isBreak ch then { rest, line := c.line + 1 }
    else { c with rest, column := c.column + 1, offset := c.offset + ch.utf8Size }

/-- The place some characters further on. -/
def skipBy : Nat → Cursor → Cursor
  | 0, c => c
  | n + 1, c => skipBy n c.skip

/-- The first place from here on where `p` fails, and the characters before it. -/
def takeWhile (p : Char → Bool) : List Char × Cursor :=
  let taken := c.rest.takeWhile p
  (taken, c.skipBy taken.length)

/-- The first place from here on where `p` fails. -/
def dropWhile (p : Char → Bool) : Cursor := (c.takeWhile p).2

/-- Whether a line begins here with three times the given mark. -/
def atDocumentMark (mark : Char) : Bool :=
  c.column == 0 && c.peek == mark && c.peekAt 1 == mark && c.peekAt 2 == mark && isGap (c.peekAt 3)

/-- Whether a line that begins here starts or ends a document. -/
def atDocumentEdge : Bool := c.atDocumentMark '-' || c.atDocumentMark '.'

end Cursor

end LocalCloud.Yaml
