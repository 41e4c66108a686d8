import LocalCloud.Yaml.Layout

/-!
# YAML documents

From tokens to nodes.  Anchors are numbered while they are read: the number of an anchor is how many
names are known before it, so that a name that is known already does not raise the number of the
anchor behind it.  Of all nodes with one number, an alias stands for the one that begins last in the
document, be it before the alias, around it or behind it.  A node that is left out is an empty plain
scalar.
-/

namespace LocalCloud.Yaml

/-- A node of a document. -/
inductive Node where
  | scalar (text : String) (style : Style) (tag : Option String)
  | sequence (items : List Node)
  | mapping (entries : List (Node × Node))
  /-- An alias for the anchor with a number. -/
  | alias (number : Nat)
  deriving Inhabited

namespace Node

/-- The node that is left out. -/
def absent : Node := .scalar "" .plain none

/-- What is known while nodes are read. -/
structure Reading where
  /-- The tokens that are left. -/
  tokens : List Token
  /-- What the tag handles of the document stand for. -/
  handles : List (String × List UInt8) := []
  /-- The number of the last anchor of each name. -/
  numbers : List (String × Nat) := []
  /-- The nodes with an anchor in the order in which they begin, each with its number. -/
  anchored : Array (Nat × Node) := #[]

/-- A step of reading, which may fail. -/
abbrev Reader := StateT Reading Option

/-- The next token, which stays. -/
def peek : Reader (Option Token) := do return (← get).tokens.head?

/-- Passes over the next token. -/
def advance : Reader Unit := modify fun r => { r with tokens := r.tokens.drop 1 }

/-- Passes over the next token if it is the given one. -/
def accept (t : Token) : Reader Bool := do
  if (← peek) = some t then
    advance
    return true
  else return false

/-- Fails unless the next token is the given one. -/
def expect (t : Token) : Reader Unit := do
  if !(← accept t) then failure

/-- Whether the next token is one of the given ones or there is none. -/
def atOneOf (ts : List Token) : Reader Bool := do
  match ← peek with
  | none => return true
  | some t => return ts.contains t

/-- Gives the next number to an anchor.  The node behind it is not there yet; the result is its
place among the nodes with an anchor. -/
def beginAnchored (name : String) : Reader Nat := do
  let r ← get
  let number := r.numbers.length
  set { r with
    numbers := (name, number) :: r.numbers.filter (·.1 ≠ name)
    anchored := r.anchored.push (number, absent) }
  return r.anchored.size

/-- Puts a node at its place among the nodes with an anchor. -/
def endAnchored (place : Nat) (node : Node) : Reader Unit := modify fun r =>
  { r with anchored := r.anchored.modify place fun (number, _) => (number, node) }

/-- The anchor and the tag before a node, in either order. -/
def takeProperties : Reader (Option String × Option (String × List UInt8)) := do
  match ← peek with
  | some (.anchor name) =>
    advance
    match ← peek with
    | some (.tag handle suffix) =>
      advance
      return (some name, some (handle, suffix))
    | _ => return (some name, none)
  | some (.tag handle suffix) =>
    advance
    match ← peek with
    | some (.anchor name) =>
      advance
      return (some name, some (handle, suffix))
    | _ => return (none, some (handle, suffix))
  | _ => return (none, none)

/-- The bytes of the whole tag for a handle and a suffix. -/
def wholeTag (handle : String) (suffix : List UInt8) : Reader (List UInt8) := do
  if handle = "" then return suffix
  else
    match (← get).handles.lookup handle with
    | some expansion => return expansion ++ suffix
    | none => failure

/-- The text of a tag; one that is not UTF-8 says nothing. -/
def tagText? (tag : List UInt8) : Option String := String.fromUTF8? tag.toByteArray

mutual

/-- A node.  Block nodes are allowed if `block` says so, and a sequence that is indented no further
than the key before it if `indentless` says so. -/
def read (block indentless : Bool) : Nat → Reader Node
  | 0 => failure
  | fuel + 1 => do
    match ← peek with
    | some (.alias name) =>
      advance
      match (← get).numbers.lookup name with
      | some number => return .alias number
      | none => failure
    | _ =>
      let (anchor?, tag?) ← takeProperties
      let tag? ← tag?.mapM fun (handle, suffix) => wholeTag handle suffix
      let place? ← anchor?.mapM beginAnchored
      let node ←
        readContent block indentless (anchor?.isSome || tag?.isSome) (tag?.bind tagText?) fuel
      if let some place := place? then endAnchored place node
      return node

/-- A node behind its anchor and its tag.  A lone exclamation mark is no tag of a scalar that is
there. -/
def readContent (block indentless mayBeAbsent : Bool) (tag? : Option String) : Nat → Reader Node
  | 0 => failure
  | fuel + 1 => do
    match ← peek with
    | some .blockEntry =>
      if indentless then Node.sequence <$> readIndentless fuel
      else if mayBeAbsent then return .scalar "" .plain tag?
      else failure
    | some (.scalar text style) =>
      advance
      return .scalar text style (tag?.filter (· ≠ "!"))
    | some .flowSequenceStart =>
      advance
      Node.sequence <$> readFlowItems true fuel
    | some .flowMappingStart =>
      advance
      Node.mapping <$> readFlowEntries true fuel
    | t =>
      if block ∧ t = some .blockSequenceStart then
        advance
        Node.sequence <$> readItems fuel
      else if block ∧ t = some .blockMappingStart then
        advance
        Node.mapping <$> readEntries fuel
      else if mayBeAbsent then return .scalar "" .plain tag?
      else failure

/-- A node, or the absent one before one of the given tokens. -/
def readUnless (stops : List Token) (block indentless : Bool) : Nat → Reader Node
  | 0 => failure
  | fuel + 1 => do
    if ← atOneOf stops then return absent else read block indentless fuel

/-- The items of a block sequence, up to its end. -/
def readItems : Nat → Reader (List Node)
  | 0 => failure
  | fuel + 1 => do
    if ← accept .blockEntry then
      let item ← readUnless [.blockEntry, .blockEnd] true false fuel
      return item :: (← readItems fuel)
    else
      expect .blockEnd
      return []

/-- The items of a block sequence that is indented no further than the key before it. -/
def readIndentless : Nat → Reader (List Node)
  | 0 => failure
  | fuel + 1 => do
    if ← accept .blockEntry then
      let item ← readUnless [.blockEntry, .key, .value, .blockEnd] true false fuel
      return item :: (← readIndentless fuel)
    else return []

/-- The entries of a block mapping, up to its end. -/
def readEntries : Nat → Reader (List (Node × Node))
  | 0 => failure
  | fuel + 1 => do
    if ← accept .blockEnd then return []
    else
      let stops := [Token.key, .value, .blockEnd]
      expect .key
      let key ← readUnless stops true true fuel
      let value ← if ← accept .value then readUnless stops true true fuel else pure absent
      return (key, value) :: (← readEntries fuel)

/-- Passes over the comma before an item or an entry, unless it is the first one or the brackets
end there.  Whether they end is the result. -/
def readComma (closing : Token) (isFirst : Bool) : Nat → Reader Bool
  | 0 => failure
  | _ + 1 => do
    if ← accept closing then return true
    else if isFirst then return false
    else
      expect .flowEntry
      accept closing

/-- The items of a sequence in brackets, up to its end.  An item with a colon is a mapping with
one entry. -/
def readFlowItems (isFirst : Bool) : Nat → Reader (List Node)
  | 0 => failure
  | fuel + 1 => do
    if ← readComma .flowSequenceEnd isFirst (fuel + 1) then return []
    else
      let item ←
        if ← accept .key then
          let stops := [Token.value, .flowEntry, .flowSequenceEnd]
          let key ←
            if ← atOneOf stops then
              -- the mark in the place of the key is passed over with it
              advance
              pure absent
            else read false false fuel
          let value ←
            if ← accept .value then
              readUnless [.flowEntry, .flowSequenceEnd] false false fuel
            else pure absent
          pure (.mapping [(key, value)])
        else read false false fuel
      return item :: (← readFlowItems false fuel)

/-- The entries of a mapping in braces, up to its end. -/
def readFlowEntries (isFirst : Bool) : Nat → Reader (List (Node × Node))
  | 0 => failure
  | fuel + 1 => do
    if ← readComma .flowMappingEnd isFirst (fuel + 1) then return []
    else
      let stops := [Token.flowEntry, .flowMappingEnd]
      let entry ←
        if ← accept .key then
          let key ← readUnless (.value :: stops) false false fuel
          let value ←
            if ← accept .value then readUnless stops false false fuel else pure absent
          pure (key, value)
        else
          let key ← read false false fuel
          pure (key, absent)
      return entry :: (← readFlowEntries false fuel)

end

end Node

/-! ## Documents -/

/-- A document. -/
structure Document where
  root : Node
  /-- The nodes with an anchor in the order in which they begin, each with its number. -/
  anchored : Array (Nat × Node) := #[]

/-- What a node stands for: an alias for the last node with its number, any other for itself.  No
node with an anchor is an alias. -/
def Document.follow (document : Document) : Node → Node
  | .alias number =>
    (document.anchored.findSomeRev? fun (n, node) => if n = number then some node else none).getD
      .absent
  | node => node

/-- What the usual tag handles stand for. -/
def usualHandles : List (String × List UInt8) :=
  [("!", "!".toUTF8.toList), ("!!", "tag:yaml.org,2002:".toUTF8.toList)]

/-- The directives before a document: at most one version, and each handle at most once. -/
def readDirectives :
    Nat → Bool → List (String × List UInt8) → Node.Reader (List (String × List UInt8))
  | 0, _, _ => failure
  | fuel + 1, hasVersion, handles => do
    match ← Node.peek with
    | some .version =>
      if hasVersion then failure
      Node.advance
      readDirectives fuel true handles
    | some (.tagHandle handle expansion) =>
      if (handles.lookup handle).isSome then failure
      Node.advance
      readDirectives fuel hasVersion ((handle, expansion) :: handles)
    | _ => return handles

/-- Passes over all document ends. -/
def skipDocumentEnds : Node.Reader Unit :=
  modify fun r => { r with tokens := r.tokens.dropWhile (· = .documentEnd) }

/-- Whether the next token stands before the first mark of a document. -/
def atDocumentHead : Node.Reader Bool := do
  match ← Node.peek with
  | some .documentStart | some .version | some (.tagHandle ..) => return true
  | _ => return false

/-- Whether the next token stands before or behind a document, or there is none. -/
def atDocumentEdge : Node.Reader Bool := do
  match ← Node.peek with
  | none | some .documentEnd => return true
  | _ => atDocumentHead

/-- The document that is the only one of the tokens; none if there is no document. -/
def readDocument (fuel : Nat) : Node.Reader (Option Document) := do
  if (← Node.peek).isNone then return none
  let hasHead ← atDocumentHead
  modify fun r => { r with handles := usualHandles }
  if hasHead then
    let handles ← readDirectives fuel false []
    modify fun r => { r with handles := handles ++ usualHandles }
    Node.expect .documentStart
  let root ←
    if hasHead && (← atDocumentEdge) then pure Node.absent else Node.read true false fuel
  skipDocumentEnds
  match ← Node.peek with
  | none => return some { root, anchored := (← get).anchored }
  | some _ => failure

/-- What a text that holds at most one document holds. -/
inductive Content where
  | nothing
  | document (document : Document)

/-- The document in a text, unless there is more than one or the text is not well formed. -/
def read? (text : String) : Option Content := do
  let tokens ← tokens? text
  let (document?, _) ← (readDocument (8 * tokens.length + 16)).run { tokens }
  match document? with
  | none => some .nothing
  | some document => some (.document document)

end LocalCloud.Yaml
