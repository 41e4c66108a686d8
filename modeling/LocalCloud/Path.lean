import LocalCloud.Text.Cut

/-!
# Paths

A path is kept exactly as it was written: joining two paths normalises nothing.  Two paths are
compared by their components instead, so that `a//b`, `a/./b` and `a/b/` name one place while
`a/../b` and `b` do not.
-/

namespace LocalCloud

/-- A path as it was written. -/
structure Path where
  text : String
  deriving DecidableEq, Inhabited

namespace Path

/-- Whether the path starts at the root. -/
def isAbsolute (p : Path) : Bool := Text.startsWith "/" p.text

/-- The path `rel` seen from `dir`; an absolute path is the same from everywhere. -/
def join (dir : Path) (rel : String) : Path :=
  if Text.startsWith "/" rel then ⟨rel⟩
  else if dir.text.isEmpty || Text.endsWith "/" dir.text then ⟨dir.text ++ rel⟩
  else ⟨dir.text ++ "/" ++ rel⟩

/-- The names between the slashes, empty ones included. -/
def pieces (p : Path) : List String :=
  (Text.splitAll ['/'] p.text.toList).map String.ofList

/-- The names that make up a path: a leading `/` or `.` counts, any other `.` and doubled or
closing slashes do not. -/
def components (p : Path) : List String :=
  let names := fun (l : List String) => l.filter fun name => name != "" && name != "."
  match p.pieces with
  | "" :: rest => if p.isAbsolute then "/" :: names rest else []
  | "." :: rest => "." :: names rest
  | l => names l

/-- Whether two paths have the same components. -/
def same (p q : Path) : Bool := p.components == q.components

/-- The last name of a path, if it is a proper name. -/
def fileName? (p : Path) : Option String :=
  match p.components.getLast? with
  | none | some "/" | some "." | some ".." => none
  | some name => some name

/-- A reversed path text without the slashes and dots that name nothing at its end. -/
def dropIdleTail : List Char → List Char
  | '/' :: rest => if rest = [] then ['/'] else dropIdleTail rest
  | '.' :: '/' :: rest => dropIdleTail ('/' :: rest)
  | text => text

/-- The path without its last name; the root and the empty path have none. -/
def parent? (p : Path) : Option Path :=
  match p.components with
  | [] | ["/"] => none
  | _ =>
    let reversed := dropIdleTail p.text.toList.reverse
    let shorter := dropIdleTail (reversed.dropWhile (· != '/'))
    some ⟨String.ofList shorter.reverse⟩

/-- The path and those above it, the nearest one first; `depth` bounds how many there are. -/
def upFrom (p : Path) : Nat → List Path
  | 0 => []
  | depth + 1 =>
    match p.parent? with
    | some above => p :: above.upFrom depth
    | none => [p]

/-- The path and those above it, the nearest one first. -/
def upwards (p : Path) : List Path := p.upFrom (p.components.length + 1)

end Path

end LocalCloud
