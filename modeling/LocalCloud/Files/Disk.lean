import LocalCloud.Assembly.Failure
import LocalCloud.Files.Node

/-!
# Disks

A disk is a file tree with a current directory.  Paths are walked name by name: `.` and empty
names stay where they are, `..` goes up, a symbolic link is replaced by what it points to.  At
most forty links are followed on one walk, so that every walk ends.
-/

namespace LocalCloud

/-- A file tree with a current directory. -/
structure Disk where
  root : FileNode := .directory []
  /-- The names that lead to the current directory. -/
  current : List String := []
  deriving Inhabited

/-- Where a path leads. -/
inductive Place where
  /-- To something that is there. -/
  | taken (names : List String) (node : FileNode)
  /-- To a name that is free in a directory that is there. -/
  | free (names : List String)
  deriving Inhabited

namespace Disk

/-- The most links that are followed on one walk. -/
def linkLimit : Nat := 40

/-- The longest name of an entry and the longest path, in bytes. -/
def nameLimit : Nat := 255

def pathLimit : Nat := 4095

/-- The names that a path text is made of. -/
def names (text : String) : List String := (Path.mk text).pieces

/-- The walk from `here` along the given names.  A link at the end is followed if `follow` says
so; `links` is the number of links that may still be followed. -/
def walk (root : FileNode) (follow : Bool) (links : Nat) (here : List String) :
    List String → Except ReadFault Place
  | [] =>
    match root.at? here with
    | some node => .ok (.taken here node)
    | none => .error .notFound
  | name :: rest =>
    match root.at? here with
    | some (.directory entries) =>
      if name = "" ∨ name = "." then walk root follow links here rest
      else if name = ".." then walk root follow links here.dropLast rest
      else if nameLimit < name.utf8ByteSize then .error .nameTooLong
      else
        match entries.lookup name with
        | none => if rest = [] then .ok (.free (here ++ [name])) else .error .notFound
        | some (.link target) =>
          if rest = [] ∧ follow = false then .ok (.taken (here ++ [name]) (.link target))
          else
            match links with
            | 0 => .error .tooManyLinks
            | links + 1 =>
              walk root follow links (if Text.startsWith "/" target then [] else here)
                (names target ++ rest)
        | some _ => walk root follow links (here ++ [name]) rest
    | _ => .error .notADirectory
termination_by names => (links, names.length)

variable (d : Disk)

/-- Where a path leads. -/
def locate (follow : Bool) (path : Path) : Except ReadFault Place :=
  if path.text = "" then .error .notFound
  else if path.text.contains '\x00' then .error .nulInPath
  else if pathLimit < path.text.utf8ByteSize then .error .nameTooLong
  else walk d.root follow linkLimit (if path.isAbsolute then [] else d.current) (names path.text)

/-- What a path leads to in the end. -/
def node (path : Path) : Except ReadFault FileNode :=
  match d.locate true path with
  | .ok (.taken _ node) => .ok node
  | .ok (.free _) => .error .notFound
  | .error fault => .error fault

/-! ## Looking -/

/-- Whether a path leads to something. -/
def holds (path : Path) : Bool :=
  match d.node path with
  | .ok _ => true
  | .error _ => false

/-- Whether a path leads to a directory. -/
def isDirectory (path : Path) : Bool :=
  match d.node path with
  | .ok (.directory _) => true
  | _ => false

/-- The bytes of a file. -/
def readBytes (path : Path) : Except ReadFault ByteArray :=
  match d.node path with
  | .ok (.file content) => .ok content
  | .ok (.directory _) => .error .isADirectory
  | .ok (.link _) => .error .tooManyLinks
  | .error fault => .error fault

/-- The text of a file. -/
def readText (path : Path) : Except ReadFault String := do
  let content ← d.readBytes path
  match String.fromUTF8? content with
  | some text => .ok text
  | none => .error .notUtf8

/-! ## Changing -/

/-- The disk with a file written; one that is there is replaced. -/
def write (path : Path) (content : ByteArray) : Except ReadFault Disk :=
  match d.locate true path with
  | .error fault => .error fault
  | .ok (.taken _ (.directory _)) => .error .isADirectory
  | .ok (.taken names _) | .ok (.free names) =>
    .ok { d with root := d.root.put (.file content) names }

/-- The path without the slashes at its end. -/
def withoutSlashes (path : Path) : Path :=
  match (path.text.toList.reverse.dropWhile (· = '/')).reverse with
  | [] => path
  | text => ⟨String.ofList text⟩

/-- The disk with a node put at a path that is free. -/
def place (path : Path) (node : FileNode) : Except ReadFault Disk :=
  match d.locate false (withoutSlashes path) with
  | .error fault => .error fault
  | .ok (.taken ..) => .error .alreadyThere
  | .ok (.free names) => .ok { d with root := d.root.put node names }

/-- The disk with a directory at a path, and the fault if there is none in the end. -/
def placeDirectory (path : Path) : Disk × Option ReadFault :=
  match d.place path (.directory []) with
  | .ok d => (d, none)
  | .error fault => (d, if d.isDirectory path then none else some fault)

/-- The disk with a directory at the first of some paths, each of which lies in the next one.  The
directories around it are made first, and stay if it cannot be made itself. -/
def createAlong (d : Disk) : List Path → Disk × Option ReadFault
  | [] => (d, some .notFound)
  | path :: around =>
    if path.text = "" then (d, none)
    else
      match d.placeDirectory path with
      | (_, some .notFound) =>
        match createAlong d around with
        | (d, none) => d.placeDirectory path
        | failed => failed
      | result => result

/-- The disk with a directory at a path and at all paths above it. -/
def createDirectories (path : Path) : Disk × Option ReadFault := d.createAlong path.upwards

end Disk

end LocalCloud
