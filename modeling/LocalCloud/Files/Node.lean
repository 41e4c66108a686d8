import LocalCloud.Path

/-!
# File trees

A file tree is a value: a file with its bytes, a directory with its named entries in the order in
which they are listed, or a symbolic link with the text it points to.  Names lead from a directory
to what is in it; links are not followed here.
-/

namespace LocalCloud

/-- A file, a directory or a symbolic link. -/
inductive FileNode where
  | file (content : ByteArray)
  | directory (entries : List (String × FileNode))
  | link (target : String)
  deriving Inhabited

namespace FileNode

/-- The entries of a directory. -/
abbrev Entries := List (String × FileNode)

/-- An entry of a directory. -/
def entry? (node : FileNode) (name : String) : Option FileNode :=
  match node with
  | .directory entries => entries.lookup name
  | _ => none

/-- What the names lead to. -/
def at? (node : FileNode) (names : List String) : Option FileNode :=
  names.foldlM entry? node

/-- The entries with one of them put in: one of the same name is replaced. -/
def Entries.put (name : String) (node : FileNode) : Entries → Entries
  | [] => [(name, node)]
  | (n, old) :: rest =>
    if n = name then (n, node) :: rest else (n, old) :: Entries.put name node rest

/-- The tree with a node put where the names lead; it stays as it is when they lead through
something that is no directory. -/
def put (tree node : FileNode) : List String → FileNode
  | [] => node
  | name :: names =>
    match tree with
    | .directory entries =>
      match names with
      | [] => .directory (Entries.put name node entries)
      | _ :: _ =>
        match entries.lookup name with
        | some below => .directory (Entries.put name (put below node names) entries)
        | none => tree
    | _ => tree

/-- The files that stand directly in a directory, under their names behind `here`. -/
def ownFiles (here : String) (entries : Entries) : List (String × ByteArray) :=
  entries.filterMap fun (name, node) =>
    match node with
    | .file content => some (here ++ name, content)
    | _ => none

mutual

/-- All files in a tree, each under its path from the root of the tree behind `here`: those of a
directory itself first, then those of its last subdirectory, and so on.  Links are passed over. -/
def files (here : String) : FileNode → List (String × ByteArray)
  | .directory entries => ownFiles here entries ++ filesBelow here entries
  | _ => []

/-- The files in the subdirectories, the last one first. -/
def filesBelow (here : String) : Entries → List (String × ByteArray)
  | [] => []
  | (name, node) :: rest => filesBelow here rest ++ files (here ++ name ++ "/") node

end

end FileNode

end LocalCloud
