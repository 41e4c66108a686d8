import LocalCloud.Digest.Blake3
import LocalCloud.Files.Disk

/-!
# Digests of bundles

The digest of a file is the hash of its bytes.  The digest of a directory is the hash of a listing
of all files in it, in ascending order of their paths: each path is followed by a zero byte, the
hash of the file and a line end.  Links and empty directories leave no trace in it.
-/

namespace LocalCloud

namespace Bundle

/-- A path with slashes only. -/
def slashed (path : String) : String :=
  String.ofList (path.toList.map fun c => if c = '\\' then '/' else c)

/-- The files of a directory under their slashed paths, in ascending order of these. -/
def sortedFiles (tree : FileNode) : List (String × ByteArray) :=
  ((tree.files "").map fun (path, content) => (slashed path, content)).mergeSort
    fun a b => decide (a.1 ≤ b.1)

variable (hash : ByteArray → ByteArray)

/-- The line of a listing for one file. -/
def line (path : String) (content : ByteArray) : ByteArray :=
  path.toUTF8 ++ ⟨#[0]⟩ ++ hash content ++ ⟨#[10]⟩

/-- The listing of all files. -/
def listing (files : List (String × ByteArray)) : ByteArray :=
  files.foldl (fun bytes (path, content) => bytes ++ line hash path content) ByteArray.empty

/-- The hash of a file or of a directory. -/
def hashOf (node : FileNode) : ByteArray :=
  match node with
  | .file content => hash content
  | tree => hash (listing hash (sortedFiles tree))

/-- The two hexadecimal digits of a byte. -/
def hexByte (b : UInt8) : List Char :=
  [Nat.digitChar (b.toNat / 16), Nat.digitChar (b.toNat % 16)]

/-- Bytes as hexadecimal digits. -/
def hex (bytes : ByteArray) : String := String.ofList (bytes.toList.flatMap hexByte)

end Bundle

/-- The digest of the file or the directory that a path leads to. -/
def Disk.digest (d : Disk) (path : Path) : Except AssemblyFailure String :=
  match d.node path with
  | .ok node => .ok ("blake3:" ++ Bundle.hex (Bundle.hashOf Blake3.hash node))
  | .error fault => .error (.unreadable path fault)

end LocalCloud
