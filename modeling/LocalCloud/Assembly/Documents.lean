import LocalCloud.Assembly.Manifest
import LocalCloud.Files.Disk
import LocalCloud.Json.Reader

/-!
# The documents of an assembly on a disk

Each document is a JSON file.  One that has to be there fails when it is not; of an optional one
that is not there a warning tells; a directory without a manifest is no assembly.
-/

namespace LocalCloud.Disk

variable (d : Disk)

/-- The value in a JSON file. -/
def readJson (path : Path) : Except AssemblyFailure Json :=
  match d.readText path with
  | .error fault => .error (.unreadable path fault)
  | .ok text =>
    match Json.read? text with
    | some value => .ok value
    | none => .error (.invalidJson path)

/-- The value in a JSON file, as a step of an attempt. -/
def fetchJson (path : Path) : Attempt AssemblyFailure Json := ExceptT.mk (pure (d.readJson path))

/-- The value in a JSON file that need not be there. -/
def fetchOptional (file : OptionalFile) (path : Path) : Attempt AssemblyFailure (Option Json) := do
  if d.holds path then some <$> d.fetchJson path
  else
    Attempt.warn (.fileMissing file path)
    pure none

/-- The manifest in a directory, if there is one. -/
def fetchManifest (dir : Path) : Attempt AssemblyFailure (Option Manifest) := do
  let path := dir.join manifestFile
  if d.holds path then
    let raw ← d.fetchJson path
    some <$> Manifest.ofDocument raw dir path
  else pure none

end LocalCloud.Disk
