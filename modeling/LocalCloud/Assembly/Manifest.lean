import LocalCloud.Json.Basic
import LocalCloud.Warning

/-!
# The manifest of an assembly

The index of an assembly directory: which stacks, asset manifests and nested assemblies it holds,
and where its construct tree is.  An artifact of a type that is not known is passed over, but its
record has to have the right shape like any other.

A record may be written as an object or as the list of its fields in order; a field that is left
out has a default, and a list must not be longer than the record.
-/

namespace LocalCloud

/-- The name of the manifest in its directory. -/
def manifestFile : String := "manifest.json"

/-- A stack of an assembly. -/
structure StackArtifact where
  name : String
  templatePath : Path
  dependencies : List String
  deriving DecidableEq, Inhabited

/-- An asset manifest and the stack it belongs to. -/
structure AssetManifestArtifact where
  name : String
  path : Path
  stack : Option String
  deriving DecidableEq, Inhabited

/-- What an assembly directory holds. -/
structure Manifest where
  dir : Path
  stackArtifacts : List StackArtifact := []
  assetManifests : List AssetManifestArtifact := []
  treePath : Option Path := none
  /-- The directories of the nested assemblies. -/
  nested : List Path := []
  deriving DecidableEq, Inhabited

/-- The record of an artifact as it is written. -/
structure ArtifactRecord where
  type : String := ""
  properties : Json := .null
  dependencies : List String := []

namespace ArtifactRecord

def readType (v : Option Json) : Except Defect String :=
  match v with
  | none => .ok ""
  | some (.string s) => .ok s
  | some _ => .error (.manifestShape "type")

/-- A list in which everything is a text. -/
def readTexts? : List Json → Option (List String)
  | [] => some []
  | .string s :: rest => (readTexts? rest).map (s :: ·)
  | _ :: _ => none

def readDependencies (v : Option Json) : Except Defect (List String) :=
  match v with
  | none => .ok []
  | some (.array items) =>
    match readTexts? items with
    | some texts => .ok texts
    | none => .error (.manifestShape "dependencies")
  | some _ => .error (.manifestShape "dependencies")

/-- The record with the given fields, if they are there. -/
def ofParts (type properties dependencies : Option Json) : Except Defect ArtifactRecord := do
  let type ← readType type
  let dependencies ← readDependencies dependencies
  .ok { type, properties := properties.getD .null, dependencies }

def ofJson : Json → Except Defect ArtifactRecord
  | .object fields =>
    ofParts (fields.lookup "type") (fields.lookup "properties") (fields.lookup "dependencies")
  | .array items =>
    if items.length ≤ 3 then ofParts items[0]? items[1]? items[2]?
    else .error (.manifestShape "artifact")
  | _ => .error (.manifestShape "artifact")

/-- A text among the properties. -/
def property? (a : ArtifactRecord) (key : String) : Option String :=
  (a.properties.get? key).bind Json.asString?

end ArtifactRecord

namespace Manifest

/-- The named artifact records of a document. -/
def readRecords (raw : Json) : Except Defect (List (String × ArtifactRecord)) :=
  let artifacts : Except Defect (Option Json) := match raw with
    | .object fields => .ok (fields.lookup "artifacts")
    | .array items =>
      if items.length ≤ 1 then .ok items[0]? else .error (.manifestShape "manifest")
    | _ => .error (.manifestShape "manifest")
  match artifacts with
  | .error defect => .error defect
  | .ok none => .ok []
  | .ok (some (.object fields)) =>
    fields.mapM fun (name, raw) => do
      let record ← ArtifactRecord.ofJson raw
      .ok (name, record)
  | .ok (some _) => .error (.manifestShape "artifacts")

/-- The manifest with one more artifact. -/
def addArtifact (m : Manifest) (name : String) (a : ArtifactRecord) : Noted Manifest :=
  match a.type with
  | "aws:cloudformation:stack" =>
    let add := fun file =>
      let artifact : StackArtifact := ⟨name, m.dir.join file, a.dependencies⟩
      { m with stackArtifacts := m.stackArtifacts ++ [artifact] }
    match a.property? "templateFile" with
    | some file => pure (add file)
    | none => Noted.instead (add (name ++ ".template.json")) (.stackWithoutTemplate name)
  | "cdk:asset-manifest" =>
    match a.property? "file" with
    | some file =>
      pure { m with assetManifests := m.assetManifests ++ [⟨name, m.dir.join file, none⟩] }
    | none => Noted.instead m (.assetManifestWithoutFile name)
  | "cdk:tree" =>
    match a.property? "file" with
    | some file => pure { m with treePath := some (m.dir.join file) }
    | none => Noted.instead m (.treeWithoutFile name)
  | "cdk:cloud-assembly" =>
    match a.property? "directoryName" with
    | some sub => pure { m with nested := m.nested ++ [m.dir.join sub] }
    | none => Noted.instead m (.nestedWithoutDirectory name)
  | _ => pure m

/-- The stack of an asset manifest: the first one that depends on it, else the one that its name
begins with. -/
def ownerOf (artifacts : List StackArtifact) (name : String) : Option String :=
  ((artifacts.find? (·.dependencies.contains name)).map (·.name)).or (Text.before? ".assets" name)

/-- The manifest with the stacks of its asset manifests. -/
def assignOwners (m : Manifest) : Manifest :=
  let own := fun (a : AssetManifestArtifact) => { a with stack := ownerOf m.stackArtifacts a.name }
  { m with assetManifests := m.assetManifests.map own }

/-- The manifest in a document read from `source`, for the directory `dir`. -/
def ofDocument (raw : Json) (dir source : Path) : Attempt AssemblyFailure Manifest := do
  match readRecords raw with
  | .error defect => throw (.malformed source defect)
  | .ok records =>
    let start : Manifest := { dir }
    let m ← ExceptT.lift (records.foldlM (fun m (name, a) => addArtifact m name a) start)
    pure m.assignOwners

end Manifest

end LocalCloud
