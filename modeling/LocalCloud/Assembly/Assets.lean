import LocalCloud.Template.Basic
import LocalCloud.Warning

/-!
# Assets

Which local path the content with a source hash has.  A hash is found in two places: as a key of
an asset manifest, and in the name of the bundle that a resource's metadata points to.  Where a
hash is found twice the first path is kept.
-/

namespace LocalCloud

/-- Paths by source hash, each hash once, in the order in which the hashes were found. -/
abbrev Assets := List (String × Path)

namespace Assets

/-- The assets with one more, unless its hash is known. -/
def add (assets : Assets) (hash : String) (path : Path) : Assets :=
  if (assets.lookup hash).isSome then assets else assets ++ [(hash, path)]

theorem add_ne_nil (assets : Assets) (hash : String) (path : Path) : assets.add hash path ≠ [] := by
  unfold add
  split
  · next h =>
    rintro rfl
    contradiction
  · simp

/-- The assets with those of another source behind them. -/
def merge (assets other : Assets) : Assets :=
  other.foldl (fun assets (hash, path) => assets.add hash path) assets

/-- The hash in a bundle name such as `asset.abc.zip`. -/
def hashOfName? (name : String) : Option String := do
  let hash ← Text.behind? "asset." name
  let hash := (Text.before? ".zip" hash).getD hash
  if hash.isEmpty then none else some hash

/-- The hash in the name that a path ends with. -/
def hashOfPath? (path : String) : Option String := (Path.mk path).fileName?.bind hashOfName?

/-- The assets in an asset manifest read from `source`; their paths are seen from `dir`. -/
def ofDocument (raw : Json) (dir source : Path) : Attempt AssemblyFailure Assets :=
  match raw.get? "files" with
  | none | some .null => pure []
  | some (.object files) =>
    ExceptT.lift (files.foldlM (fun assets (hash, entry) =>
      match (entry.at? ["source", "path"]).bind Json.asString? with
      | some rel => pure (assets ++ [(hash, dir.join rel)])
      | none => Noted.instead assets (.assetWithoutPath hash source)) [])
  | some _ => throw (.malformed source .filesNotObject)

end Assets

/-- The bundle that the metadata of a resource points to. -/
def Resource.bundlePath? (r : Resource) : Option String :=
  (r.metadata.lookup "aws:asset:path").bind Json.asString?

/-- The assets that the metadata of a template's resources point to, seen from `dir`. -/
def Template.assets (t : Template) (dir : Path) : Noted Assets :=
  t.resources.foldlM (fun assets r =>
    match r.bundlePath? with
    | none => pure assets
    | some rel =>
      match Assets.hashOfPath? rel with
      | some hash => pure (Assets.add assets hash (dir.join rel))
      | none => Noted.instead assets (.assetWithoutHash rel r.logicalId)) []

end LocalCloud
