import LocalCloud.Assembly.Documents
import LocalCloud.ConstructTree
import LocalCloud.Model.Rules

/-!
# Assemblies

An assembly is a directory with a manifest, together with the assemblies that are nested in it.
Its model is made of all its templates; every assembly counts once, however often and under
whatever spelling of its path it is nested, and a chain of nested assemblies is followed for a
limited number of links only, so that collecting them ends on every disk.
-/

namespace LocalCloud

/-- What has been collected of an assembly so far. -/
structure Collected where
  model : Model := {}
  /-- The rules that are left over. -/
  detached : List DetachedRule := []
  /-- The directories that have been collected. -/
  visited : List Path := []

namespace Collected

variable (disk : Disk)

/-- An entry with the path of its construct, unless it has one. -/
def locateEntry (tree : Construct) (e : Model.Entry) : Model.Entry :=
  { e with constructPath := e.constructPath.or (tree.pathOf? e.stack e.logicalId) }

/-- The collection with one more stack of an assembly directory. -/
def addStack (dir : Path) (tree? : Option Construct) (c : Collected) (stack : StackArtifact) :
    Attempt AssemblyFailure Collected := do
  let raw ← disk.fetchJson stack.templatePath
  let template ← ExceptT.mk (pure (Template.ofDocument raw stack.name stack.templatePath))
  let ctx ← ExceptT.lift template.context
  let projection ← ExceptT.lift (template.project ctx)
  let part := match tree? with
    | some tree => projection.model.mapEntries (locateEntry tree)
    | none => projection.model
  let assets ← ExceptT.lift (template.assets dir)
  pure
    { c with
      model := c.model.merge { part with assets }
      detached := c.detached ++ projection.detached }

/-- The collection with the assets of one more asset manifest. -/
def addAssets (dir : Path) (c : Collected) (a : AssetManifestArtifact) :
    Attempt AssemblyFailure Collected := do
  match ← disk.fetchOptional .assetManifest a.path with
  | none => pure c
  | some raw =>
    let assets ← Assets.ofDocument raw dir a.path
    pure { c with model := { c.model with assets := c.model.assets.merge assets } }

/-- The construct tree of an assembly directory, if it has one. -/
def fetchTree (m : Manifest) : Attempt AssemblyFailure (Option Construct) := do
  match m.treePath with
  | none => pure none
  | some path =>
    match ← disk.fetchOptional .constructTree path with
    | none => pure none
    | some raw => some <$> ExceptT.mk (pure (Construct.ofDocument raw path))

/-- The collection with all that a manifest names itself. -/
def addManifest (c : Collected) (m : Manifest) : Attempt AssemblyFailure Collected := do
  let tree? ← fetchTree disk m
  let c ← m.stackArtifacts.foldlM (addStack disk m.dir tree?) c
  m.assetManifests.foldlM (addAssets disk m.dir) c

/-- The manifest of a nested assembly, if it has one. -/
def fetchNested (dir : Path) : Attempt AssemblyFailure (Option Manifest) := do
  match ← disk.fetchManifest dir with
  | some m => pure (some m)
  | none =>
    Attempt.warn (.nestedWithoutManifest dir)
    pure none

/-- The collection with an assembly and the assemblies nested in it, down a chain of at most the
given number of links.  The manifests of the nested assemblies are read first; the last one is
collected first. -/
def addAssembly : (links : Nat) → Collected → Manifest → Attempt AssemblyFailure Collected
  | links, c, m => do
    if c.visited.any (·.same m.dir) then pure c
    else
      let c := { c with visited := m.dir :: c.visited }
      match links with
      | 0 =>
        m.nested.forM fun dir => Attempt.warn (.nestedTooFar dir)
        addManifest disk c m
      | links + 1 =>
        let nested ← m.nested.filterMapM (fetchNested disk)
        let c ← addManifest disk c m
        nested.reverse.foldlM (addAssembly links) c

end Collected

/-- The model of the assembly in a directory.  A directory without a manifest has an empty one. -/
def Disk.assemble (disk : Disk) (dir : Path) : Attempt AssemblyFailure Model := do
  match ← disk.fetchManifest dir with
  | none =>
    Attempt.warn (.noManifest dir)
    pure {}
  | some root =>
    let c ← Collected.addAssembly disk assemblyNestingLimit {} root
    let model ← ExceptT.lift (c.model.attachRules c.detached)
    pure model.linkAssets

end LocalCloud
