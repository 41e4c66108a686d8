import LocalCloud.Proofs.Assembly.Merging
import LocalCloud.Proofs.Model.Entries

/-!
# Where the code of functions is

An assembly has the hashes of its assets from two kinds of sources: the metadata of its resources
and its asset manifests (`Disk.assetSources`).  The first source of a hash, in the order in which the
assembly is collected, gives its path, however much is merged before or after.  Functions name the
bundle that they run by its hash only, and get the path once all is merged; a function whose metadata
has a hash is itself a source of it, so that its path is never missing
(`Disk.assemble_links_code`).
-/

namespace LocalCloud

/-! ## Assets by their hashes -/

namespace Assets

/-- The path of one of the files of an asset manifest, seen from `dir`. -/
def listedFile? (dir : Path) (file : String × Json) : Option (String × Path) :=
  ((file.2.at? ["source", "path"]).bind Json.asString?).map fun rel => (file.1, dir.join rel)

/-- The files that an asset manifest has a path for, seen from `dir`. -/
def listed (dir : Path) (raw : Json) : Assets :=
  match raw.get? "files" with
  | some (.object files) => files.filterMap (listedFile? dir)
  | _ => []

theorem lookup_add (assets : Assets) (hash : String) (path : Path) (key : String) :
    (assets.add hash path).lookup key = (assets ++ [(hash, path)]).lookup key := by
  unfold add
  split
  · next hknown =>
    rw [List.lookup_append]
    by_cases hkey : key = hash
    · subst hkey
      obtain ⟨known, hlookup⟩ := Option.isSome_iff_exists.1 hknown
      rw [hlookup, Option.some_or]
    · have hother : (key == hash) = false := beq_false_of_ne hkey
      rw [List.lookup_cons, hother]
      exact Option.or_none.symm
  · rfl

theorem lookup_merge (assets other : Assets) (key : String) :
    (assets.merge other).lookup key = (assets ++ other).lookup key := by
  unfold merge
  induction other generalizing assets with
  | nil => simp
  | cons entry rest ih =>
    rw [List.foldl_cons, ih, List.lookup_append, lookup_add, ← List.lookup_append,
      List.append_assoc]
    rfl

/-- A fold that adds something for some of the files adds it for all of them in order. -/
theorem value_foldlM_listed {f : Assets → String × Json → Noted Assets}
    {listed? : String × Json → Option (String × Path)}
    (hf : ∀ assets file, (f assets file).value = assets ++ (listed? file).toList)
    (files : Json.Fields) (known : Assets) :
    (files.foldlM f known).value = known ++ files.filterMap listed? := by
  induction files generalizing known with
  | nil => exact (List.append_nil known).symm
  | cons file rest ih =>
    rw [List.foldlM_cons, Noted.value_bind, ih, hf, List.filterMap_cons, List.append_assoc]
    cases listed? file <;> rfl

theorem eq_listed_of_ofDocument {raw : Json} {dir source : Path} {assets : Assets}
    (h : (ofDocument raw dir source).run.value = .ok assets) : assets = listed dir raw := by
  unfold ofDocument at h
  unfold listed
  split at h
  · next hfiles =>
    rw [hfiles]
    exact (Except.ok.inj h).symm
  · next hfiles =>
    rw [hfiles]
    exact (Except.ok.inj h).symm
  · next files hfiles =>
    rw [hfiles]
    refine (Except.ok.inj h).symm.trans (value_foldlM_listed (fun assets file => ?_) files [])
    obtain ⟨hash, entry⟩ := file
    dsimp only [listedFile?]
    cases (entry.at? ["source", "path"]).bind Json.asString? with
    | none => exact (List.append_nil assets).symm
    | some rel => rfl
  · contradiction

end Assets

/-- The bundle that the metadata of a resource points to, with its hash, seen from `dir`. -/
def Resource.bundle? (dir : Path) (r : Resource) : Option (String × Path) := do
  let rel ← r.bundlePath?
  let hash ← Assets.hashOfPath? rel
  some (hash, dir.join rel)

/-- The hash of the bundle that the metadata of a resource points to. -/
def Resource.bundleHash? (r : Resource) : Option String := r.bundlePath?.bind Assets.hashOfPath?

theorem Resource.bundle?_of_hash {r : Resource} {hash : String} (dir : Path)
    (h : r.bundleHash? = some hash) : ∃ path, r.bundle? dir = some (hash, path) := by
  obtain ⟨rel, hrel, hhash⟩ := Option.bind_eq_some_iff.1 h
  refine ⟨dir.join rel, ?_⟩
  simp only [bundle?, hrel, hhash, bind, Option.bind_some]

namespace Template

theorem lookup_assets (t : Template) (dir : Path) (key : String) :
    (t.assets dir).value.lookup key = (t.resources.filterMap (·.bundle? dir)).lookup key := by
  unfold assets
  rw [Noted.value_foldlM, ← List.nil_append (t.resources.filterMap _)]
  generalize ([] : Assets) = known
  induction t.resources generalizing known with
  | nil => simp
  | cons r rest ih =>
    rw [List.foldl_cons, ih, List.filterMap_cons, Resource.bundle?]
    cases r.bundlePath? with
    | none => rfl
    | some rel =>
      dsimp only [bind, Option.bind_some]
      cases Assets.hashOfPath? rel with
      | none => rfl
      | some hash =>
        dsimp only [Option.bind_some, Noted.value_pure]
        rw [List.lookup_append, Assets.lookup_add, ← List.lookup_append, List.append_assoc]
        rfl

end Template

/-! ## The functions of a template -/

/-- A resource of a template that becomes a function. -/
structure FunctionSource where
  template : Template
  resource : Resource

namespace FunctionSource

variable (x : FunctionSource)

/-- The id of the function. -/
def id : String := x.template.projector.idOf x.resource.logicalId

/-- Where its code is, as far as the resource tells. -/
def code : Model.Code := Projector.codeOf x.resource (x.template.projector.properties x.resource).value

end FunctionSource

/-- The included resources that become functions. -/
def Template.functions (t : Template) : List FunctionSource :=
  (t.projector.included.filter (·.type == ResourceType.function)).map fun r => ⟨t, r⟩

/-- The id of a function with where its code is. -/
def Model.ComputeFunction.place (f : Model.ComputeFunction) : String × Model.Code := (f.id, f.code)

namespace Projector

variable {p : Projector}

theorem place_addEntry (m : Model) (r : Resource) :
    (p.addEntry m r).value.functions.map (·.place) = m.functions.map (·.place) ++
      ([r].filter (·.type == ResourceType.function)).map fun r =>
        (p.idOf r.logicalId, codeOf r (p.properties r).value) := by
  by_cases hfunction : (r.type == ResourceType.function) = true
  · have htable : (r.type == ResourceType.table) = false := by
      rw [beq_iff_eq.1 hfunction]
      decide
    rw [addEntry, htable, if_neg Bool.false_ne_true, if_pos hfunction, List.filter_cons,
      if_pos hfunction]
    exact List.map_append
  · rw [List.filter_cons, if_neg hfunction, List.filter_nil, List.map_nil, List.append_nil]
    unfold addEntry
    rw [if_neg hfunction]
    split_ifs <;> rfl

theorem place_foldl_addEntry (rs : List Resource) (m : Model) :
    (rs.foldl (fun m r => (p.addEntry m r).value) m).functions.map (·.place) =
      m.functions.map (·.place) ++ (rs.filter (·.type == ResourceType.function)).map fun r =>
        (p.idOf r.logicalId, codeOf r (p.properties r).value) := by
  induction rs generalizing m with
  | nil => simp
  | cons r rest ih =>
    rw [List.foldl_cons, ih, place_addEntry, List.append_assoc, ← List.map_append,
      ← List.filter_append]
    rfl

/-- An event source changes neither the id of a function nor its code. -/
theorem place_attach (out : Projection) (r : Resource) :
    (p.attach out r).value.model.functions.map (·.place) = out.model.functions.map (·.place) := by
  have hsource : (p.attachEventSource r out.model.functions).value.map (·.place) =
      out.model.functions.map (·.place) := by
    unfold attachEventSource
    simp only [Noted.value_bind]
    split
    · rfl
    split
    · rfl
    · refine map_changeAt (fun f => ?_) _ _
      split <;> rfl
  unfold attach
  split
  · exact hsource
  split
  · unfold attachRule
    simp only [Noted.value_bind]
    split <;> rfl
  split <;> rfl

theorem link_codeOf_of_hash {r : Resource} {hash : String} (assets : Assets) (properties : Json)
    (h : r.bundleHash? = some hash) :
    (codeOf r properties).link assets = .asset hash (assets.lookup hash) := by
  have hmetadata : r.bundlePath?.bind Assets.hashOfPath? = some hash := h
  simp only [codeOf, hmetadata, Option.some_or, Model.Code.link, Option.or_none]

/-- The path of a bundle is what is known of its hash. -/
theorem path_of_link_codeOf {r : Resource} {assets : Assets} {properties : Json} {hash : String}
    {path : Option Path} (h : (codeOf r properties).link assets = .asset hash path) :
    path = assets.lookup hash := by
  unfold codeOf at h
  dsimp only at h
  split at h
  · next hash' _ =>
    simp only [Model.Code.link, Option.or_none, Model.Code.asset.injEq] at h
    obtain ⟨rfl, rfl⟩ := h
    rfl
  · split at h <;> contradiction

end Projector

theorem Template.place_projection (t : Template) :
    t.projection.model.functions.map (·.place) = t.functions.map fun x => (x.id, x.code) := by
  rw [projection_eq]
  refine List.foldlRecOn (motive := fun out : Projection => out.model.functions.map (·.place) =
    t.functions.map fun x => (x.id, x.code)) _ _ ?_ fun out h r _ => ?_
  · rw [Projector.place_foldl_addEntry, functions, List.map_map]
    rfl
  · rw [Projector.place_attach, h]

/-! ## What is collected -/

/-- What a step of a collection adds as far as code is concerned: the functions of some templates
and the assets of some sources. -/
structure Collected.Adds (c c' : Collected) (templates : List Template)
    (sources : List (String × Path)) : Prop where
  functions : c'.model.functions.map (·.place) = c.model.functions.map (·.place) ++
    (templates.flatMap (·.functions)).map fun x => (x.id, x.code)
  assets : ∀ hash, c'.model.assets.lookup hash = (c.model.assets ++ sources).lookup hash

namespace Collected.Adds

variable {c c' c'' : Collected} {templates more : List Template}
variable {sources others : List (String × Path)}

theorem nil (c : Collected) : c.Adds c [] [] := ⟨by simp, by simp⟩

theorem trans (h : c.Adds c' templates sources) (h' : c'.Adds c'' more others) :
    c.Adds c'' (templates ++ more) (sources ++ others) where
  functions := by
    rw [h'.functions, h.functions, List.flatMap_append, List.map_append, List.append_assoc]
  assets := by
    intro hash
    rw [h'.assets, List.lookup_append, h.assets, ← List.lookup_append, List.append_assoc]

/-- Steps one after another add what each of them adds. -/
theorem foldlM {α : Type} {f : Collected → α → Attempt AssemblyFailure Collected}
    (ts : α → List Template) (ss : α → List (String × Path)) {xs : List α}
    (hstep : ∀ x ∈ xs, ∀ {c c'}, (f c x).run.value = .ok c' → c.Adds c' (ts x) (ss x))
    (h : (xs.foldlM f c).run.value = .ok c') : c.Adds c' (xs.flatMap ts) (xs.flatMap ss) := by
  induction xs generalizing c with
  | nil =>
    obtain rfl : c = c' := Except.ok.inj h
    exact nil c
  | cons x rest ih =>
    obtain ⟨next, hnext, hrest⟩ := Attempt.bind_eq_ok.1 h
    rw [List.flatMap_cons, List.flatMap_cons]
    exact (hstep x List.mem_cons_self hnext).trans
      (ih (fun y hy => hstep y (List.mem_cons_of_mem x hy)) hrest)

end Collected.Adds

namespace Disk

variable {disk : Disk} {dir : Path} {c c' : Collected} {m : Manifest} {merged : List Manifest}

/-- The template of a stack. -/
def template? (disk : Disk) (stack : StackArtifact) : Option Template :=
  (disk.readJson stack.templatePath).toOption.bind fun raw =>
    (Template.ofDocument raw stack.name stack.templatePath).toOption

/-- The templates of the stacks that a manifest names, in order. -/
def templatesOf (disk : Disk) (m : Manifest) : List Template :=
  m.stackArtifacts.flatMap fun stack => (disk.template? stack).toList

/-- The sources of assets that a manifest names, in order: the metadata of the resources of its
stacks, and behind them the files of its asset manifests. -/
def assetSources (disk : Disk) (m : Manifest) : List (String × Path) :=
  ((disk.templatesOf m).flatMap fun t => t.resources.filterMap (·.bundle? m.dir)) ++
    m.assetManifests.flatMap fun a =>
      ((disk.readJson a.path).toOption.map (Assets.listed m.dir)).getD []

open Collected (addStack addAssets addManifest addAssembly)

/-- A part of the model with the functions of a template adds these, and the assets of the
template. -/
theorem adds_part (t : Template) {part : Model} (detached : List DetachedRule)
    (hpart : part.functions.map (·.place) = t.functions.map fun x => (x.id, x.code)) :
    c.Adds
      { c with
        model := c.model.merge { part with assets := (t.assets dir).value }
        detached := c.detached ++ detached }
      [t] (t.resources.filterMap (·.bundle? dir)) where
  functions := by
    rw [List.flatMap_singleton, ← hpart]
    exact List.map_append
  assets := by
    intro hash
    refine (Assets.lookup_merge _ _ hash).trans ?_
    rw [List.lookup_append, List.lookup_append, ← t.lookup_assets]

theorem exists_template_of_addStack {tree? : Option Construct} {stack : StackArtifact}
    (h : (addStack disk dir tree? c stack).run.value = .ok c') :
    ∃ t, disk.template? stack = some t ∧
      c.Adds c' [t] (t.resources.filterMap (·.bundle? dir)) := by
  obtain ⟨raw, hraw, h⟩ := Attempt.bind_eq_ok.1 h
  obtain ⟨t, ht, h⟩ := Attempt.bind_eq_ok.1 h
  have hjson : disk.readJson stack.templatePath = .ok raw := hraw
  have htemplate : Template.ofDocument raw stack.name stack.templatePath = .ok t := ht
  refine ⟨t, by simp [template?, hjson, htemplate, Except.toOption], ?_⟩
  cases tree? with
  | none =>
    obtain rfl := Except.ok.inj h
    exact adds_part t t.projection.detached t.place_projection
  | some tree =>
    obtain rfl := Except.ok.inj h
    refine adds_part t t.projection.detached ?_
    rw [← t.place_projection]
    exact List.map_map

theorem readJson_of_fetchOptional {file : OptionalFile} {path : Path} {raw? : Option Json}
    (h : (disk.fetchOptional file path).run.value = .ok raw?) :
    (disk.readJson path).toOption = raw? := by
  unfold fetchOptional at h
  split at h
  · rw [Attempt.value_map] at h
    have hfetch : (disk.fetchJson path).run.value = disk.readJson path := rfl
    rw [hfetch] at h
    cases hraw : disk.readJson path with
    | error failure => simp [hraw, Except.map] at h
    | ok raw => simpa [hraw, Except.map, Except.toOption] using h
  · next hmissing =>
    obtain rfl : none = raw? := Except.ok.inj h
    unfold holds at hmissing
    cases hnode : disk.node path with
    | ok node => simp [hnode] at hmissing
    | error fault =>
      have hbytes : disk.readBytes path = .error fault := by rw [readBytes, hnode]
      have htext : disk.readText path = .error fault := by rw [readText, hbytes]; rfl
      rw [readJson, htext]
      rfl

theorem adds_addAssets {a : AssetManifestArtifact}
    (h : (addAssets disk dir c a).run.value = .ok c') :
    c.Adds c' [] (((disk.readJson a.path).toOption.map (Assets.listed dir)).getD []) := by
  obtain ⟨raw?, hraw, h⟩ := Attempt.bind_eq_ok.1 h
  rw [readJson_of_fetchOptional hraw]
  cases raw? with
  | none =>
    obtain rfl : c = c' := Except.ok.inj h
    exact .nil c
  | some raw =>
    obtain ⟨assets, hassets, h⟩ := Attempt.bind_eq_ok.1 h
    obtain rfl := Except.ok.inj h
    obtain rfl := Assets.eq_listed_of_ofDocument hassets
    exact ⟨by simp, Assets.lookup_merge _ _⟩

/-- A manifest adds the functions of its templates and the assets of its sources. -/
theorem adds_addManifest (h : (addManifest disk c m).run.value = .ok c') :
    c.Adds c' (disk.templatesOf m) (disk.assetSources m) := by
  obtain ⟨tree?, -, h⟩ := Attempt.bind_eq_ok.1 h
  obtain ⟨next, hstacks, h⟩ := Attempt.bind_eq_ok.1 h
  have hfirst := Collected.Adds.foldlM (fun stack => (disk.template? stack).toList)
    (fun stack => (disk.template? stack).toList.flatMap fun t =>
      t.resources.filterMap (·.bundle? m.dir)) (fun stack _ c c' h => by
    obtain ⟨t, ht, hadds⟩ := exists_template_of_addStack h
    simpa [ht] using hadds) hstacks
  have hrest := Collected.Adds.foldlM (fun _ => []) _ (fun a _ c c' h => adds_addAssets h) h
  have htemplates : disk.templatesOf m = disk.templatesOf m ++
      m.assetManifests.flatMap fun _ => [] := by simp
  rw [htemplates, assetSources, templatesOf, List.flatMap_assoc]
  exact hfirst.trans hrest

/-! ## What an assembly is merged from -/

/-- The manifests of the directories that the collection of an assembly goes through, in order. -/
inductive MergedFrom (disk : Disk) (dir : Path) : List Manifest → Prop
  | none : (disk.fetchManifest dir).run.value = .ok none → MergedFrom disk dir []
  | some {root : Manifest} {c : Collected} {merged : List Manifest} :
      (disk.fetchManifest dir).run.value = .ok (some root) →
      (addAssembly disk assemblyNestingLimit {} root).run.value = .ok c →
      c.visited = (merged.map (·.dir)).reverse →
      (∀ m ∈ merged, (disk.fetchManifest m.dir).run.value = .ok (some m)) →
      MergedFrom disk dir merged

theorem exists_mergedFrom {model : Model} (h : (disk.assemble dir).run.value = .ok model) :
    ∃ merged, disk.MergedFrom dir merged ∧ (disk.merge merged).run.value = .ok model := by
  obtain ⟨root?, hroot, h⟩ := Attempt.bind_eq_ok.1 h
  cases root? with
  | none =>
    obtain rfl : {} = model := Except.ok.inj h
    exact ⟨[], .none hroot, rfl⟩
  | some root =>
    obtain ⟨c, hadd, h⟩ := Attempt.bind_eq_ok.1 h
    obtain rfl : (c.model.attachRules c.detached).value.linkAssets = model := Except.ok.inj h
    obtain ⟨merged, hmerges, -⟩ := exists_merges_addAssembly (gathered_nil disk) List.Pairwise.nil
      List.Pairwise.nil (List.nil_subset _) (.root hroot) (by simp) hadd
    refine ⟨merged, .some hroot hadd hmerges.gathered.visited fun m hm => ?_,
      hmerges.gathered.value_merge⟩
    obtain ⟨above, hchain, -⟩ := hmerges.reached m hm
    exact hchain.fetch

/-- The resources of all templates that become functions, in order. -/
def functionSources (disk : Disk) (merged : List Manifest) : List FunctionSource :=
  (merged.flatMap disk.templatesOf).flatMap (·.functions)

/-- The code of each function is that of its resource, linked to the assets in the end; and these
are the sources of all manifests. -/
theorem merge_places {model : Model} (h : (disk.merge merged).run.value = .ok model) :
    (∀ hash, model.assets.lookup hash = (merged.flatMap disk.assetSources).lookup hash) ∧
    model.functions.map (·.place) =
      (disk.functionSources merged).map fun x => (x.id, x.code.link model.assets) := by
  obtain ⟨c, hfold, h⟩ := Attempt.bind_eq_ok.1 h
  have hadds : Collected.Adds {} c _ _ :=
    Collected.Adds.foldlM _ _ (fun m _ c c' h => adds_addManifest h) hfold
  obtain rfl : (c.model.attachRules c.detached).value.linkAssets = model := Except.ok.inj h
  rw [Model.value_attachRules]
  refine ⟨fun hash => hadds.assets hash, ?_⟩
  have hplaces := congrArg (List.map fun place : String × Model.Code =>
    (place.1, place.2.link c.model.assets)) hadds.functions
  have hnone : ({} : Collected).model.functions = [] := rfl
  rw [hnone, List.map_nil, List.nil_append, List.map_map, List.map_map] at hplaces
  rw [Model.linkAssets, List.map_map]
  exact hplaces

/-- A manifest of whose collection something comes has a template for each of its stacks. -/
theorem exists_template_of_merge {model : Model} (h : (disk.merge merged).run.value = .ok model)
    (hm : m ∈ merged) {stack : StackArtifact} (hstack : stack ∈ m.stackArtifacts) :
    ∃ t, disk.template? stack = some t := by
  obtain ⟨c, hfold, -⟩ := Attempt.bind_eq_ok.1 h
  obtain ⟨before, after, hmanifest⟩ := Attempt.exists_step_of_foldlM hfold hm
  obtain ⟨tree?, -, hmanifest⟩ := Attempt.bind_eq_ok.1 hmanifest
  obtain ⟨next, hstacks, -⟩ := Attempt.bind_eq_ok.1 hmanifest
  obtain ⟨before, after, hadd⟩ := Attempt.exists_step_of_foldlM hstacks hstack
  obtain ⟨t, ht, -⟩ := exists_template_of_addStack hadd
  exact ⟨t, ht⟩

/-- A resource whose metadata has a hash is a source of that asset, whatever else is merged. -/
theorem isSome_lookup_of_bundle {x : FunctionSource} {hash : String}
    (hx : x ∈ disk.functionSources merged) (hhash : x.resource.bundleHash? = some hash) :
    ((merged.flatMap disk.assetSources).lookup hash).isSome := by
  obtain ⟨t, ht, hx⟩ := List.mem_flatMap.1 hx
  obtain ⟨m, hm, ht⟩ := List.mem_flatMap.1 ht
  obtain ⟨r, hr, rfl⟩ := List.mem_map.1 hx
  obtain ⟨path, hpath⟩ := Resource.bundle?_of_hash m.dir hhash
  have hresource : r ∈ t.resources := (List.mem_filter.1 (List.mem_filter.1 hr).1).1
  have hbundle : (hash, path) ∈ disk.assetSources m :=
    List.mem_append_left _ (List.mem_flatMap.2 ⟨t, ht, List.mem_filterMap.2 ⟨r, hresource, hpath⟩⟩)
  exact List.lookup_isSome_iff.2 ⟨(hash, path), List.mem_flatMap.2 ⟨m, hm, hbundle⟩, by simp⟩

/-- The model of an assembly is merged from the manifests that its collection goes through.  A hash
has the path of its first source: those of one manifest are before those of the next, and in each
one the metadata of the resources of its stacks before its asset manifests.  Every function with the
hash of a bundle has the path of that hash, if there is one; and for the resources that become
functions, one function each, whose metadata has a hash, there is one. -/
theorem assemble_links_code {model : Model} (h : (disk.assemble dir).run.value = .ok model) :
    ∃ merged, disk.MergedFrom dir merged ∧
      (∀ m ∈ merged, ∀ stack ∈ m.stackArtifacts, ∃ t, disk.template? stack = some t) ∧
      (∀ hash, model.assets.lookup hash = (merged.flatMap disk.assetSources).lookup hash) ∧
      (∀ f ∈ model.functions, ∀ hash path, f.code = .asset hash path →
        path = model.assets.lookup hash) ∧
      List.Forall₂ (fun (x : FunctionSource) (f : Model.ComputeFunction) => f.id = x.id ∧
          ∀ hash, x.resource.bundleHash? = some hash → ∃ path, f.code = .asset hash (some path))
        (disk.functionSources merged) model.functions := by
  obtain ⟨merged, hmerged, hmerge⟩ := exists_mergedFrom h
  obtain ⟨hassets, hplaces⟩ := merge_places hmerge
  refine ⟨merged, hmerged, fun m hm stack hstack => exists_template_of_merge hmerge hm hstack,
    hassets, ?_, ?_⟩
  · intro f hf hash path hcode
    have hplace : f.place ∈ model.functions.map (·.place) := List.mem_map_of_mem hf
    rw [hplaces] at hplace
    obtain ⟨x, -, hx⟩ := List.mem_map.1 hplace
    have hlinked : x.code.link model.assets = .asset hash path :=
      (congrArg Prod.snd hx).trans hcode
    exact Projector.path_of_link_codeOf hlinked
  · have hpairs : List.Forall₂ (fun (x : FunctionSource) (f : Model.ComputeFunction) =>
        (x.id, x.code.link model.assets) = f.place) (disk.functionSources merged)
        model.functions := by
      refine List.forall₂_map_left_iff.1 (List.forall₂_map_right_iff.1 ?_)
      rw [← hplaces]
      exact List.forall₂_refl _
    refine ((List.forall₂_and_left _ _).2 ⟨fun x hx => hx, hpairs⟩).imp ?_
    rintro x f ⟨hx, hplace⟩
    obtain ⟨hid, hcode⟩ := Prod.mk.inj hplace
    refine ⟨hid.symm, fun hash hhash => ?_⟩
    obtain ⟨path, hpath⟩ := Option.isSome_iff_exists.1 (isSome_lookup_of_bundle hx hhash)
    refine ⟨path, ?_⟩
    rw [← hcode, FunctionSource.code, Projector.link_codeOf_of_hash _ _ hhash, hassets, hpath]

/-! ### A bundle with two paths -/

section TwoPaths

/-- A document that is a manifest, the template of its own stack and its own asset manifest: the
metadata of a function and the asset manifest have different paths for one hash. -/
def twoPathsText : String :=
  "\x7b\"artifacts\":\x7b\"Shop\":[\"aws:cloudformation:stack\"," ++
      "\x7b\"templateFile\":\"manifest.json\"\x7d]," ++
      "\"Files\":[\"cdk:asset-manifest\",\x7b\"file\":\"manifest.json\"\x7d]\x7d," ++
    "\"Resources\":\x7b\"Worker\":\x7b\"Type\":\"AWS::Lambda::Function\"," ++
      "\"Metadata\":\x7b\"aws:asset:path\":\"asset.h.zip\"\x7d\x7d\x7d," ++
    "\"files\":\x7b\"h\":\x7b\"source\":\x7b\"path\":\"x\"\x7d\x7d\x7d\x7d"

def twoPaths : Disk := ofTower [twoPathsText]

def twoPathsJson : Json :=
  .object
    [("artifacts", .object
        [("Shop", .array
            [.string "aws:cloudformation:stack", .object [("templateFile", .string manifestFile)]]),
          ("Files", .array
            [.string "cdk:asset-manifest", .object [("file", .string manifestFile)]])]),
      ("Resources", .object [("Worker", .object
        [("Type", .string ResourceType.function),
          ("Metadata", .object [("aws:asset:path", .string "asset.h.zip")])])]),
      ("files", .object [("h", .object [("source", .object [("path", .string "x")])])])]

def twoPathsManifest : Manifest where
  dir := level 0
  stackArtifacts := [⟨"Shop", (level 0).join manifestFile, []⟩]
  assetManifests := [⟨"Files", (level 0).join manifestFile, none⟩]

def twoPathsTemplate : Template where
  stack := "Shop"
  resources :=
    [{ logicalId := "Worker", type := ResourceType.function, properties := .null, dependsOn := [],
       condition := none, metadata := [("aws:asset:path", .string "asset.h.zip")] }]

/-- What is collected from the template. -/
def twoPathsStack : Collected :=
  { model := Model.merge {}
      { twoPathsTemplate.projection.model with
        assets := (twoPathsTemplate.assets (level 0)).value }
    detached := [] ++ twoPathsTemplate.projection.detached
    visited := [level 0] }

/-- What is collected in all. -/
def twoPathsCollected : Collected :=
  { twoPathsStack with
    model.assets := twoPathsStack.model.assets.merge (Assets.listed (level 0) twoPathsJson) }

def twoPathsModel : Model :=
  (twoPathsCollected.model.attachRules twoPathsCollected.detached).value.linkAssets

set_option maxRecDepth 4000 in
theorem read_twoPathsText : Json.read? twoPathsText = some twoPathsJson := by
  show Json.read? (String.ofList _ ++ String.ofList _ ++ String.ofList _ ++ String.ofList _ ++
    String.ofList _ ++ String.ofList _) = _
  simp only [← String.ofList_append]
  exact Json.read?_ofList rfl

theorem assemble_twoPaths : (twoPaths.assemble (level 0)).run.value = .ok twoPathsModel := by
  have htext : [twoPathsText][0]? = some twoPathsText := rfl
  have hnode := node_ofTower htext (by decide)
  have hroot : (twoPaths.fetchManifest (level 0)).run.value = .ok (some twoPathsManifest) :=
    fetchManifest_ofTower htext (by decide) read_twoPathsText rfl
  have hraw : (twoPaths.fetchJson ((level 0).join manifestFile)).run.value = .ok twoPathsJson :=
    readJson_of_node hnode read_twoPathsText
  have hstack : (addStack twoPaths (level 0) none { visited := [level 0] }
      ⟨"Shop", (level 0).join manifestFile, []⟩).run.value = .ok twoPathsStack :=
    Attempt.bind_eq_ok.2 ⟨_, hraw, Attempt.bind_eq_ok.2 ⟨twoPathsTemplate, rfl, rfl⟩⟩
  have hassets : (addAssets twoPaths (level 0) twoPathsStack
      ⟨"Files", (level 0).join manifestFile, none⟩).run.value = .ok twoPathsCollected := by
    have hlisted := value_fetchOptional_of_node .assetManifest hnode read_twoPathsText
    exact Attempt.bind_eq_ok.2 ⟨_, hlisted, rfl⟩
  have hown : (addManifest twoPaths { visited := [level 0] } twoPathsManifest).run.value =
      .ok twoPathsCollected := by
    refine Attempt.bind_eq_ok.2 ⟨none, rfl, Attempt.bind_eq_ok.2 ⟨twoPathsStack, ?_, ?_⟩⟩
    · exact Attempt.bind_eq_ok.2 ⟨_, hstack, rfl⟩
    · exact Attempt.bind_eq_ok.2 ⟨_, hassets, rfl⟩
  have hadd : (addAssembly twoPaths assemblyNestingLimit {} twoPathsManifest).run.value =
      .ok twoPathsCollected :=
    Attempt.bind_eq_ok.2 ⟨[], rfl, Attempt.bind_eq_ok.2 ⟨_, hown, rfl⟩⟩
  exact Attempt.bind_eq_ok.2 ⟨_, hroot, Attempt.bind_eq_ok.2 ⟨_, hadd, rfl⟩⟩

/-- The function runs the bundle at the path that its own metadata has. -/
theorem twoPaths_links_code :
    (twoPaths.assemble (level 0)).run.value = .ok twoPathsModel ∧
    (∀ f ∈ twoPathsModel.functions, ∀ hash path, f.code = .asset hash path →
      path = twoPathsModel.assets.lookup hash) ∧
    twoPathsModel.functions.map (·.place) =
      [("Shop/Worker", .asset "h" (some ((level 0).join "asset.h.zip")))] := by
  obtain ⟨-, -, -, -, hlinked, -⟩ := assemble_links_code assemble_twoPaths
  exact ⟨assemble_twoPaths, hlinked, by decide +kernel⟩

end TwoPaths

end Disk

end LocalCloud
