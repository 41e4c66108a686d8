import LocalCloud.Proofs.Assembly.Nesting

/-!
# What an assembly is merged from

The model of an assembly is that of the manifests which its collection goes through
(`exists_merges_of_assemble`).  Every chain of nested assemblies has been followed as far as its
links go, so that each directory to which one leads is merged, and once (`assemble_merges_once`).

A directory is not collected again when a shorter chain leads to it later.  What is nested in it can
be left out for that, although the shorter chain leads there within the limit
(`shortcut_misses_last`).
-/

namespace LocalCloud.Disk

variable {disk : Disk} {dir : Path} {m inner outer : Manifest} {above : List Manifest}

/-- The model of some manifests: what they name themselves, one after another. -/
def merge (disk : Disk) (merged : List Manifest) : Attempt AssemblyFailure Model := do
  let c ← merged.foldlM (Collected.addManifest disk) {}
  let model ← ExceptT.lift (c.model.attachRules c.detached)
  pure model.linkAssets

theorem Gathered.value_merge {c : Collected} {merged : List Manifest}
    (h : disk.Gathered c merged) :
    (disk.merge merged).run.value = .ok (c.model.attachRules c.detached).value.linkAssets := by
  rw [merge, Attempt.value_bind, h.value]
  rfl

/-- The assembly of a directory with a manifest is merged from its own manifest on. -/
theorem exists_merges_of_assemble {model : Model} {root : Manifest}
    (hroot : (disk.fetchManifest dir).run.value = .ok (some root))
    (h : (disk.assemble dir).run.value = .ok model) :
    ∃ merged c, (disk.merge merged).run.value = .ok model ∧ disk.Merges dir [] merged c ∧
      ∃ x ∈ merged, x.SamePlace root := by
  obtain ⟨root?, hroot?, h⟩ := Attempt.bind_eq_ok.1 h
  obtain rfl : some root = root? := Except.ok.inj (hroot.symm.trans hroot?)
  obtain ⟨c, hadd, h⟩ := Attempt.bind_eq_ok.1 h
  obtain rfl : (c.model.attachRules c.detached).value.linkAssets = model := Except.ok.inj h
  obtain ⟨merged, hmerges, hmem⟩ := exists_merges_addAssembly (gathered_nil disk) List.Pairwise.nil
    List.Pairwise.nil (List.nil_subset _) (.root hroot) (by simp) hadd
  exact ⟨merged, c, hmerges.gathered.value_merge, hmerges, hmem⟩

/-- All that a chain leads to has been merged, if none of its links can be left out. -/
theorem Merges.exists_of_chain {c : Collected} {merged : List Manifest} {root : Manifest}
    (h : disk.Merges dir [] merged c) (hroot : (disk.fetchManifest dir).run.value = .ok (some root))
    (hmem : ∃ x ∈ merged, x.SamePlace root) (hchain : disk.Chain dir (m :: above))
    (hopen : (m :: above).IsChain fun inner outer =>
      ¬ disk.Exhausted dir outer inner ∧ ¬ disk.Overlong dir outer inner) :
    ∃ x ∈ merged, x.SamePlace m := by
  induction above generalizing m with
  | nil =>
    cases hchain with
    | root hroot' =>
      obtain rfl : root = m := Option.some.inj (Except.ok.inj (hroot.symm.trans hroot'))
      exact hmem
  | cons outer above ih =>
    cases hchain with
    | link houter hnests =>
      obtain ⟨⟨hexhausted, hshort⟩, habove⟩ := List.isChain_cons_cons.1 hopen
      obtain ⟨x, hx, hsame⟩ := ih houter habove
      obtain ⟨way, hway, hlength⟩ := h.reached x hx
      obtain ⟨inner, hinner, hplace⟩ :=
        hnests.of_samePlace houter.fetch hway hlength hsame.symm hshort
      have hopen' : ¬ disk.Exhausted dir x inner := fun h' => hexhausted (h'.congr hsame hplace)
      obtain ⟨y, hy, hsame'⟩ := h.closed x hx inner hinner hopen'
      exact ⟨y, hy, hsame'.trans hplace.symm⟩

theorem Chain.exists_root (h : disk.Chain dir (m :: above)) :
    ∃ root, (disk.fetchManifest dir).run.value = .ok (some root) := by
  induction above generalizing m with
  | nil =>
    cases h with
    | root hroot => exact ⟨m, hroot⟩
  | cons outer above ih =>
    cases h with
    | link houter _ => exact ih houter

/-- The model of an assembly is merged from the manifests of some directories, each of them once.
A chain of no more links than are followed leads to each of these directories; and any directory to
which such a chain leads is one of them, unless one of the links of the chain comes after so many
others on another way to it, or goes to a path that is too long in another spelling. -/
theorem assemble_merges_once {model : Model} (h : (disk.assemble dir).run.value = .ok model) :
    ∃ merged : List Manifest, (disk.merge merged).run.value = .ok model ∧ Simple merged ∧
      (∀ m ∈ merged, ∃ above, disk.Chain dir (m :: above) ∧
        above.length ≤ assemblyNestingLimit) ∧
      ∀ m above, disk.Chain dir (m :: above) → above.length ≤ assemblyNestingLimit →
        ((m :: above).IsChain fun inner outer =>
          ¬ disk.Exhausted dir outer inner ∧ ¬ disk.Overlong dir outer inner) →
        ∃ x ∈ merged, x.SamePlace m := by
  by_cases hroot : ∃ root, (disk.fetchManifest dir).run.value = .ok (some root)
  · obtain ⟨root, hroot⟩ := hroot
    obtain ⟨merged, c, hvalue, hmerges, hmem⟩ := exists_merges_of_assemble hroot h
    refine ⟨merged, hvalue, by simpa using hmerges.simple, hmerges.reached, ?_⟩
    intro m above hchain _ hopen
    exact hmerges.exists_of_chain hroot hmem hchain hopen
  · refine ⟨[], ?_, List.Pairwise.nil, by simp, fun m above hchain => ?_⟩
    · obtain ⟨root?, hroot?, h⟩ := Attempt.bind_eq_ok.1 h
      cases root? with
      | none =>
        obtain rfl : {} = model := Except.ok.inj h
        rfl
      | some root => exact absurd ⟨root, hroot?⟩ hroot
    · exact absurd hchain.exists_root hroot

/-! ### A shorter way that is not taken

Ten directories in each other, of which each names the next one and the last one has an asset.  The
first one names also the last but one, and before the next: two links lead to the asset.  But the
last but one is collected at the end of the chain of all directories, where the links are used up,
and not once more when its turn comes by itself. -/

section Shortcut

open Collected (addAssembly addAssets addManifest fetchNested)
open Manifest (readRecords)

/-- The text of the manifest at a level.  The last one is its own asset manifest. -/
def shortcutText (k : Nat) : String :=
  if k = 0 then
    "[\x7b\"A\":[\"cdk:cloud-assembly\",\x7b\"directoryName\":\"n/n/n/n/n/n/n/n\"\x7d]," ++
      "\"B\":[\"cdk:cloud-assembly\",\x7b\"directoryName\":\"n\"\x7d]\x7d]"
  else if k = 9 then
    "\x7b\"artifacts\":\x7b\"A\":[\"cdk:asset-manifest\"," ++
      "\x7b\"file\":\"manifest.json\"\x7d]\x7d," ++
      "\"files\":\x7b\"h\":\x7b\"source\":\x7b\"path\":\"x\"\x7d\x7d\x7d\x7d"
  else "[\x7b\"B\":[\"cdk:cloud-assembly\",\x7b\"directoryName\":\"n\"\x7d]\x7d]"

def shortcut : Disk := ofTower ((List.range 10).map shortcutText)

/-- An artifact for a nested assembly, as a value. -/
def linkJson (name sub : String) : String × Json :=
  (name, .array [.string "cdk:cloud-assembly", .object [("directoryName", .string sub)]])

def shortcutJson (k : Nat) : Json :=
  if k = 0 then .array [.object [linkJson "A" "n/n/n/n/n/n/n/n", linkJson "B" "n"]]
  else if k = 9 then
    .object
      [("artifacts", .object [("A",
          .array [.string "cdk:asset-manifest", .object [("file", .string manifestFile)]])]),
        ("files", .object [("h", .object [("source", .object [("path", .string "x")])])])]
  else .array [.object [linkJson "B" "n"]]

/-- An artifact for a nested assembly. -/
def linkRecord (name sub : String) : String × ArtifactRecord :=
  (name, { type := "cdk:cloud-assembly", properties := .object [("directoryName", .string sub)] })

def shortcutRecords (k : Nat) : List (String × ArtifactRecord) :=
  if k = 0 then [linkRecord "A" "n/n/n/n/n/n/n/n", linkRecord "B" "n"]
  else if k = 9 then
    let properties := Json.object [("file", .string manifestFile)]
    [("A", { type := "cdk:asset-manifest", properties })]
  else [linkRecord "B" "n"]

/-- The manifest at a level. -/
def stage (k : Nat) : Manifest := .ofRecords (level k) (shortcutRecords k)

variable {i k : Nat}

theorem dir_stage (k : Nat) : (stage k).dir = level k := Manifest.dir_ofRecords _ _

theorem stage_inj (h : stage i = stage k) : i = k := by
  have hsame : (stage i).dir.same (stage k).dir = true := h ▸ Path.same_refl _
  rwa [dir_stage, dir_stage, same_level_iff] at hsame

theorem read_shortcutText (k : Nat) : Json.read? (shortcutText k) = some (shortcutJson k) := by
  unfold shortcutText shortcutJson
  split_ifs
  · show Json.read? (String.ofList _ ++ String.ofList _) = _
    simp only [← String.ofList_append]
    exact Json.read?_ofList rfl
  · show Json.read? (String.ofList _ ++ String.ofList _ ++ String.ofList _) = _
    simp only [← String.ofList_append]
    exact Json.read?_ofList rfl
  · exact Json.read?_ofList rfl

theorem readRecords_shortcutJson (k : Nat) :
    readRecords (shortcutJson k) = .ok (shortcutRecords k) := by
  unfold shortcutJson shortcutRecords
  split_ifs <;> rfl

theorem fetch_stage (hk : k < 10) :
    (shortcut.fetchManifest (level k)).run.value = .ok (some (stage k)) := by
  have htext : ((List.range 10).map shortcutText)[k]? = some (shortcutText k) := by simp [hk]
  exact fetchManifest_ofTower htext (by omega) (read_shortcutText k) (readRecords_shortcutJson k)

/-- The levels that the manifest at a level names. -/
def named (k : Nat) : List Nat := if k = 0 then [8, 1] else if k = 9 then [] else [k + 1]

theorem named_lt (hk : k < 10) (hi : i ∈ named k) : i < 10 := by
  unfold named at hi
  split_ifs at hi <;> simp at hi <;> omega

theorem nested_stage (k : Nat) : (stage k).nested = (named k).map level := by
  have hshort : (level 0).join "n/n/n/n/n/n/n/n" = level 8 := by decide +kernel
  rw [stage, Manifest.nested_ofRecords, shortcutRecords, named]
  split
  · next hk =>
    rw [hk, List.map_cons, ← hshort]
    rfl
  · split <;> rfl

theorem nests_stage_iff (hk : k < 10) :
    shortcut.Nests (stage k) m ↔ ∃ i ∈ named k, m = stage i := by
  rw [Nests, nested_stage]
  constructor
  · rintro ⟨sub, hsub, h⟩
    obtain ⟨i, hi, rfl⟩ := List.mem_map.1 hsub
    rw [fetch_stage (named_lt hk hi)] at h
    exact ⟨i, hi, (Option.some.inj (Except.ok.inj h)).symm⟩
  · rintro ⟨i, hi, rfl⟩
    exact ⟨level i, List.mem_map_of_mem hi, fetch_stage (named_lt hk hi)⟩

theorem exists_stage_of_chain (h : shortcut.Chain (level 0) (m :: above)) :
    ∃ k < 10, m = stage k := by
  induction above generalizing m with
  | nil =>
    cases h with
    | root hroot =>
      rw [fetch_stage (by decide)] at hroot
      exact ⟨0, by decide, (Option.some.inj (Except.ok.inj hroot)).symm⟩
  | cons outer above ih =>
    cases h with
    | link houter hnests =>
      obtain ⟨k, hk, rfl⟩ := ih houter
      obtain ⟨i, hi, rfl⟩ := (nests_stage_iff hk).1 hnests
      exact ⟨i, named_lt hk hi, rfl⟩

/-- Two links lead to the last directory. -/
theorem chain_last : shortcut.Chain (level 0) [stage 9, stage 8, stage 0] := by
  have hroot : shortcut.Chain (level 0) [stage 0] := .root (fetch_stage (by decide))
  have hshort := hroot.link ((nests_stage_iff (by decide)).2 ⟨8, by decide, rfl⟩)
  exact hshort.link ((nests_stage_iff (by decide)).2 ⟨9, by decide, rfl⟩)

variable {c c' : Collected} {merged : List Manifest} {links : Nat}

/-- Before the last one the manifests name nothing but nested assemblies. -/
theorem addManifest_stage (disk : Disk) (c : Collected) (hk : k ≠ 9) :
    (addManifest disk c (stage k)).run.value = .ok c := by
  unfold stage shortcutRecords
  rw [if_neg hk]
  split <;> rfl

theorem addManifest_last (c : Collected) : (addManifest shortcut c (stage 9)).run.value =
    .ok { c with model.assets := c.model.assets.merge [("h", (level 9).join "x")] } := by
  have htext : ((List.range 10).map shortcutText)[9]? = some (shortcutText 9) := rfl
  have hraw := value_fetchOptional_of_node .assetManifest (node_ofTower htext (by decide))
    (read_shortcutText 9)
  have hassets : (addAssets shortcut (level 9) c
      ⟨"A", (level 9).join manifestFile, none⟩).run.value =
      .ok { c with model.assets := c.model.assets.merge [("h", (level 9).join "x")] } := by
    rw [addAssets, Attempt.value_bind, shortcut, hraw]
    rfl
  have hstage : stage 9 =
      { dir := level 9, assetManifests := [⟨"A", (level 9).join manifestFile, none⟩] } := rfl
  rw [hstage, addManifest]
  exact Attempt.bind_eq_ok.2
    ⟨none, rfl, Attempt.bind_eq_ok.2 ⟨c, rfl, Attempt.bind_eq_ok.2 ⟨_, hassets, rfl⟩⟩⟩

theorem exists_foldlM_stages (hmerged : ∀ m ∈ merged, ∃ k, m = stage k) (c : Collected) :
    ∃ assets, (merged.foldlM (addManifest shortcut) c).run.value =
        .ok { c with model.assets := assets } ∧
      (c.model.assets ≠ [] ∨ stage 9 ∈ merged → assets ≠ []) := by
  induction merged generalizing c with
  | nil => exact ⟨c.model.assets, rfl, by simp⟩
  | cons m rest ih =>
    obtain ⟨⟨k, rfl⟩, hrest⟩ := List.forall_mem_cons.1 hmerged
    by_cases hk : k = 9
    · subst hk
      obtain ⟨assets, hvalue, hassets⟩ := ih hrest _
      exact ⟨assets, Attempt.bind_eq_ok.2 ⟨_, addManifest_last c, hvalue⟩,
        fun _ => hassets (.inl (Assets.add_ne_nil _ _ _))⟩
    · obtain ⟨assets, hvalue, hassets⟩ := ih hrest c
      refine ⟨assets, Attempt.bind_eq_ok.2 ⟨_, addManifest_stage shortcut c hk, hvalue⟩, ?_⟩
      rintro (hc | hmem)
      · exact hassets (.inl hc)
      · rcases List.mem_cons.1 hmem with heq | hmem
        · exact absurd (stage_inj heq).symm hk
        · exact hassets (.inr hmem)

/-- With the manifest of the last directory an asset is merged. -/
theorem assets_ne_nil_of_merge {model : Model} (hmerged : ∀ m ∈ merged, ∃ k, m = stage k)
    (hlast : stage 9 ∈ merged) (h : (shortcut.merge merged).run.value = .ok model) :
    model.assets ≠ [] := by
  obtain ⟨assets, hvalue, hassets⟩ := exists_foldlM_stages hmerged {}
  rw [merge, Attempt.value_bind, hvalue] at h
  obtain rfl := Except.ok.inj h
  exact hassets (.inr hlast)

theorem addAssembly_stage (hk : k < 9) (hnew : c.visited.any (·.same (level k)) = false)
    (h : (((named k).map stage).reverse.foldlM (addAssembly shortcut links)
      { c with visited := level k :: c.visited }).run.value = .ok c') :
    (addAssembly shortcut (links + 1) c (stage k)).run.value = .ok c' := by
  have hnested : ((stage k).nested.filterMapM (fetchNested shortcut)).run.value =
      .ok ((named k).map stage) := by
    rw [nested_stage]
    exact Attempt.value_filterMapM_map fun i hi =>
      fetchNested_eq_some_iff.2 (fetch_stage (named_lt (by omega) hi))
  rw [addAssembly, dir_stage, hnew]
  exact Attempt.bind_eq_ok.2
    ⟨_, hnested, Attempt.bind_eq_ok.2 ⟨_, addManifest_stage shortcut _ (by omega), h⟩⟩

/-- From the second directory on the links are used up at the last but one. -/
theorem addAssembly_stages (hk : 0 < k) (hlinks : k + links = 8)
    (hnew : ∀ i, k ≤ i → c.visited.any (·.same (level i)) = false) :
    ∃ visited, (addAssembly shortcut links c (stage k)).run.value = .ok { c with visited } ∧
      visited.any (·.same (level 8)) = true := by
  induction links generalizing c k with
  | zero =>
    obtain rfl : k = 8 := by omega
    refine ⟨level 8 :: c.visited, ?_, by simp [Path.same_refl]⟩
    rw [addAssembly, dir_stage, hnew 8 (Nat.le_refl 8)]
    exact Attempt.bind_eq_ok.2
      ⟨(), Attempt.value_forM_warn _ _, addManifest_stage shortcut _ (by decide)⟩
  | succ links ih =>
    have hnext : ∀ i, k + 1 ≤ i → (level k :: c.visited).any (·.same (level i)) = false := by
      intro i hi
      rw [List.any_cons, hnew i (by omega), Bool.or_false, Bool.eq_false_iff, ne_eq,
        same_level_iff]
      omega
    obtain ⟨visited, hvalue, hvisited⟩ :=
      ih (c := { c with visited := level k :: c.visited }) (Nat.succ_pos k) (by omega) hnext
    refine ⟨visited, addAssembly_stage (by omega) (hnew k (Nat.le_refl k)) ?_, hvisited⟩
    have hnamed : named k = [k + 1] := by rw [named, if_neg (by omega), if_neg (by omega)]
    rw [hnamed]
    exact Attempt.bind_eq_ok.2 ⟨_, hvalue, rfl⟩

theorem assemble_shortcut : (shortcut.assemble (level 0)).run.value = .ok {} := by
  have hnew : ∀ i, 1 ≤ i → [level 0].any (·.same (level i)) = false := by
    intro i hi
    rw [List.any_cons, List.any_nil, Bool.or_false, Bool.eq_false_iff, ne_eq, same_level_iff]
    omega
  obtain ⟨visited, hlong, hvisited⟩ :=
    addAssembly_stages (c := { visited := [level 0] }) Nat.one_pos (by decide : 1 + 7 = 8) hnew
  have hshort : (addAssembly shortcut 7 { visited } (stage 8)).run.value = .ok { visited } :=
    value_addAssembly_of_visited (by rwa [dir_stage])
  have hroot : (addAssembly shortcut 8 {} (stage 0)).run.value = .ok { visited } :=
    addAssembly_stage (by decide) rfl
      (Attempt.bind_eq_ok.2 ⟨_, hlong, Attempt.bind_eq_ok.2 ⟨_, hshort, rfl⟩⟩)
  exact Attempt.bind_eq_ok.2 ⟨_, fetch_stage (by decide), Attempt.bind_eq_ok.2 ⟨_, hroot, rfl⟩⟩

/-- Before the last but one, a chain to a directory goes through all that are around it. -/
theorem length_of_chain (h : shortcut.Chain (level 0) (stage k :: above)) (hk : k < 8) :
    above.length = k := by
  induction above generalizing k with
  | nil =>
    cases h with
    | root hroot =>
      rw [fetch_stage (by decide)] at hroot
      exact stage_inj (Option.some.inj (Except.ok.inj hroot))
  | cons outer above ih =>
    cases h with
    | link houter hnests =>
      obtain ⟨i, hi, rfl⟩ := exists_stage_of_chain houter
      obtain ⟨j, hj, heq⟩ := (nests_stage_iff hi).1 hnests
      obtain rfl : k = j := stage_inj heq
      have hnext : i + 1 = k := by
        unfold named at hj
        split_ifs at hj <;> simp at hj <;> omega
      rw [List.length_cons, ih houter (by omega), hnext]

theorem not_exhausted_stage (hk : k < 8) (inner : Manifest) :
    ¬ shortcut.Exhausted (level 0) (stage k) inner := by
  rintro ⟨m, above, hchain, hm, hlength, -⟩
  obtain ⟨i, -, rfl⟩ := exists_stage_of_chain hchain
  rw [Manifest.SamePlace, dir_stage, dir_stage, same_level_iff] at hm
  subst hm
  rw [length_of_chain hchain hk] at hlength
  exact Nat.ne_of_lt hk hlength

theorem not_overlong_shortcut (outer inner : Manifest) :
    ¬ shortcut.Overlong (level 0) outer inner := by
  rintro ⟨m, above, hchain, -, -, sub, hsub, -, hlong⟩
  obtain ⟨i, hi, rfl⟩ := exists_stage_of_chain hchain
  obtain ⟨j, hj, rfl⟩ := List.mem_map.1 (nested_stage i ▸ hsub)
  have hlevel := named_lt hi hj
  have hjoin := Path.utf8ByteSize_join_le (level j) manifestFile
  have hsize := utf8ByteSize_level_le j
  have hname : manifestFile.utf8ByteSize = 13 := by decide
  rw [pathLimit] at hlong
  omega

/-- The chain of all directories down to a level. -/
def descent (k : Nat) : List Manifest := ((List.range k).map stage).reverse

theorem descent_succ (k : Nat) : descent (k + 1) = stage k :: descent k := by
  simp [descent, List.range_succ]

theorem chain_descent (hk : k ≤ 8) : shortcut.Chain (level 0) (stage k :: descent k) := by
  induction k with
  | zero => exact .root (fetch_stage (by decide))
  | succ k ih =>
    rw [descent_succ]
    refine (ih (by omega)).link ((nests_stage_iff (by omega)).2 ⟨k + 1, ?_, rfl⟩)
    unfold named
    split_ifs <;> simp <;> omega

theorem isChain_descent (hk : k ≤ 8) : (stage k :: descent k).IsChain fun inner outer =>
    ¬ shortcut.Exhausted (level 0) outer inner ∧ ¬ shortcut.Overlong (level 0) outer inner := by
  induction k with
  | zero => exact List.IsChain.singleton _
  | succ k ih =>
    rw [descent_succ]
    refine List.IsChain.cons_cons ⟨?_, not_overlong_shortcut _ _⟩ (ih (by omega))
    exact not_exhausted_stage (by omega) _

/-- All directories but the last one are merged. -/
theorem shortcut_merges_once : (shortcut.assemble (level 0)).run.value = .ok {} ∧
    ∃ merged : List Manifest, (shortcut.merge merged).run.value = .ok {} ∧ Simple merged ∧
      ∀ k ≤ 8, ∃ m ∈ merged, m.SamePlace (stage k) := by
  refine ⟨assemble_shortcut, ?_⟩
  obtain ⟨merged, hmerge, hsimple, -, hall⟩ := assemble_merges_once assemble_shortcut
  refine ⟨merged, hmerge, hsimple, fun k hk => ?_⟩
  have hlength : (descent k).length = k := by simp [descent]
  exact hall _ _ (chain_descent hk) (Nat.le_trans (Nat.le_of_eq hlength) hk) (isChain_descent hk)

/-- It does not follow from the length of a chain alone that what it leads to is merged. -/
theorem shortcut_misses_last : (shortcut.assemble (level 0)).run.value = .ok {} ∧
    ¬ ∃ merged : List Manifest, (shortcut.merge merged).run.value = .ok {} ∧ Simple merged ∧
      (∀ m ∈ merged, ∃ above, shortcut.Chain (level 0) (m :: above) ∧
        above.length ≤ assemblyNestingLimit) ∧
      ∀ m above, shortcut.Chain (level 0) (m :: above) → above.length ≤ assemblyNestingLimit →
        ∃ x ∈ merged, x.SamePlace m := by
  refine ⟨assemble_shortcut, ?_⟩
  rintro ⟨merged, hmerge, -, hreached, hall⟩
  have hstages : ∀ m ∈ merged, ∃ k, m = stage k := by
    intro m hm
    obtain ⟨above, hchain, -⟩ := hreached m hm
    obtain ⟨k, -, hk⟩ := exists_stage_of_chain hchain
    exact ⟨k, hk⟩
  obtain ⟨m, hm, hlast⟩ := hall _ _ chain_last (by decide)
  obtain ⟨k, rfl⟩ := hstages m hm
  rw [Manifest.SamePlace, dir_stage, dir_stage, same_level_iff] at hlast
  subst hlast
  exact assets_ne_nil_of_merge hstages hm hmerge rfl

end Shortcut

end LocalCloud.Disk
