import LocalCloud.Assembly.Basic
import LocalCloud.Proofs.Assembly.Manifests
import LocalCloud.Proofs.Warnings

/-!
# Which nested assemblies are collected

Collecting goes from an assembly to those that are nested in it, and never to a directory twice.
What it adds to the manifests that have been merged before is kept as an invariant (`Merges`): no
directory comes twice, a chain of links leads to each, and what is nested in them is there unless
the links were used up.  Both the steps to one more assembly and the loops over the assemblies that
are nested in one keep it (`exists_merges_addAssembly`, `exists_merges_foldlM`).
-/

namespace LocalCloud

namespace Collected

variable {disk : Disk} {c c' : Collected} {m : Manifest}

/-- A collection with other directories as those that have been collected. -/
def withVisited (visited : List Path) (c : Collected) : Collected := { c with visited }

theorem addStack_withVisited (visited : List Path) (dir : Path) (tree? : Option Construct)
    (c : Collected) (stack : StackArtifact) :
    (addStack disk dir tree? (c.withVisited visited) stack).run.value =
      (addStack disk dir tree? c stack).run.value.map (withVisited visited) := by
  simp only [addStack, Attempt.value_bind]
  cases (disk.fetchJson stack.templatePath).run.value with
  | error failure => rfl
  | ok raw =>
    dsimp only
    generalize (ExceptT.run _ : Noted (Except AssemblyFailure Template)).value = template?
    cases template? with
    | error failure => rfl
    | ok template => rfl

theorem addAssets_withVisited (visited : List Path) (dir : Path) (c : Collected)
    (a : AssetManifestArtifact) :
    (addAssets disk dir (c.withVisited visited) a).run.value =
      (addAssets disk dir c a).run.value.map (withVisited visited) := by
  simp only [addAssets, Attempt.value_bind]
  cases (disk.fetchOptional .assetManifest a.path).run.value with
  | error failure => rfl
  | ok raw? =>
    cases raw? with
    | none => rfl
    | some raw =>
      simp only [Attempt.value_bind]
      cases (Assets.ofDocument raw dir a.path).run.value <;> rfl

/-- What a manifest names itself is collected whatever has been collected before. -/
theorem addManifest_withVisited (visited : List Path) (c : Collected) (m : Manifest) :
    (addManifest disk (c.withVisited visited) m).run.value =
      (addManifest disk c m).run.value.map (withVisited visited) := by
  simp only [addManifest, Attempt.value_bind]
  cases (fetchTree disk m).run.value with
  | error failure => rfl
  | ok tree? =>
    simp only [Attempt.value_foldlM_map (addStack_withVisited visited m.dir tree?)]
    cases (m.stackArtifacts.foldlM (addStack disk m.dir tree?) c).run.value with
    | error failure => rfl
    | ok c =>
      exact Attempt.value_foldlM_map (addAssets_withVisited visited m.dir) m.assetManifests c

theorem visited_addManifest (h : (addManifest disk c m).run.value = .ok c') :
    c'.visited = c.visited := by
  have hsame : (addManifest disk c m).run.value =
      (addManifest disk c m).run.value.map (withVisited c.visited) :=
    addManifest_withVisited c.visited c m
  rw [h] at hsame
  have heq : c' = c'.withVisited c.visited := Except.ok.inj hsame
  rw [heq]
  rfl

end Collected

/-! ## Chains of nested assemblies -/

/-- Two manifests are of one directory, under whatever spelling. -/
def Manifest.SamePlace (m m' : Manifest) : Prop := m.dir.same m'.dir = true

theorem Manifest.SamePlace.symm {m m' : Manifest} (h : m.SamePlace m') : m'.SamePlace m :=
  Path.same_symm h

theorem Manifest.SamePlace.trans {m₁ m₂ m₃ : Manifest} (h : m₁.SamePlace m₂)
    (h' : m₂.SamePlace m₃) : m₁.SamePlace m₃ := Path.same_trans h h'

/-- No directory comes twice. -/
def Simple (manifests : List Manifest) : Prop := manifests.Pairwise fun m m' => ¬ m.SamePlace m'

namespace Disk

/-- An assembly is nested in another one. -/
def Nests (disk : Disk) (outer inner : Manifest) : Prop :=
  ∃ sub ∈ outer.nested, (disk.fetchManifest sub).run.value = .ok (some inner)

/-- A chain of assemblies from that in a directory on, each nested in the one behind it: the last
one comes first. -/
inductive Chain (disk : Disk) (dir : Path) : List Manifest → Prop
  | root {m : Manifest} (hroot : (disk.fetchManifest dir).run.value = .ok (some m)) :
    Chain disk dir [m]
  | link {inner outer : Manifest} {above : List Manifest}
    (houter : Chain disk dir (outer :: above)) (hnests : disk.Nests outer inner) :
    Chain disk dir (inner :: outer :: above)

/-- As many links as are followed can lead to an assembly, to no directory twice and not to one that
is nested in it. -/
def Exhausted (disk : Disk) (dir : Path) (outer inner : Manifest) : Prop :=
  ∃ m above, disk.Chain dir (m :: above) ∧ m.SamePlace outer ∧
    above.length = assemblyNestingLimit ∧ Simple (m :: above) ∧
    ∀ x ∈ m :: above, ¬ x.SamePlace inner

/-- The way to an assembly can have a spelling with which the path to one that is nested in it is
too long. -/
def Overlong (disk : Disk) (dir : Path) (outer inner : Manifest) : Prop :=
  ∃ m above, disk.Chain dir (m :: above) ∧ m.SamePlace outer ∧
    above.length ≤ assemblyNestingLimit ∧
    ∃ sub ∈ m.nested, sub.same inner.dir = true ∧
      pathLimit < (sub.join manifestFile).text.utf8ByteSize

variable {disk : Disk} {dir : Path} {m inner outer : Manifest} {above : List Manifest}

theorem Chain.fetch (h : disk.Chain dir (m :: above)) :
    (disk.fetchManifest m.dir).run.value = .ok (some m) := by
  cases h with
  | root hroot => rwa [dir_of_fetchManifest hroot]
  | link _ hnests =>
    obtain ⟨sub, -, hsub⟩ := hnests
    rwa [dir_of_fetchManifest hsub]

theorem Exhausted.congr {outer' inner' : Manifest} (h : disk.Exhausted dir outer inner)
    (houter : outer.SamePlace outer') (hinner : inner'.SamePlace inner) :
    disk.Exhausted dir outer' inner' := by
  obtain ⟨m, above, hchain, hm, hlength, hsimple, hnot⟩ := h
  exact ⟨m, above, hchain, hm.trans houter, hlength, hsimple,
    fun x hx hsame => hnot x hx (hsame.trans hinner)⟩

/-- From any spelling of its directory an assembly leads to the ones that are nested in it. -/
theorem Nests.of_samePlace {outer' : Manifest} (hnests : disk.Nests outer inner)
    (houter : (disk.fetchManifest outer.dir).run.value = .ok (some outer))
    (hchain : disk.Chain dir (outer' :: above)) (hlength : above.length ≤ assemblyNestingLimit)
    (hsame : outer.SamePlace outer') (hshort : ¬ disk.Overlong dir outer inner) :
    ∃ inner', disk.Nests outer' inner' ∧ inner.SamePlace inner' := by
  obtain ⟨sub, hsub, hinner⟩ := hnests
  obtain ⟨m, hm, names, hnested, hnested'⟩ :=
    exists_fetchManifest_of_same hsame houter (fits_of_fetchManifest hchain.fetch)
  obtain rfl : outer' = m := Option.some.inj (Except.ok.inj (hchain.fetch.symm.trans hm))
  obtain ⟨name, hname, rfl⟩ := List.mem_map.1 (hnested ▸ hsub)
  have hsub' : outer'.dir.join name ∈ outer'.nested := hnested' ▸ List.mem_map_of_mem hname
  have hplace : (outer.dir.join name).same (outer'.dir.join name) = true :=
    Path.same_join hsame name
  have hfits : ((outer'.dir.join name).join manifestFile).text.utf8ByteSize ≤ pathLimit := by
    by_contra hlong
    refine hshort ⟨outer', above, hchain, hsame.symm, hlength, _, hsub', ?_, Nat.not_le.1 hlong⟩
    rw [dir_of_fetchManifest hinner]
    exact Path.same_symm hplace
  obtain ⟨inner', hinner', -⟩ := exists_fetchManifest_of_same hplace hinner hfits
  refine ⟨inner', ⟨_, hsub', hinner'⟩, ?_⟩
  rw [Manifest.SamePlace, dir_of_fetchManifest hinner, dir_of_fetchManifest hinner']
  exact hplace

/-! ## Collections and their manifests -/

/-- What has been collected is what some manifests name themselves, one after another. -/
structure Gathered (disk : Disk) (c : Collected) (merged : List Manifest) : Prop where
  value : (merged.foldlM (Collected.addManifest disk) {}).run.value = .ok (c.withVisited [])
  visited : c.visited = (merged.map (·.dir)).reverse

theorem gathered_nil (disk : Disk) : disk.Gathered {} [] := ⟨rfl, rfl⟩

section Gathered

variable {c c' : Collected} {merged : List Manifest}

theorem Gathered.visited_iff (h : disk.Gathered c merged) :
    c.visited.any (·.same m.dir) = true ↔ ∃ x ∈ merged, x.SamePlace m := by
  simp [h.visited, Manifest.SamePlace]

theorem Gathered.not_samePlace (h : disk.Gathered c merged)
    (hnew : c.visited.any (·.same m.dir) = false) : ∀ x ∈ merged, ¬ x.SamePlace m := by
  intro x hx hsame
  rw [h.visited_iff.2 ⟨x, hx, hsame⟩] at hnew
  contradiction

theorem Gathered.snoc (h : disk.Gathered c merged)
    (hadd : (Collected.addManifest disk { c with visited := m.dir :: c.visited } m).run.value =
      .ok c') : disk.Gathered c' (merged ++ [m]) where
  value := by
    have hsame : (Collected.addManifest disk (c.withVisited []) m).run.value =
        (Collected.addManifest disk { c with visited := m.dir :: c.visited } m).run.value.map
          (Collected.withVisited []) :=
      Collected.addManifest_withVisited [] { c with visited := m.dir :: c.visited } m
    rw [hadd] at hsame
    rw [List.foldlM_append, Attempt.bind_eq_ok]
    exact ⟨_, h.value, Attempt.bind_eq_ok.2 ⟨_, hsame, rfl⟩⟩
  visited := by
    rw [Collected.visited_addManifest hadd, h.visited]
    simp

end Gathered

/-- What collecting one or more assemblies has added to the manifests that were merged before. -/
structure Merges (disk : Disk) (dir : Path) (merged more : List Manifest) (c : Collected) :
    Prop where
  gathered : disk.Gathered c (merged ++ more)
  simple : Simple (merged ++ more)
  /-- A chain of links that are followed leads to each. -/
  reached : ∀ m ∈ more, ∃ above, disk.Chain dir (m :: above) ∧ above.length ≤ assemblyNestingLimit
  /-- What is nested in them is there, unless the links were used up. -/
  closed : ∀ outer ∈ more, ∀ inner, disk.Nests outer inner → ¬ disk.Exhausted dir outer inner →
    ∃ m ∈ merged ++ more, m.SamePlace inner

section Merges

open Collected (addAssembly addManifest fetchNested)

variable {c c' : Collected} {merged first rest : List Manifest} {links : Nat}

theorem merges_nil (h : disk.Gathered c merged) (hsimple : Simple merged) :
    disk.Merges dir merged [] c where
  gathered := by simpa using h
  simple := by simpa using hsimple
  reached := by simp
  closed := by simp

theorem Merges.trans (h : disk.Merges dir merged first c)
    (h' : disk.Merges dir (merged ++ first) rest c') :
    disk.Merges dir merged (first ++ rest) c' where
  gathered := by simpa using h'.gathered
  simple := by simpa using h'.simple
  reached := by
    intro m hm
    rcases List.mem_append.1 hm with hm | hm
    · exact h.reached m hm
    · exact h'.reached m hm
  closed := by
    intro outer houter inner hnests hexhausted
    rw [← List.append_assoc]
    rcases List.mem_append.1 houter with houter | houter
    · obtain ⟨m, hm, hsame⟩ := h.closed outer houter inner hnests hexhausted
      exact ⟨m, List.mem_append_left _ hm, hsame⟩
    · exact h'.closed outer houter inner hnests hexhausted

/-- An assembly is collected with what is nested in it, if that is collected next. -/
theorem Merges.cons (h : disk.Merges dir (merged ++ [m]) rest c)
    (hchain : disk.Chain dir (m :: above)) (hlength : above.length ≤ assemblyNestingLimit)
    (hclosed : ∀ inner, disk.Nests m inner → ¬ disk.Exhausted dir m inner →
      ∃ x ∈ merged ++ [m] ++ rest, x.SamePlace inner) : disk.Merges dir merged (m :: rest) c where
  gathered := by simpa using h.gathered
  simple := by simpa using h.simple
  reached := by
    intro x hx
    rcases List.mem_cons.1 hx with rfl | hx
    · exact ⟨above, hchain, hlength⟩
    · exact h.reached x hx
  closed := by
    intro outer houter inner hnests hexhausted
    have happend : merged ++ m :: rest = merged ++ [m] ++ rest := by simp
    rw [happend]
    rcases List.mem_cons.1 houter with rfl | houter
    · exact hclosed inner hnests hexhausted
    · exact h.closed outer houter inner hnests hexhausted

theorem fetchNested_eq_some_iff {sub : Path} :
    (fetchNested disk sub).run.value = .ok (some m) ↔
      (disk.fetchManifest sub).run.value = .ok (some m) := by
  rw [fetchNested, Attempt.value_bind]
  cases (disk.fetchManifest sub).run.value with
  | error failure => simp
  | ok m? =>
    cases m? with
    | none =>
      dsimp only
      rw [Attempt.value_bind, Attempt.value_warn]
      simp
    | some m' => rfl

theorem value_addAssembly_of_visited (h : c.visited.any (·.same m.dir) = true) :
    (addAssembly disk links c m).run.value = .ok c := by
  cases links <;> rw [addAssembly, if_pos h] <;> rfl

theorem addManifest_of_addAssembly (h : c.visited.any (·.same m.dir) = false)
    (hadd : (addAssembly disk 0 c m).run.value = .ok c') :
    (addManifest disk { c with visited := m.dir :: c.visited } m).run.value = .ok c' := by
  rw [addAssembly, h] at hadd
  obtain ⟨_, -, hown⟩ := Attempt.bind_eq_ok.1 hadd
  exact hown

theorem exists_nested_of_addAssembly (h : c.visited.any (·.same m.dir) = false)
    (hadd : (addAssembly disk (links + 1) c m).run.value = .ok c') :
    ∃ (nested : List Manifest) (own : Collected), (∀ inner, inner ∈ nested ↔ disk.Nests m inner) ∧
      (addManifest disk { c with visited := m.dir :: c.visited } m).run.value = .ok own ∧
      (nested.reverse.foldlM (addAssembly disk links) own).run.value = .ok c' := by
  rw [addAssembly, h] at hadd
  obtain ⟨nested, hnested, hadd⟩ := Attempt.bind_eq_ok.1 hadd
  obtain ⟨own, hown, hrest⟩ := Attempt.bind_eq_ok.1 hadd
  refine ⟨nested, own, fun inner => ?_, hown, hrest⟩
  simp only [Attempt.mem_of_filterMapM hnested, fetchNested_eq_some_iff, Nests]

/-- Collecting the assemblies that are nested in one, one after another, adds to what is merged
until they are all there. -/
theorem exists_merges_foldlM {nested : List Manifest}
    (hstep : ∀ {c c' merged m}, m ∈ nested → disk.Gathered c merged → Simple merged →
      above ⊆ merged → (addAssembly disk links c m).run.value = .ok c' →
      ∃ more, disk.Merges dir merged more c' ∧ ∃ x ∈ merged ++ more, x.SamePlace m)
    (hgathered : disk.Gathered c merged) (hsimple : Simple merged) (habove : above ⊆ merged)
    (h : (nested.foldlM (addAssembly disk links) c).run.value = .ok c') :
    ∃ more, disk.Merges dir merged more c' ∧
      ∀ m ∈ nested, ∃ x ∈ merged ++ more, x.SamePlace m := by
  induction nested generalizing c merged with
  | nil =>
    obtain rfl : c = c' := Except.ok.inj h
    exact ⟨[], merges_nil hgathered hsimple, by simp⟩
  | cons m rest ih =>
    obtain ⟨next, hfirst, hrest⟩ := Attempt.bind_eq_ok.1 h
    obtain ⟨first, hmerges, x, hx, hsame⟩ :=
      hstep List.mem_cons_self hgathered hsimple habove hfirst
    obtain ⟨more, hmore, hall⟩ := ih (fun hm => hstep (List.mem_cons_of_mem m hm))
      hmerges.gathered hmerges.simple (List.subset_append_of_subset_left first habove) hrest
    refine ⟨first ++ more, hmerges.trans hmore, ?_⟩
    rw [← List.append_assoc]
    rintro inner hinner
    rcases List.mem_cons.1 hinner with rfl | hinner
    · exact ⟨x, List.mem_append_left more hx, hsame⟩
    · exact hall inner hinner

theorem simple_snoc (hsimple : Simple merged) (hnew : ∀ x ∈ merged, ¬ x.SamePlace m) :
    Simple (merged ++ [m]) := by
  refine List.pairwise_append.2 ⟨hsimple, List.pairwise_singleton _ _, fun x hx y hy => ?_⟩
  rw [List.mem_singleton.1 hy]
  exact hnew x hx

theorem simple_cons (hpath : Simple above) (habove : above ⊆ merged)
    (hnew : ∀ x ∈ merged, ¬ x.SamePlace m) : Simple (m :: above) :=
  List.pairwise_cons.2 ⟨fun x hx hsame => hnew x (habove hx) hsame.symm, hpath⟩

theorem exists_merges_of_visited (hgathered : disk.Gathered c merged) (hsimple : Simple merged)
    (hvisited : c.visited.any (·.same m.dir) = true)
    (h : (addAssembly disk links c m).run.value = .ok c') :
    ∃ more, disk.Merges dir merged more c' ∧ ∃ x ∈ merged ++ more, x.SamePlace m := by
  rw [value_addAssembly_of_visited hvisited] at h
  obtain rfl := Except.ok.inj h
  exact ⟨[], merges_nil hgathered hsimple, by simpa using hgathered.visited_iff.1 hvisited⟩

/-- Collecting an assembly at the end of a chain adds to what is merged until it is there.  The
induction is on the links that may still be followed; all assemblies of the chain have been merged
already, so that a chain from the root down to any other one meets no directory twice. -/
theorem exists_merges_addAssembly (hgathered : disk.Gathered c merged) (hsimple : Simple merged)
    (hpath : Simple above) (habove : above ⊆ merged) (hchain : disk.Chain dir (m :: above))
    (hlinks : above.length + links = assemblyNestingLimit)
    (h : (addAssembly disk links c m).run.value = .ok c') :
    ∃ more, disk.Merges dir merged more c' ∧ ∃ x ∈ merged ++ more, x.SamePlace m := by
  induction links generalizing c c' merged m above with
  | zero =>
    by_cases hvisited : c.visited.any (·.same m.dir) = true
    · exact exists_merges_of_visited hgathered hsimple hvisited h
    rw [Bool.not_eq_true] at hvisited
    have hnew := hgathered.not_samePlace hvisited
    have hown := hgathered.snoc (addManifest_of_addAssembly hvisited h)
    refine ⟨[m], (merges_nil hown (simple_snoc hsimple hnew)).cons hchain (by omega) ?_,
      m, by simp, Path.same_refl _⟩
    -- the links are used up: what is nested here has been merged, or it could be left out
    intro inner _ hexhausted
    by_contra hnone
    push Not at hnone
    refine hexhausted ⟨m, above, hchain, Path.same_refl _, by omega, simple_cons hpath habove hnew,
      fun x hx => hnone x ?_⟩
    rcases List.mem_cons.1 hx with rfl | hx
    · simp
    · simp [habove hx]
  | succ links ih =>
    by_cases hvisited : c.visited.any (·.same m.dir) = true
    · exact exists_merges_of_visited hgathered hsimple hvisited h
    rw [Bool.not_eq_true] at hvisited
    have hnew := hgathered.not_samePlace hvisited
    obtain ⟨nested, own, hnested, hadd, hrest⟩ := exists_nested_of_addAssembly hvisited h
    have hown := hgathered.snoc hadd
    have habove' : m :: above ⊆ merged ++ [m] := by
      refine List.cons_subset.2 ⟨by simp, fun x hx => ?_⟩
      exact List.mem_append_left _ (habove hx)
    obtain ⟨rest, hmerges, hall⟩ := exists_merges_foldlM
      (fun hm hg hs ha => ih hg hs (simple_cons hpath habove hnew) ha
        (hchain.link ((hnested _).1 (List.mem_reverse.1 hm))) (by simp; omega))
      hown (simple_snoc hsimple hnew) habove' hrest
    refine ⟨m :: rest, hmerges.cons hchain (by omega) ?_, m, by simp, Path.same_refl _⟩
    intro inner hinner _
    exact hall inner (List.mem_reverse.2 ((hnested inner).2 hinner))

end Merges

end Disk

end LocalCloud
