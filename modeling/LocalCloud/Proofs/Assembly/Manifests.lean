import LocalCloud.Assembly.Documents
import LocalCloud.Proofs.Files.Spelling

/-!
# Manifests and the spellings of their directories

A manifest is its document seen from its directory: all that the spelling of the directory decides
is how the paths in it are spelled.  So two spellings of a directory have the same manifest, as far
as a path is not too long, and its nested assemblies are in the same directories
(`exists_fetchManifest_of_same`).
-/

namespace LocalCloud

open Manifest (readRecords addArtifact)

/-! ## Documents as manifests -/

namespace Manifest

/-- The name of the directory of a nested assembly. -/
def nestedName? (a : ArtifactRecord) : Option String :=
  if a.type = "cdk:cloud-assembly" then a.property? "directoryName" else none

/-- The manifest with the given artifacts in it. -/
def ofRecords (dir : Path) (records : List (String × ArtifactRecord)) : Manifest :=
  (records.foldl (fun m r => (addArtifact m r.1 r.2).value) { dir }).assignOwners

theorem value_ofDocument (raw : Json) (dir source : Path) :
    (ofDocument raw dir source).run.value =
      match readRecords raw with
      | .error defect => .error (.malformed source defect)
      | .ok records => .ok (ofRecords dir records) := by
  unfold ofDocument
  cases readRecords raw with
  | error defect => rfl
  | ok records =>
    have hfold : (records.foldlM (fun m (r : String × ArtifactRecord) => addArtifact m r.1 r.2)
        ({ dir } : Manifest)).value =
        records.foldl (fun m r => (addArtifact m r.1 r.2).value) { dir } :=
      Noted.value_foldlM _ records _
    exact congrArg (fun m : Manifest => Except.ok m.assignOwners) hfold

/-- An artifact adds at most the directory of a nested assembly to those that are known. -/
theorem addArtifact_nested (m : Manifest) (name : String) (a : ArtifactRecord) :
    (addArtifact m name a).value.dir = m.dir ∧
      (addArtifact m name a).value.nested =
        m.nested ++ ((nestedName? a).map m.dir.join).toList := by
  unfold addArtifact nestedName?
  split
  · next htype => split <;> simp [htype]
  · next htype => split <;> simp [htype]
  · next htype => split <;> simp [htype]
  · next htype =>
    simp only [htype, if_true]
    split
    · next sub hsub => simp [hsub]
    · next hnone => simp [hnone]
  · next hother =>
    have hne : a.type ≠ "cdk:cloud-assembly" := hother
    simp [hne]

theorem foldl_addArtifact (records : List (String × ArtifactRecord)) (m : Manifest) :
    (records.foldl (fun m r => (addArtifact m r.1 r.2).value) m).dir = m.dir ∧
      (records.foldl (fun m r => (addArtifact m r.1 r.2).value) m).nested =
        m.nested ++ (records.filterMap fun r => nestedName? r.2).map m.dir.join := by
  induction records generalizing m with
  | nil => simp
  | cons r rest ih =>
    obtain ⟨hdir, hnested⟩ := addArtifact_nested m r.1 r.2
    obtain ⟨ihdir, ihnested⟩ := ih (addArtifact m r.1 r.2).value
    rw [List.foldl_cons, ihdir, ihnested, hdir, hnested]
    refine ⟨rfl, ?_⟩
    cases hname : nestedName? r.2 <;> simp [hname]

theorem dir_ofRecords (dir : Path) (records : List (String × ArtifactRecord)) :
    (ofRecords dir records).dir = dir := (foldl_addArtifact records { dir }).1

/-- The directories of the nested assemblies are named in the document and seen from that of the
manifest. -/
theorem nested_ofRecords (dir : Path) (records : List (String × ArtifactRecord)) :
    (ofRecords dir records).nested =
      (records.filterMap fun r => nestedName? r.2).map dir.join :=
  (foldl_addArtifact records { dir }).2

end Manifest

/-! ## Manifests on a disk -/

namespace Disk

variable {d : Disk} {dir dir' : Path} {m : Manifest}

theorem readJson_of_node_eq {p q : Path} {raw : Json} (h : d.node p = d.node q)
    (hraw : d.readJson p = .ok raw) : d.readJson q = .ok raw := by
  have htext : d.readText p = d.readText q := by rw [readText, readText, readBytes, readBytes, h]
  rw [readJson, htext] at hraw
  rw [readJson]
  cases hq : d.readText q with
  | error fault =>
    rw [hq] at hraw
    contradiction
  | ok text =>
    rw [hq] at hraw
    cases hread : Json.read? text with
    | none => simp [hread] at hraw
    | some value => simpa [hread] using hraw

theorem value_fetchManifest (d : Disk) (dir : Path) : (d.fetchManifest dir).run.value =
    if d.holds (dir.join manifestFile) then
      match d.readJson (dir.join manifestFile) with
      | .error failure => .error failure
      | .ok raw => (Manifest.ofDocument raw dir (dir.join manifestFile)).run.value.map some
    else .ok none := by
  unfold fetchManifest
  dsimp only
  split
  · have hfetch : (d.fetchJson (dir.join manifestFile)).run.value =
        d.readJson (dir.join manifestFile) := rfl
    rw [Attempt.value_bind, hfetch]
    cases d.readJson (dir.join manifestFile) with
    | error failure => rfl
    | ok raw => exact Attempt.value_map some _
  · rfl

theorem readJson_of_node {path : Path} {text : String} {raw : Json}
    (h : d.node path = .ok (.file text.toUTF8)) (hread : Json.read? text = some raw) :
    d.readJson path = .ok raw := by
  have hbytes : d.readBytes path = .ok text.toUTF8 := by rw [readBytes, h]
  have htext : d.readText path = .ok text := by
    have hvalid : String.fromUTF8? text.toUTF8 = some text := by
      simp only [String.fromUTF8?, String.toUTF8_eq_toByteArray, dif_pos text.isValidUTF8]
      rfl
    simp only [readText, hbytes, bind, Except.bind, hvalid]
  rw [readJson, htext]
  simp only [hread]

theorem value_fetchOptional_of_node {path : Path} {text : String} {raw : Json}
    (file : OptionalFile) (h : d.node path = .ok (.file text.toUTF8))
    (hread : Json.read? text = some raw) :
    (d.fetchOptional file path).run.value = .ok (some raw) := by
  have hholds : d.holds path = true := by rw [holds, h]
  have hfetch : (d.fetchJson path).run.value = d.readJson path := rfl
  rw [fetchOptional, if_pos hholds, Attempt.value_map, hfetch, readJson_of_node h hread]
  rfl

/-- What it is for a directory to have a manifest. -/
theorem fetchManifest_eq_some_iff : (d.fetchManifest dir).run.value = .ok (some m) ↔
    d.holds (dir.join manifestFile) = true ∧
      ∃ raw records, d.readJson (dir.join manifestFile) = .ok raw ∧
        readRecords raw = .ok records ∧ m = .ofRecords dir records := by
  rw [value_fetchManifest]
  by_cases hholds : d.holds (dir.join manifestFile) = true
  · simp only [hholds, if_true, true_and]
    cases hraw : d.readJson (dir.join manifestFile) with
    | error failure => simp
    | ok raw =>
      simp only [Manifest.value_ofDocument]
      cases hrecords : readRecords raw with
      | error defect => simp [Except.map, hrecords]
      | ok records => simp [Except.map, hrecords, eq_comm]
  · simp [hholds]

/-- A manifest knows its directory. -/
theorem dir_of_fetchManifest (h : (d.fetchManifest dir).run.value = .ok (some m)) :
    m.dir = dir := by
  obtain ⟨-, raw, records, -, -, rfl⟩ := fetchManifest_eq_some_iff.1 h
  exact Manifest.dir_ofRecords dir records

theorem fits_of_fetchManifest (h : (d.fetchManifest dir).run.value = .ok (some m)) :
    (dir.join manifestFile).text.utf8ByteSize ≤ pathLimit := by
  obtain ⟨hholds, -⟩ := fetchManifest_eq_some_iff.1 h
  unfold holds at hholds
  split at hholds
  · next node hnode => exact fits_of_node hnode
  · contradiction

/-- Under another spelling of its directory a manifest is the same one, with its paths spelled
otherwise, unless the path to it is too long then. -/
theorem exists_fetchManifest_of_same (hsame : dir.same dir' = true)
    (h : (d.fetchManifest dir).run.value = .ok (some m))
    (hfits : (dir'.join manifestFile).text.utf8ByteSize ≤ pathLimit) :
    ∃ m', (d.fetchManifest dir').run.value = .ok (some m') ∧
      ∃ names : List String, m.nested = names.map dir.join ∧ m'.nested = names.map dir'.join := by
  obtain ⟨hholds, raw, records, hraw, hrecords, rfl⟩ := fetchManifest_eq_some_iff.1 h
  have hslash : '/' ∉ manifestFile.toList := by decide
  have hnode : d.node (dir.join manifestFile) = d.node (dir'.join manifestFile) :=
    node_join_congr hsame hslash (fits_of_fetchManifest h) hfits
  have hholds' : d.holds (dir'.join manifestFile) = true := by rwa [holds, ← hnode]
  refine ⟨.ofRecords dir' records, ?_, _, Manifest.nested_ofRecords dir records,
    Manifest.nested_ofRecords dir' records⟩
  exact fetchManifest_eq_some_iff.2
    ⟨hholds', raw, records, readJson_of_node_eq hnode hraw, hrecords, rfl⟩

/-! ## Directories in directories -/

/-- A directory with a manifest of the first text and, under the name `n`, one with the others. -/
def tower : List String → FileNode
  | [] => .directory []
  | text :: below => .directory [(manifestFile, .file text.toUTF8), ("n", tower below)]

theorem exists_tower_eq (texts : List String) : ∃ entries, tower texts = .directory entries := by
  cases texts <;> exact ⟨_, rfl⟩

/-- The disk with directories in each other, each with a manifest of the given text. -/
def ofTower (texts : List String) : Disk := { root := tower texts }

/-- The directories that are in each other, from the root on. -/
def level : Nat → Path
  | 0 => ⟨"/"⟩
  | k + 1 => (level k).join "n"

theorem components_level (k : Nat) : (level k).components = "/" :: List.replicate k "n" := by
  induction k with
  | zero => decide +kernel
  | succ k ih =>
    have hne : (level k).text ≠ "" := Path.ne_empty_of_components_eq_cons ih
    have hname : (Path.mk "n").pieces.filter Path.isProper = ["n"] := by decide +kernel
    rw [level, Path.components_join hne (by decide), ih, hname, List.replicate_succ']
    rfl

theorem same_level_iff {i k : Nat} : (level i).same (level k) = true ↔ i = k := by
  rw [Path.same_iff, components_level, components_level, List.cons.injEq]
  constructor
  · rintro ⟨-, h⟩
    simpa using congrArg List.length h
  · rintro rfl
    exact ⟨rfl, rfl⟩

theorem utf8ByteSize_level_le (k : Nat) : (level k).text.utf8ByteSize ≤ 2 * k + 1 := by
  induction k with
  | zero => decide
  | succ k ih =>
    have hjoin := Path.utf8ByteSize_join_le (level k) "n"
    have hname : "n".utf8ByteSize = 1 := rfl
    rw [level]
    omega

theorem at?_tower {texts : List String} {k : Nat} (h : k ≤ texts.length) :
    (tower texts).at? (List.replicate k "n") = some (tower (texts.drop k)) := by
  induction texts generalizing k with
  | nil =>
    obtain rfl := Nat.le_zero.1 h
    rfl
  | cons text below ih =>
    cases k with
    | zero => rfl
    | succ k => exact ih (Nat.le_of_succ_le_succ h)

theorem at?_tower_of_getElem? {texts : List String} {i : Nat} {text : String}
    (h : texts[i]? = some text) :
    (tower texts).at? (List.replicate i "n") =
      some (.directory [(manifestFile, .file text.toUTF8), ("n", tower (texts.drop (i + 1)))]) := by
  obtain ⟨hi, rfl⟩ := List.getElem?_eq_some_iff.1 h
  rw [at?_tower (Nat.le_of_lt hi), List.drop_eq_getElem_cons hi]
  rfl

/-- A walk goes down through the directories to a manifest. -/
theorem walk_tower {texts : List String} {links i k : Nat} {text : String}
    (h : texts[i + k]? = some text) :
    walk (tower texts) true links (List.replicate i "n") (List.replicate k "n" ++ [manifestFile]) =
      .ok (.taken (List.replicate (i + k) "n" ++ [manifestFile]) (.file text.toUTF8)) := by
  induction k generalizing i with
  | zero =>
    rw [Nat.add_zero] at h ⊢
    have hhere := at?_tower_of_getElem? h
    have hfound : (tower texts).at? (List.replicate i "n" ++ [manifestFile]) =
        some (.file text.toUTF8) := by
      rw [FileNode.at?, List.foldlM_append, ← FileNode.at?, hhere]
      rfl
    rw [List.replicate_zero, List.nil_append, walk_cons_of_directory hhere]
    have hname : ¬ (manifestFile = "" ∨ manifestFile = ".") := by decide
    have hup : manifestFile ≠ ".." := by decide
    have hshort : ¬ nameLimit < manifestFile.utf8ByteSize := by decide
    rw [if_neg hname, if_neg hup, if_neg hshort]
    simp only [List.lookup_cons, beq_self_eq_true]
    rw [walk, hfound]
  | succ k ih =>
    have hi : i < texts.length := by
      have hlt := (List.getElem?_eq_some_iff.1 h).1
      omega
    have hhere := at?_tower_of_getElem? (List.getElem?_eq_getElem hi)
    have hname : ¬ ("n" = "" ∨ "n" = ".") := by decide
    have hup : "n" ≠ ".." := by decide
    have hshort : ¬ nameLimit < "n".utf8ByteSize := by decide
    have hother : ("n" == manifestFile) = false := by decide
    have hnext := ih (i := i + 1) (by rwa [Nat.add_right_comm])
    rw [List.replicate_succ, List.cons_append, walk_cons_of_directory hhere, if_neg hname,
      if_neg hup, if_neg hshort]
    rw [Nat.add_right_comm, List.replicate_succ'] at hnext
    simp only [List.lookup_cons, hother, beq_self_eq_true]
    obtain ⟨entries, htower⟩ := exists_tower_eq (texts.drop (i + 1))
    rw [htower]
    exact hnext

/-- What stands in a directory that is not too deep. -/
theorem node_ofTower {texts : List String} {k : Nat} {text : String} (h : texts[k]? = some text)
    (hk : k ≤ 2000) :
    (ofTower texts).node ((level k).join manifestFile) = .ok (.file text.toUTF8) := by
  have hway : way (level k) = List.replicate k "n" := by
    rw [way, components_level]
    simp
  have hroot : (level k).isAbsolute = true := by
    rw [Path.isAbsolute_iff, components_level]
    rfl
  have hnul : '\x00' ∉ ((level k).join manifestFile).text.toList := by
    have hne : (level k).text ≠ "" := Path.ne_empty_of_components_eq_cons (components_level k)
    have hnames : (Path.mk manifestFile).pieces.filter Path.isProper = [manifestFile] := by
      decide +kernel
    rw [← Path.mem_components_iff (by decide) (by decide), Path.components_join hne (by decide),
      components_level, hnames]
    rintro ⟨name, hname, hnul⟩
    simp only [List.cons_append, List.mem_cons, List.mem_append, List.mem_replicate,
      List.not_mem_nil, or_false] at hname
    rcases hname with rfl | ⟨-, rfl⟩ | rfl <;> revert hnul <;> decide
  have hjoin := Path.utf8ByteSize_join_le (level k) manifestFile
  have hlevel := utf8ByteSize_level_le k
  have hname : manifestFile.utf8ByteSize = 13 := by decide
  have hfits : ((level k).join manifestFile).text.utf8ByteSize ≤ pathLimit := by
    rw [pathLimit]
    omega
  exact node_join_of_walk hroot hnul (by decide) hfits
    (hway ▸ walk_tower (i := 0) (by simpa using h))

/-- The manifest of a directory on such a disk is that in its text. -/
theorem fetchManifest_ofTower {texts : List String} {k : Nat} {text : String} {raw : Json}
    {records : List (String × ArtifactRecord)} (h : texts[k]? = some text) (hk : k ≤ 2000)
    (hread : Json.read? text = some raw) (hrecords : readRecords raw = .ok records) :
    ((ofTower texts).fetchManifest (level k)).run.value =
      .ok (some (.ofRecords (level k) records)) := by
  have hnode := node_ofTower h hk
  exact fetchManifest_eq_some_iff.2
    ⟨by rw [holds, hnode], raw, records, readJson_of_node hnode hread, hrecords, rfl⟩

end Disk

end LocalCloud
