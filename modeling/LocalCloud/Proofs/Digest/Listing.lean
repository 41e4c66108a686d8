import LocalCloud.Proofs.Digest.Enumeration
import LocalCloud.Proofs.Text.Bytes
import LocalCloud.Proofs.Text.Joining
import Mathlib.Data.List.Nodup
import Mathlib.Data.Set.Function

/-!
# What the digest of a directory tells

The listing of a directory is read back from its bytes line by line: no path has a zero byte in it,
so that the first zero byte of a line ends its path, and as all hashes are of one length the line
ends where it must, whatever bytes the hash is made of (`Bundle.line_append_inj`).  Unless two of
the hashed inputs collide, the digests of two directories are therefore the same exactly when their
sorted files are (`Disk.digest_unambiguous`).

Links, and directories in which there is no file at any depth, are not among these files; the tree
without them has the same digest (`FileNode.files_prunedEntries`).
-/

namespace LocalCloud

/-! ## Items that are read back from their codes -/

/-- Codes written one after the other tell their items if the first item is always told. -/
theorem eq_of_flatMap_eq {α β : Type} {code : α → List β} {items items' : List α}
    (hne : ∀ item, code item ≠ [])
    (hfirst : ∀ a ∈ items, ∀ b ∈ items', ∀ rest rest', code a ++ rest = code b ++ rest' →
      a = b ∧ rest = rest')
    (h : items.flatMap code = items'.flatMap code) : items = items' := by
  induction items generalizing items' with
  | nil =>
    cases items' with
    | nil => rfl
    | cons b items' => simp [hne] at h
  | cons a items ih =>
    cases items' with
    | nil => simp [hne] at h
    | cons b items' =>
      rw [List.flatMap_cons, List.flatMap_cons] at h
      obtain ⟨rfl, hrest⟩ := hfirst a List.mem_cons_self b List.mem_cons_self _ _ h
      rw [ih (fun a ha b hb => hfirst a (List.mem_cons_of_mem _ ha) b (List.mem_cons_of_mem _ hb))
        hrest]

namespace Bundle

/-! ## Hexadecimal digits -/

theorem toList_loop (bytes : ByteArray) (i : Nat) (before : List UInt8) :
    ByteArray.toList.loop bytes i before = before.reverse ++ bytes.data.toList.drop i := by
  fun_induction ByteArray.toList.loop bytes i before with
  | case1 i before hi ih =>
    have hlength : i < bytes.data.toList.length := by simpa using hi
    have hbyte : bytes.get! i = bytes.data.toList[i] := by
      simp [ByteArray.get!, getElem!_pos bytes.data i hi]
    rw [ih, List.drop_eq_getElem_cons hlength, hbyte, List.reverse_cons, List.append_assoc]
    rfl
  | case2 i before hi =>
    rw [List.drop_eq_nil_of_le (by simpa using hi), List.append_nil]

theorem toList_eq (bytes : ByteArray) : bytes.toList = bytes.data.toList :=
  toList_loop bytes 0 []

theorem hexByte_inj {a b : UInt8} (h : hexByte a = hexByte b) : a = b := by
  have hdigit : ∀ m < 16, ∀ n < 16, Nat.digitChar m = Nat.digitChar n → m = n := by decide
  obtain ⟨hhigh, hlow⟩ : Nat.digitChar (a.toNat / 16) = Nat.digitChar (b.toNat / 16) ∧
      Nat.digitChar (a.toNat % 16) = Nat.digitChar (b.toNat % 16) := by simpa [hexByte] using h
  have ha := a.toNat_lt
  have hb := b.toNat_lt
  have hdiv := hdigit _ (by omega) _ (by omega) hhigh
  have hmod := hdigit _ (by omega) _ (by omega) hlow
  exact UInt8.toNat_inj.1 (by omega)

theorem hex_injective : Function.Injective hex := by
  intro bytes bytes' h
  have hdigits := String.ofList_injective h
  rw [toList_eq, toList_eq] at hdigits
  refine ByteArray.ext (Array.toList_inj.1 (eq_of_flatMap_eq (by simp [hexByte]) ?_ hdigits))
  intro a _ b _ rest rest' hrest
  obtain ⟨hbyte, hrest⟩ := List.append_inj hrest rfl
  exact ⟨hexByte_inj hbyte, hrest⟩

/-! ## Lines -/

section Lines

variable {hash : ByteArray → ByteArray} {size : Nat} {files files' : List (String × ByteArray)}

theorem toList_line (path : String) (content : ByteArray) :
    (line hash path content).data.toList =
      Text.bytes path ++ 0 :: ((hash content).data.toList ++ [10]) := by
  simp [line, ByteArray.data_append, Text.bytes]

theorem toList_listing (files : List (String × ByteArray)) :
    (listing hash files).data.toList =
      files.flatMap fun f => (line hash f.1 f.2).data.toList := by
  have hfold : ∀ before : ByteArray,
      (files.foldl (fun bytes f => bytes ++ line hash f.1 f.2) before).data.toList =
        before.data.toList ++ files.flatMap fun f => (line hash f.1 f.2).data.toList := by
    induction files with
    | nil => simp
    | cons f files ih => simp [ih, ByteArray.data_append]
  exact hfold ByteArray.empty

/-- A line tells its path and the hash of its file, and where the next line begins. -/
theorem line_append_inj (hsize : ∀ input, (hash input).size = size) {f g : String × ByteArray}
    (hf : '\x00' ∉ f.1.toList) (hg : '\x00' ∉ g.1.toList) {rest rest' : List UInt8}
    (h : (line hash f.1 f.2).data.toList ++ rest = (line hash g.1 g.2).data.toList ++ rest') :
    f.1 = g.1 ∧ hash f.2 = hash g.2 ∧ rest = rest' := by
  rw [toList_line, toList_line, List.append_assoc, List.append_assoc, List.cons_append,
    List.cons_append, List.append_assoc, List.append_assoc] at h
  obtain ⟨hpath, htail⟩ :=
    Text.append_mark_inj (Text.zero_notMem_bytes hf) (Text.zero_notMem_bytes hg) h
  have hlength : (hash f.2).data.toList.length = (hash g.2).data.toList.length := by
    simp [hsize]
  obtain ⟨hhash, hrest⟩ := List.append_inj htail hlength
  exact ⟨Text.bytes_injective hpath, ByteArray.ext (Array.toList_inj.1 hhash),
    List.append_cancel_left hrest⟩

/-- A listing tells the files in it, unless two of them have the same hash. -/
theorem listing_inj (hsize : ∀ input, (hash input).size = size)
    (hplain : ∀ f ∈ files, '\x00' ∉ f.1.toList) (hplain' : ∀ f ∈ files', '\x00' ∉ f.1.toList)
    (hinj : Set.InjOn hash {input | input ∈ files.map Prod.snd ++ files'.map Prod.snd})
    (h : listing hash files = listing hash files') : files = files' := by
  have hlines := congrArg (·.data.toList) h
  simp only [toList_listing] at hlines
  refine eq_of_flatMap_eq (by simp [toList_line]) ?_ hlines
  intro f hf g hg rest rest' hrest
  obtain ⟨hpath, hhash, hrest⟩ := line_append_inj hsize (hplain f hf) (hplain' g hg) hrest
  have hcontent := hinj (List.mem_append_left _ (List.mem_map_of_mem hf))
    (List.mem_append_right _ (List.mem_map_of_mem hg)) hhash
  exact ⟨Prod.ext hpath hcontent, hrest⟩

end Lines

end Bundle

/-! ## Links and directories without files -/

namespace FileNode

mutual

/-- A tree without the links in it and without the directories in which no file is left then; it may
be that nothing is left of it. -/
def pruned? : FileNode → Option FileNode
  | .file content => some (.file content)
  | .link _ => none
  | .directory entries =>
    match prunedEntries entries with
    | [] => none
    | kept => some (.directory kept)

/-- The entries of a directory of which something is left. -/
def prunedEntries : Entries → Entries
  | [] => []
  | (name, node) :: rest =>
    match pruned? node with
    | some kept => (name, kept) :: prunedEntries rest
    | none => prunedEntries rest

end

variable {entries entries' : Entries}

theorem ownFiles_prunedEntries (here : String) (entries : Entries) :
    ownFiles here (prunedEntries entries) = ownFiles here entries := by
  induction entries with
  | nil => rw [prunedEntries]
  | cons e rest ih =>
    obtain ⟨name, node⟩ := e
    simp only [ownFiles] at ih
    cases node with
    | file content => simp [prunedEntries, pruned?, ownFiles, ih]
    | link target => simp [prunedEntries, pruned?, ownFiles, ih]
    | directory below =>
      cases hbelow : prunedEntries below <;> simp [prunedEntries, pruned?, hbelow, ownFiles, ih]

mutual

theorem files_pruned? (here : String) :
    ∀ node, ((pruned? node).map (files here)).getD [] = files here node
  | .file content => by simp [pruned?, files]
  | .link target => by simp [pruned?, files]
  | .directory entries => by
    have hown := ownFiles_prunedEntries here entries
    have hbelow := filesBelow_prunedEntries here entries
    cases hkept : prunedEntries entries with
    | nil =>
      rw [hkept] at hown hbelow
      rw [files, ← hown, ← hbelow, pruned?, hkept]
      rfl
    | cons e kept =>
      rw [hkept] at hown hbelow
      simp [pruned?, hkept, files, hown, hbelow]

/-- What is left out holds no file. -/
theorem filesBelow_prunedEntries (here : String) :
    ∀ entries, filesBelow here (prunedEntries entries) = filesBelow here entries
  | [] => by rw [prunedEntries]
  | (name, node) :: rest => by
    have hnode := files_pruned? (here ++ name ++ "/") node
    have hrest := filesBelow_prunedEntries here rest
    cases hkept : pruned? node <;> rw [hkept] at hnode <;>
      simpa [prunedEntries, hkept, filesBelow, hrest] using hnode

end

theorem files_prunedEntries (here : String) (entries : Entries) :
    files here (.directory (prunedEntries entries)) = files here (.directory entries) := by
  rw [files, files, ownFiles_prunedEntries, filesBelow_prunedEntries]

theorem sortedFiles_of_prunedEntries (h : prunedEntries entries = prunedEntries entries') :
    Bundle.sortedFiles (.directory entries) = Bundle.sortedFiles (.directory entries') := by
  rw [Bundle.sortedFiles, Bundle.sortedFiles, ← files_prunedEntries, h, files_prunedEntries]

end FileNode

/-! ## Digests of directories -/

open FileNode LocalCloud.Bundle

/-- No file of the tree has a zero character in its path; file systems allow none. -/
def FileNode.NulFree (tree : FileNode) : Prop := ∀ f ∈ tree.files "", '\x00' ∉ f.1.toList

theorem Blake3.size_hash (input : ByteArray) : (hash input).size = 32 := by
  simp [hash, wordBytes, List.size_toByteArray, List.length_flatMap]

namespace Bundle

variable {hash : ByteArray → ByteArray} {size : Nat} {tree tree' : FileNode}
  {entries entries' : Entries}

/-- All that is hashed for a directory: the listing, and the files in it. -/
def hashed (hash : ByteArray → ByteArray) (tree : FileNode) : List ByteArray :=
  listing hash (sortedFiles tree) :: (sortedFiles tree).map Prod.snd

theorem notMem_sortedFiles (hplain : tree.NulFree) :
    ∀ f ∈ sortedFiles tree, '\x00' ∉ f.1.toList := by
  intro f hf hzero
  obtain ⟨g, hg, rfl⟩ := List.mem_map.1 (List.mem_mergeSort.1 hf)
  dsimp only at hzero
  rw [slashed, String.toList_ofList, List.mem_map] at hzero
  obtain ⟨c, hc, hslash⟩ := hzero
  by_cases hback : c = '\\'
  · simp [hback] at hslash
  · rw [if_neg hback] at hslash
    exact hplain g hg (hslash ▸ hc)

/-- Unless two of the hashed inputs collide, two directories have the same hash exactly when their
sorted files are the same. -/
theorem hashOf_directory_inj (hsize : ∀ input, (hash input).size = size)
    (hplain : (directory entries).NulFree) (hplain' : (directory entries').NulFree)
    (hinj : Set.InjOn hash
      {input | input ∈ hashed hash (.directory entries) ++ hashed hash (.directory entries')}) :
    hashOf hash (.directory entries) = hashOf hash (.directory entries') ↔
      sortedFiles (.directory entries) = sortedFiles (.directory entries') := by
  constructor
  · intro h
    have hlisting := hinj (by simp [hashed]) (by simp [hashed]) h
    refine listing_inj hsize (notMem_sortedFiles hplain) (notMem_sortedFiles hplain') ?_ hlisting
    refine hinj.mono fun input hinput => List.mem_append.2 ?_
    exact (List.mem_append.1 hinput).imp (List.mem_cons_of_mem _) (List.mem_cons_of_mem _)
  · intro h
    exact congrArg (fun files => hash (listing hash files)) h

end Bundle

namespace Disk

variable {entries entries' : Entries}

theorem digest_inj {a b : ByteArray} : "blake3:" ++ hex a = "blake3:" ++ hex b ↔ a = b :=
  ⟨fun h => hex_injective ((String.append_right_inj _).1 h), fun h => h ▸ rfl⟩

/-- Two directories have digests, and these are the same exactly when their sorted files are,
provided that no path has a zero character in it and that the hash function has no collision among
what is hashed for the two.  (It has collisions elsewhere, as its hashes have 32 bytes.)  Links and
directories without files make no difference, without any proviso. -/
theorem digest_unambiguous {d d' : Disk} {path path' : Path}
    (hread : d.node path = .ok (.directory entries))
    (hread' : d'.node path' = .ok (.directory entries')) :
    ∃ digest digest', d.digest path = .ok digest ∧ d'.digest path' = .ok digest' ∧
      ((directory entries).NulFree → (directory entries').NulFree →
        Set.InjOn Blake3.hash {input | input ∈ hashed Blake3.hash (.directory entries) ++
          hashed Blake3.hash (.directory entries')} →
        (digest = digest' ↔
          sortedFiles (.directory entries) = sortedFiles (.directory entries'))) ∧
      (prunedEntries entries = prunedEntries entries' → digest = digest') := by
  have hdigest : d.digest path =
      .ok ("blake3:" ++ hex (hashOf Blake3.hash (.directory entries))) := by rw [digest, hread]
  have hdigest' : d'.digest path' =
      .ok ("blake3:" ++ hex (hashOf Blake3.hash (.directory entries'))) := by rw [digest, hread']
  refine ⟨_, _, hdigest, hdigest', fun hplain hplain' hinj => ?_, fun hpruned => ?_⟩
  · exact digest_inj.trans (hashOf_directory_inj Blake3.size_hash hplain hplain' hinj)
  · have hsorted := sortedFiles_of_prunedEntries hpruned
    exact congrArg (fun files => "blake3:" ++ hex (Blake3.hash (listing Blake3.hash files))) hsorted

/-- The entries of a directory with one file. -/
def plainEntries : Entries := [("a.js", .file "1".toUTF8)]

/-- The same entries with a link, and with a directory in which there is only an empty one. -/
def linkedEntries : Entries :=
  [("latest", .link "a.js"), ("a.js", .file "1".toUTF8),
    ("logs", .directory [("old", .directory [])])]

/-- The file has other content than that of `plainEntries`. -/
def changedEntries : Entries := [("a.js", .file "2".toUTF8), ("latest", .link "a.js")]

/-- The digest tells the content of the file; the link and the empty directories leave no trace. -/
theorem digest_changedEntries :
    (holding plainEntries).digest ⟨"d"⟩ ≠ (holding changedEntries).digest ⟨"d"⟩ ∧
      (holding plainEntries).digest ⟨"d"⟩ = (holding linkedEntries).digest ⟨"d"⟩ := by
  have hplain : (directory plainEntries).files "" = [("a.js", "1".toUTF8)] := by
    simp [plainEntries, files, filesBelow, ownFiles]
  have hchanged : (directory changedEntries).files "" = [("a.js", "2".toUTF8)] := by
    simp [changedEntries, files, filesBelow, ownFiles]
  have hslashed : slashed "a.js" = "a.js" := by decide
  have hsorted : sortedFiles (directory plainEntries) = [("a.js", "1".toUTF8)] :=
    (sortedFiles_of_onePath "a.js" (by simp [hplain, hslashed])).trans (by rw [hplain]; rfl)
  have hsorted' : sortedFiles (directory changedEntries) = [("a.js", "2".toUTF8)] :=
    (sortedFiles_of_onePath "a.js" (by simp [hchanged, hslashed])).trans (by rw [hchanged]; rfl)
  have hinputs : ((hashed Blake3.hash (directory plainEntries) ++
      hashed Blake3.hash (directory changedEntries)).map Blake3.hash).Nodup := by
    rw [hashed, hashed, hsorted, hsorted']
    decide +kernel
  constructor
  · obtain ⟨digest, digest', hdigest, hdigest', hiff, -⟩ :=
      digest_unambiguous (node_holding plainEntries) (node_holding changedEntries)
    have hsame := hiff (by simp [NulFree, hplain]) (by simp [NulFree, hchanged])
      fun a ha b hb h => List.inj_on_of_nodup_map hinputs ha hb h
    rw [hdigest, hdigest', Ne, Except.ok.injEq, hsame, hsorted, hsorted']
    decide +kernel
  · obtain ⟨digest, digest', hdigest, hdigest', -, hpruned⟩ :=
      digest_unambiguous (node_holding plainEntries) (node_holding linkedEntries)
    rw [hdigest, hdigest', hpruned rfl]

end Disk

end LocalCloud
