import LocalCloud.Digest.Bundle
import LocalCloud.Proofs.Text.Joining
import Mathlib.Data.List.Perm.Basic
import Mathlib.Data.List.Basic

/-!
# Digests and the order of enumeration

The entries of a directory are listed in no particular order, and the digest of a tree should not
depend on it.  `FileNode.Relisted` relates the trees that differ in these orders alone.

* Sorting by slashed paths settles the order of two files unless they have one slashed path; then
  they stay as they were found (`Bundle.sortedFiles_eq_iff`).
* What is hashed is the same for all orders exactly when, in every directory, any two
  subdirectories can change places without any path noticing (`FileNode.Settled`,
  `FileNode.sortedFiles_const_iff`).  The digest is then the same as well
  (`Disk.enumeration_irrelevant`).
* A tree in which no subdirectory has a backslash in its name is settled
  (`FileNode.Settled.of_noBackslash`), but not every tree is (`Disk.digest_depends_on_listing`).
-/

namespace LocalCloud

/-! ## Files of one slashed path -/

namespace Bundle

variable {files files' : List (String × ByteArray)} {tree tree' : FileNode} {key : String}

/-- The contents of the files that are hashed under the given path, in the order in which they are
found. -/
def contentsAt (key : String) (files : List (String × ByteArray)) : List ByteArray :=
  (files.filter fun f => slashed f.1 = key).map Prod.snd

@[simp] theorem contentsAt_append :
    contentsAt key (files ++ files') = contentsAt key files ++ contentsAt key files' := by
  simp [contentsAt]

theorem contentsAt_ne_nil (h : contentsAt key files ≠ []) : ∃ f ∈ files, slashed f.1 = key := by
  obtain ⟨content, hmem⟩ := List.exists_mem_of_ne_nil _ h
  obtain ⟨f, hf, -⟩ := List.mem_map.1 hmem
  exact ⟨f, List.mem_of_mem_filter hf, of_decide_eq_true (List.mem_filter.1 hf).2⟩

theorem byPath_trans (a b c : String × ByteArray) (hab : decide (a.1 ≤ b.1) = true)
    (hbc : decide (b.1 ≤ c.1) = true) : decide (a.1 ≤ c.1) = true :=
  decide_eq_true (String.le_trans (of_decide_eq_true hab) (of_decide_eq_true hbc))

theorem byPath_total (a b : String × ByteArray) :
    (decide (a.1 ≤ b.1) || decide (b.1 ≤ a.1)) = true := by
  simpa using String.le_total a.1 b.1

theorem sorted_mergeSort (files : List (String × ByteArray)) :
    (files.mergeSort fun a b => decide (a.1 ≤ b.1)).Pairwise fun a b => a.1 ≤ b.1 :=
  (List.pairwise_mergeSort byPath_trans byPath_total files).imp of_decide_eq_true

/-- Sorting is stable: the files of one path stay in the order in which they were. -/
theorem filter_mergeSort (key : String) (files : List (String × ByteArray)) :
    (files.mergeSort fun a b => decide (a.1 ≤ b.1)).filter (fun f => f.1 = key) =
      files.filter fun f => f.1 = key := by
  have hsub : (files.filter fun f => f.1 = key).Sublist
      (files.mergeSort fun a b => decide (a.1 ≤ b.1)) := by
    refine List.sublist_mergeSort byPath_trans byPath_total ?_ List.filter_sublist
    refine List.pairwise_of_forall_mem_list fun a ha b hb => decide_eq_true ?_
    have hkeys : a.1 = b.1 := (of_decide_eq_true (List.mem_filter.1 ha).2).trans
      (of_decide_eq_true (List.mem_filter.1 hb).2).symm
    exact hkeys ▸ String.le_refl a.1
  have hkept := hsub.filter fun f => f.1 = key
  rw [List.filter_filter, List.filter_congr fun f _ => Bool.and_self _] at hkept
  exact (hkept.eq_of_length ((List.mergeSort_perm files _).filter _).length_eq.symm).symm

theorem path_le_of_mem {f g : String × ByteArray}
    (h : (f :: files).Pairwise fun a b => a.1 ≤ b.1) (hg : g ∈ f :: files) : f.1 ≤ g.1 := by
  obtain rfl | hg := List.mem_cons.1 hg
  · exact String.le_refl _
  · exact List.rel_of_pairwise_cons h hg

theorem mem_iff_of_filter_eq
    (hsame : ∀ key, files.filter (fun f => f.1 = key) = files'.filter fun f => f.1 = key)
    (f : String × ByteArray) : f ∈ files ↔ f ∈ files' := by
  simpa using congrArg (f ∈ ·) (hsame f.1)

/-- Sorted files are determined by the files of every single path. -/
theorem eq_of_filter_eq (h : files.Pairwise fun a b => a.1 ≤ b.1)
    (h' : files'.Pairwise fun a b => a.1 ≤ b.1)
    (hsame : ∀ key, files.filter (fun f => f.1 = key) = files'.filter fun f => f.1 = key) :
    files = files' := by
  have hmem := mem_iff_of_filter_eq hsame
  induction files generalizing files' with
  | nil =>
    refine (List.eq_nil_iff_forall_not_mem.2 fun f hf => ?_).symm
    exact absurd ((hmem f).2 hf) List.not_mem_nil
  | cons f rest ih =>
    cases files' with
    | nil => exact absurd ((hmem f).1 List.mem_cons_self) List.not_mem_nil
    | cons g rest' =>
      -- Each of the two first files stands in the other list, and so not before its first one.
      have hkey : f.1 = g.1 := String.le_antisymm
        (path_le_of_mem h ((hmem g).2 List.mem_cons_self))
        (path_le_of_mem h' ((hmem f).1 List.mem_cons_self))
      have hfirst := hsame f.1
      simp only [List.filter_cons, decide_true, if_true, hkey] at hfirst
      obtain rfl : f = g := (List.cons.inj hfirst).1
      have hrest : ∀ key, rest.filter (fun f => f.1 = key) = rest'.filter fun f => f.1 = key := by
        intro key
        have hall := hsame key
        by_cases hf : f.1 = key <;> simpa [hf] using hall
      rw [ih h.of_cons h'.of_cons hrest (mem_iff_of_filter_eq hrest)]

theorem filter_sortedFiles :
    (sortedFiles tree).filter (fun f => f.1 = key) =
      (contentsAt key (tree.files "")).map fun content => (key, content) := by
  rw [sortedFiles, filter_mergeSort, List.filter_map, contentsAt, List.map_map]
  refine List.map_congr_left fun f hf => ?_
  exact Prod.ext (of_decide_eq_true (List.mem_filter.1 hf).2) rfl

/-- Two trees are hashed alike exactly when, under every path, they hold the same contents in the
same order. -/
theorem sortedFiles_eq_iff : sortedFiles tree = sortedFiles tree' ↔
    ∀ key, contentsAt key (tree.files "") = contentsAt key (tree'.files "") := by
  constructor
  · intro h key
    have hmap := congrArg (List.filter fun f => f.1 = key) h
    rw [filter_sortedFiles, filter_sortedFiles] at hmap
    exact List.map_injective_iff.2 (fun _ _ heq => (Prod.mk.inj heq).2) hmap
  · intro h
    refine eq_of_filter_eq (sorted_mergeSort _) (sorted_mergeSort _) fun key => ?_
    exact filter_sortedFiles.trans ((congrArg _ (h key)).trans filter_sortedFiles.symm)

/-- Files that are all hashed under one path are hashed in the order in which they are found. -/
theorem sortedFiles_of_onePath (key : String) (h : ∀ f ∈ tree.files "", slashed f.1 = key) :
    sortedFiles tree = (tree.files "").map fun f => (key, f.2) := by
  have hmap : (tree.files "").map (fun f => (slashed f.1, f.2)) =
      (tree.files "").map fun f => (key, f.2) :=
    List.map_congr_left fun f hf => by rw [h f hf]
  refine (congrArg (List.mergeSort · _) hmap).trans (List.mergeSort_of_pairwise ?_)
  exact List.pairwise_map.2 (List.pairwise_of_forall fun _ _ => decide_eq_true (String.le_refl key))

/-! ## Slashed texts -/

variable {a b : String}

theorem slashed_append : slashed (a ++ b) = slashed a ++ slashed b := by
  simp [slashed, String.ofList_append]

/-- A name is known by its slashed form, as it has no slash of its own. -/
theorem slashed_inj (ha : '/' ∉ a.toList) (hb : '/' ∉ b.toList) (h : slashed a = slashed b) :
    a = b := by
  have hback : ∀ {t : String}, '/' ∉ t.toList →
      (slashed t).toList.map (fun c => if c = '/' then '\\' else c) = t.toList := by
    intro t ht
    rw [slashed, String.toList_ofList, List.map_map]
    refine (List.map_congr_left fun c hc => ?_).trans (List.map_id _)
    have hc' : c ≠ '/' := fun heq => ht (heq ▸ hc)
    by_cases hback : c = '\\' <;> simp [hback, hc']
  exact String.toList_injective (by rw [← hback ha, ← hback hb, h])

theorem slashed_eq_self (h : '\\' ∉ a.toList) : slashed a = a := by
  refine String.toList_injective ?_
  rw [slashed, String.toList_ofList]
  refine (List.map_congr_left fun c hc => if_neg ?_).trans (List.map_id _)
  exact fun heq => h (heq ▸ hc)

/-- The first name of a path ends where its first slash is. -/
theorem firstName_inj {rest rest' : String} (ha : '/' ∉ a.toList) (hb : '/' ∉ b.toList)
    (h : a ++ ("/" ++ rest) = b ++ ("/" ++ rest')) : a = b := by
  have hchars := congrArg String.toList h
  simp only [String.toList_append] at hchars
  exact String.toList_injective (Text.append_mark_inj ha hb hchars).1

end Bundle

namespace FileNode

open LocalCloud.Bundle

variable {tree tree' : FileNode} {entries entries' : Entries} {here key : String}

/-! ## Trees that differ in the order of their entries -/

/-- The names in a tree are such as a file system allows: they hold no slash, and no two entries of
one directory have the same name.  A name is a text here.  Where a file system allows names that are
not Unicode, two of them can have one text, with what is not Unicode replaced in both; a directory
with two such names is not well named. -/
inductive WellNamed : FileNode → Prop where
  | file {content : ByteArray} : WellNamed (.file content)
  | link {target : String} : WellNamed (.link target)
  | directory {entries : Entries} (unique : (entries.map Prod.fst).Nodup)
      (noSlash : ∀ e ∈ entries, '/' ∉ e.1.toList) (below : ∀ e ∈ entries, WellNamed e.2) :
      WellNamed (.directory entries)

@[simp] theorem wellNamed_file {content : ByteArray} : (file content).WellNamed := .file

@[simp] theorem wellNamed_directory : (directory entries).WellNamed ↔
    (entries.map Prod.fst).Nodup ∧ (∀ e ∈ entries, '/' ∉ e.1.toList) ∧
      ∀ e ∈ entries, e.2.WellNamed :=
  ⟨fun h => by cases h with | directory unique noSlash below => exact ⟨unique, noSlash, below⟩,
    fun ⟨unique, noSlash, below⟩ => .directory unique noSlash below⟩

/-- The same tree, with its directories listed in other orders. -/
inductive Relisted : FileNode → FileNode → Prop where
  | refl (node : FileNode) : Relisted node node
  | listed {entries entries' : Entries} (h : entries.Perm entries') :
      Relisted (.directory entries) (.directory entries')
  | inside (name : String) (before after : Entries) {node node' : FileNode}
      (h : Relisted node node') :
      Relisted (.directory (before ++ (name, node) :: after))
        (.directory (before ++ (name, node') :: after))
  | trans {first second third : FileNode} (h : Relisted first second) (h' : Relisted second third) :
      Relisted first third

theorem Relisted.eq_or_directories (h : Relisted tree tree') : tree' = tree ∨
    ∃ entries entries', tree = .directory entries ∧ tree' = .directory entries' := by
  induction h with
  | refl node => exact .inl rfl
  | listed h => exact .inr ⟨_, _, rfl, rfl⟩
  | inside name before after h ih => exact .inr ⟨_, _, rfl, rfl⟩
  | trans h h' ih ih' =>
    obtain rfl | ⟨entries, middle, rfl, rfl⟩ := ih
    · exact ih'
    · obtain rfl | ⟨middle', entries', -, rfl⟩ := ih'
      · exact .inr ⟨_, _, rfl, rfl⟩
      · exact .inr ⟨_, _, rfl, rfl⟩

/-- What stands among entries of which one is replaced. -/
theorem mem_replaced {before after : Entries} {e x : String × FileNode} (x' : String × FileNode)
    (h : e ∈ before ++ x :: after) : e = x ∨ e ∈ before ++ x' :: after := by
  simp only [List.mem_append, List.mem_cons] at h ⊢
  tauto

theorem Relisted.wellNamed (h : Relisted tree tree') (hnamed : tree.WellNamed) :
    tree'.WellNamed := by
  induction h with
  | refl node => exact hnamed
  | listed h =>
    obtain ⟨unique, noSlash, below⟩ := wellNamed_directory.1 hnamed
    exact .directory ((h.map _).nodup_iff.1 unique) (fun e he => noSlash e (h.mem_iff.2 he))
      fun e he => below e (h.mem_iff.2 he)
  | @inside name before after node node' h ih =>
    obtain ⟨unique, noSlash, below⟩ := wellNamed_directory.1 hnamed
    refine .directory (by simpa using unique) (fun e he => ?_) fun e he => ?_
    · obtain rfl | he := mem_replaced (name, node) he
      · exact noSlash (name, node) (by simp)
      · exact noSlash e he
    · obtain rfl | he := mem_replaced (name, node) he
      · exact ih (below (name, node) (by simp))
      · exact below e he
  | trans h h' ih ih' => exact ih' (ih hnamed)

/-! ## What an entry adds under each path -/

/-- What an entry that is a file adds under each path. -/
def ownAt (here : String) (e : String × FileNode) (key : String) : List ByteArray :=
  contentsAt key (ownFiles here [e])

/-- What is found under each path in an entry that is a directory. -/
def belowAt (here : String) (e : String × FileNode) (key : String) : List ByteArray :=
  contentsAt key (files (here ++ e.1 ++ "/") e.2)

/-- Two contributions make no difference to any path when they change places. -/
def Exchangeable (f g : String → List ByteArray) : Prop := ∀ key, f key ++ g key = g key ++ f key

theorem Exchangeable.symm {f g : String → List ByteArray} (h : Exchangeable f g) :
    Exchangeable g f :=
  fun key => (h key).symm

/-- Contributions that can change places with one another come to the same in every order. -/
theorem flatMap_of_perm {l l' : List (String → List ByteArray)} (hperm : l.Perm l')
    (h : l.Pairwise Exchangeable) : l.flatMap (· key) = l'.flatMap (· key) := by
  induction hperm with
  | nil => rfl
  | cons f _ ih => rw [List.flatMap_cons, List.flatMap_cons, ih h.of_cons]
  | swap f g l =>
    have hfg := List.rel_of_pairwise_cons h List.mem_cons_self key
    simp only [List.flatMap_cons, ← List.append_assoc, hfg]
  | trans hperm _ ih ih' => exact (ih h).trans (ih' (hperm.pairwise h Exchangeable.symm))

theorem contentsAt_ownFiles : contentsAt key (ownFiles here entries) =
    (entries.map (ownAt here)).flatMap (· key) := by
  induction entries with
  | nil => rfl
  | cons e rest ih =>
    have hsplit : ownFiles here (e :: rest) = ownFiles here [e] ++ ownFiles here rest :=
      List.filterMap_append (l := [e])
    rw [hsplit, contentsAt_append, ih]
    rfl

theorem contentsAt_filesBelow : contentsAt key (filesBelow here entries) =
    (entries.map (belowAt here)).reverse.flatMap (· key) := by
  induction entries with
  | nil => rfl
  | cons e rest ih => simp [filesBelow, ih, belowAt]

theorem contentsAt_directory : contentsAt key (files here (.directory entries)) =
    (entries.map (ownAt here)).flatMap (· key) ++
      (entries.map (belowAt here)).reverse.flatMap (· key) := by
  rw [files, contentsAt_append, contentsAt_ownFiles, contentsAt_filesBelow]

theorem path_of_ownAt {e : String × FileNode} (h : ownAt here e key ≠ []) :
    key = slashed (here ++ e.1) := by
  obtain ⟨f, hf, rfl⟩ := contentsAt_ne_nil h
  obtain ⟨e', he', hsome⟩ := List.mem_filterMap.1 hf
  obtain rfl := List.mem_singleton.1 he'
  cases hnode : e'.2 <;> simp [hnode] at hsome
  rw [← hsome]

/-- The files that stand in one directory may be found in any order, for no two of them have the
same slashed path. -/
theorem exchangeable_ownAt (unique : (entries.map Prod.fst).Nodup)
    (noSlash : ∀ e ∈ entries, '/' ∉ e.1.toList) :
    (entries.map (ownAt here)).Pairwise Exchangeable := by
  refine List.pairwise_map.2 ((List.pairwise_map.1 unique).imp_of_mem fun {e e'} he he' hne => ?_)
  intro key
  by_cases hown : ownAt here e key = []
  · simp [hown]
  by_cases hown' : ownAt here e' key = []
  · simp [hown']
  have hslashed : slashed (here ++ e.1) = slashed (here ++ e'.1) :=
    (path_of_ownAt hown).symm.trans (path_of_ownAt hown')
  rw [slashed_append, slashed_append, String.append_right_inj] at hslashed
  exact absurd (slashed_inj (noSlash e he) (noSlash e' he') hslashed) hne

/-! ## Trees that are hashed alike in every order -/

/-- In every directory of the tree, any two subdirectories can change places: under each path, what
is found in the one and then in the other is the same the other way round. -/
inductive Settled : String → FileNode → Prop where
  | file {here : String} {content : ByteArray} : Settled here (.file content)
  | link {here target : String} : Settled here (.link target)
  | directory {here : String} {entries : Entries}
      (below : ∀ e ∈ entries, Settled (here ++ e.1 ++ "/") e.2)
      (exchangeable : (entries.map (belowAt here)).Pairwise Exchangeable) :
      Settled here (.directory entries)

theorem settled_directory : (directory entries).Settled here ↔
    (∀ e ∈ entries, e.2.Settled (here ++ e.1 ++ "/")) ∧
      (entries.map (belowAt here)).Pairwise Exchangeable :=
  ⟨fun h => by cases h with | directory below exchangeable => exact ⟨below, exchangeable⟩,
    fun ⟨below, exchangeable⟩ => .directory below exchangeable⟩

theorem Relisted.ownAt_eq {node node' : FileNode} (h : Relisted node node') (name : String) :
    ownAt here (name, node') = ownAt here (name, node) := by
  obtain rfl | ⟨entries, entries', rfl, rfl⟩ := h.eq_or_directories
  · rfl
  · rfl

theorem flatMap_ownAt_of_perm (hperm : entries.Perm entries')
    (unique : (entries.map Prod.fst).Nodup) (noSlash : ∀ e ∈ entries, '/' ∉ e.1.toList) :
    (entries.map (ownAt here)).flatMap (· key) = (entries'.map (ownAt here)).flatMap (· key) :=
  flatMap_of_perm (hperm.map _) (exchangeable_ownAt unique noSlash)

theorem flatMap_belowAt_of_perm (hperm : entries.Perm entries')
    (exchangeable : (entries.map (belowAt here)).Pairwise Exchangeable) :
    (entries.map (belowAt here)).reverse.flatMap (· key) =
      (entries'.map (belowAt here)).reverse.flatMap (· key) := by
  refine flatMap_of_perm ?_ (List.pairwise_reverse.2 (exchangeable.imp Exchangeable.symm))
  exact (List.reverse_perm _).trans ((hperm.map _).trans (List.reverse_perm _).symm)

/-- A settled tree stays so when it is listed in other orders, and no path notices. -/
theorem Settled.relisted (h : Relisted tree tree') (hnamed : tree.WellNamed)
    (hsettled : tree.Settled here) : tree'.Settled here ∧
      ∀ key, contentsAt key (files here tree) = contentsAt key (files here tree') := by
  induction h generalizing here with
  | refl node => exact ⟨hsettled, fun _ => rfl⟩
  | listed hperm =>
    obtain ⟨unique, noSlash, -⟩ := wellNamed_directory.1 hnamed
    obtain ⟨below, exchangeable⟩ := settled_directory.1 hsettled
    refine ⟨.directory (fun e he => below e (hperm.mem_iff.2 he))
      ((hperm.map _).pairwise exchangeable Exchangeable.symm), fun key => ?_⟩
    rw [contentsAt_directory, contentsAt_directory, flatMap_ownAt_of_perm hperm unique noSlash,
      flatMap_belowAt_of_perm hperm exchangeable]
  | @inside name before after node node' h ih =>
    obtain ⟨-, -, named⟩ := wellNamed_directory.1 hnamed
    obtain ⟨below, exchangeable⟩ := settled_directory.1 hsettled
    obtain ⟨hnode, hsame⟩ := ih (named (name, node) (by simp)) (below (name, node) (by simp))
    have hbelow : belowAt here (name, node') = belowAt here (name, node) :=
      funext fun key => (hsame key).symm
    refine ⟨.directory (fun e he => ?_) ?_, fun key => ?_⟩
    · obtain rfl | he := mem_replaced (name, node) he
      · exact hnode
      · exact below e he
    · simpa [hbelow] using exchangeable
    · simp [contentsAt_directory, hbelow, h.ownAt_eq]
  | trans h h' ih ih' =>
    obtain ⟨hmiddle, hsame⟩ := ih hnamed hsettled
    obtain ⟨hlast, hsame'⟩ := ih' (h.wellNamed hnamed) hmiddle
    exact ⟨hlast, fun key => (hsame key).trans (hsame' key)⟩

/-- If no path notices in which orders a tree is listed, then the tree is settled. -/
theorem Settled.of_relisted (hnamed : tree.WellNamed) (hconst : ∀ tree', Relisted tree tree' →
    ∀ key, contentsAt key (files here tree) = contentsAt key (files here tree')) :
    tree.Settled here := by
  induction hnamed generalizing here with
  | file => exact .file
  | link => exact .link
  | @directory entries unique noSlash _ ih =>
    refine .directory (fun e he => ih e he fun node' h key => ?_) ?_
    · obtain ⟨before, after, rfl⟩ := List.append_of_mem he
      have hsame := hconst _ (.inside e.1 before after h) key
      simpa [contentsAt_directory, h.ownAt_eq, belowAt] using hsame
    · refine List.pairwise_map.2 (List.pairwise_iff_forall_sublist.2 fun {e e'} hsub key => ?_)
      -- The two entries are listed before all others, in either order; the others cancel.
      obtain ⟨rest, hperm⟩ := hsub.exists_perm_append
      have hperm' : entries.Perm (e' :: e :: rest) := hperm.trans (.swap ..)
      have hsame := (hconst _ (.listed hperm) key).symm.trans (hconst _ (.listed hperm') key)
      rw [contentsAt_directory, contentsAt_directory,
        ← flatMap_ownAt_of_perm hperm unique noSlash,
        ← flatMap_ownAt_of_perm hperm' unique noSlash] at hsame
      simpa using hsame.symm

/-- What is hashed is the same for all orders of listing exactly when the tree is settled. -/
theorem sortedFiles_const_iff (hnamed : tree.WellNamed) :
    (∀ tree', Relisted tree tree' → sortedFiles tree = sortedFiles tree') ↔ tree.Settled "" := by
  constructor
  · intro hconst
    exact .of_relisted hnamed fun tree' h => sortedFiles_eq_iff.1 (hconst tree' h)
  · intro hsettled tree' h
    exact sortedFiles_eq_iff.2 (hsettled.relisted h hnamed).2

/-! ## Trees without backslashes -/

/-- No subdirectory has a backslash in its name; files may have. -/
inductive NoBackslash : FileNode → Prop where
  | file {content : ByteArray} : NoBackslash (.file content)
  | link {target : String} : NoBackslash (.link target)
  | directory {entries : Entries}
      (names : ∀ e ∈ entries, ∀ below, e.2 = .directory below → '\\' ∉ e.1.toList)
      (below : ∀ e ∈ entries, NoBackslash e.2) : NoBackslash (.directory entries)

@[simp] theorem noBackslash_file {content : ByteArray} : (file content).NoBackslash := .file

@[simp] theorem noBackslash_directory : (directory entries).NoBackslash ↔
    (∀ e ∈ entries, ∀ below, e.2 = .directory below → '\\' ∉ e.1.toList) ∧
      ∀ e ∈ entries, e.2.NoBackslash :=
  ⟨fun h => by cases h with | directory names below => exact ⟨names, below⟩,
    fun ⟨names, below⟩ => .directory names below⟩

theorem exists_mem_of_mem_filesBelow {f : String × ByteArray} (h : f ∈ filesBelow here entries) :
    ∃ e ∈ entries, f ∈ files (here ++ e.1 ++ "/") e.2 := by
  induction entries with
  | nil => simp [filesBelow] at h
  | cons e rest ih =>
    rw [filesBelow, List.mem_append] at h
    obtain hrest | hhere := h
    · obtain ⟨e', he', hf⟩ := ih hrest
      exact ⟨e', List.mem_cons_of_mem _ he', hf⟩
    · exact ⟨e, List.mem_cons_self, hhere⟩

/-- Every file of a tree has a path behind that of the tree. -/
theorem WellNamed.exists_path (hnamed : tree.WellNamed) {f : String × ByteArray}
    (hf : f ∈ files here tree) : ∃ rest, f.1 = here ++ rest := by
  induction hnamed generalizing here with
  | file => simp [files] at hf
  | link => simp [files] at hf
  | directory _ _ _ ih =>
    rw [files, List.mem_append] at hf
    obtain hown | hbelow := hf
    · obtain ⟨e, -, hsome⟩ := List.mem_filterMap.1 hown
      cases hnode : e.2 <;> simp [hnode] at hsome
      exact ⟨e.1, by rw [← hsome]⟩
    · obtain ⟨e, he, hf⟩ := exists_mem_of_mem_filesBelow hbelow
      obtain ⟨rest, hrest⟩ := ih e he hf
      exact ⟨e.1 ++ ("/" ++ rest), by simp [hrest, String.append_assoc]⟩

/-- The path under which a file of a subdirectory is hashed goes through the name of that. -/
theorem WellNamed.path_of_belowAt {e : String × FileNode} (hnamed : e.2.WellNamed)
    (hname : ∀ below, e.2 = .directory below → '\\' ∉ e.1.toList) (h : belowAt here e key ≠ []) :
    ∃ rest, key = slashed here ++ (e.1 ++ ("/" ++ rest)) := by
  obtain ⟨f, hf, rfl⟩ := contentsAt_ne_nil h
  obtain ⟨rest, hrest⟩ := hnamed.exists_path hf
  obtain ⟨below, hbelow⟩ : ∃ below, e.2 = .directory below := by
    cases hnode : e.2 <;> simp [hnode, files] at hf ⊢
  refine ⟨slashed rest, ?_⟩
  rw [hrest, slashed_append, slashed_append, slashed_append, slashed_eq_self (hname below hbelow),
    slashed_eq_self (a := "/") (by decide), String.append_assoc, String.append_assoc]

/-- Without backslashes in the names of subdirectories, a path leads through one of them at most. -/
theorem Settled.of_noBackslash (hnamed : tree.WellNamed) (hplain : tree.NoBackslash) :
    tree.Settled here := by
  induction hnamed generalizing here with
  | file => exact .file
  | link => exact .link
  | directory unique noSlash named ih =>
    obtain ⟨names, below⟩ := noBackslash_directory.1 hplain
    refine .directory (fun e he => ih e he (below e he)) (List.pairwise_map.2 ?_)
    refine (List.pairwise_map.1 unique).imp_of_mem fun {e e'} he he' hne key => ?_
    by_cases hfound : belowAt here e key = []
    · simp [hfound]
    by_cases hfound' : belowAt here e' key = []
    · simp [hfound']
    obtain ⟨rest, hkey⟩ := (named e he).path_of_belowAt (names e he) hfound
    obtain ⟨rest', hkey'⟩ := (named e' he').path_of_belowAt (names e' he') hfound'
    have hpaths := String.append_right_inj _ |>.1 (hkey.symm.trans hkey')
    exact absurd (firstName_inj (noSlash e he) (noSlash e' he') hpaths) hne

end FileNode

/-! ## Digests -/

open FileNode LocalCloud.Bundle

variable {tree tree' : FileNode}

theorem Bundle.hashOf_relisted (hash : ByteArray → ByteArray) (hnamed : tree.WellNamed)
    (hsettled : tree.Settled "") (h : tree.Relisted tree') :
    hashOf hash tree = hashOf hash tree' := by
  obtain rfl | ⟨entries, entries', rfl, rfl⟩ := h.eq_or_directories
  · rfl
  · show hash (listing hash (sortedFiles _)) = hash (listing hash (sortedFiles _))
    rw [(sortedFiles_const_iff hnamed).2 hsettled _ h]

namespace Disk

/-- The digests of any two listings of a settled tree are the same, whatever the hash function is.
Only settled trees are hashed alike in all orders, and all trees without backslashes are settled. -/
theorem enumeration_irrelevant (hnamed : tree.WellNamed) :
    (tree.Settled "" ↔ ∀ tree', tree.Relisted tree' → sortedFiles tree = sortedFiles tree') ∧
      (tree.NoBackslash → tree.Settled "") ∧
      (tree.Settled "" → ∀ first second, tree.Relisted first → tree.Relisted second →
        (∀ hash, hashOf hash first = hashOf hash second) ∧
        ∀ (d d' : Disk) (path path' : Path), d.node path = .ok first → d'.node path' = .ok second →
          d.digest path = d'.digest path') := by
  refine ⟨(sortedFiles_const_iff hnamed).symm, .of_noBackslash hnamed, ?_⟩
  intro hsettled first second h h'
  have hhash : ∀ hash, hashOf hash first = hashOf hash second := fun hash =>
    (hashOf_relisted hash hnamed hsettled h).symm.trans (hashOf_relisted hash hnamed hsettled h')
  refine ⟨hhash, fun d d' path path' hread hread' => ?_⟩
  simp only [digest, hread, hread', hhash]

/-- The disk on which a directory with the given entries is `d`. -/
def holding (entries : Entries) : Disk :=
  { root := .directory [("d", .directory entries)] }

theorem node_holding (entries : Entries) :
    (holding entries).node ⟨"d"⟩ = .ok (.directory entries) := by
  have hnames : names "d" = ["d"] := by decide +kernel
  have hsize : "d".utf8ByteSize = 1 := rfl
  have hlocate : (holding entries).locate true ⟨"d"⟩ =
      .ok (.taken ["d"] (.directory entries)) := by
    simp [locate, holding, pathLimit, nameLimit, hsize, hnames, walk, at?, entry?]
  rw [node, hlocate]

/-- The entries of a bundle; the name of one of its files holds a backslash. -/
def bundleEntries : Entries :=
  [("index.js", .file "1".toUTF8),
    ("lib", .directory [("util.js", .file "2".toUTF8), ("a\\b", .file "3".toUTF8)]),
    ("bin", .directory [("run", .file "4".toUTF8)])]

/-- The same entries in other orders. -/
def bundleEntriesBack : Entries :=
  [("bin", .directory [("run", .file "4".toUTF8)]),
    ("lib", .directory [("a\\b", .file "3".toUTF8), ("util.js", .file "2".toUTF8)]),
    ("index.js", .file "1".toUTF8)]

/-- The bundle has the same digest in both orders. -/
theorem digest_bundleEntries :
    (directory bundleEntries).WellNamed ∧ (directory bundleEntries).NoBackslash ∧
      (directory bundleEntries).Relisted (directory bundleEntriesBack) ∧
      (holding bundleEntries).digest ⟨"d"⟩ = (holding bundleEntriesBack).digest ⟨"d"⟩ := by
  have hnamed : (directory bundleEntries).WellNamed := by simp [bundleEntries]
  have hplain : (directory bundleEntries).NoBackslash := by simp [bundleEntries]
  have hback : (directory bundleEntries).Relisted (directory bundleEntriesBack) :=
    .trans (.listed (List.reverse_perm bundleEntries).symm)
      (.inside "lib" [_] [_] (.listed (.swap ..)))
  obtain ⟨-, hsettled, hsame⟩ := enumeration_irrelevant hnamed
  exact ⟨hnamed, hplain, hback, (hsame (hsettled hplain) _ _ (.refl _) hback).2 _ _ _ _
    (node_holding _) (node_holding _)⟩

/-- The entries of a directory with two ways to the path `p/q/f`: through `p` and `q`, and through
a single directory with a backslash in its name. -/
def clashEntries : Entries :=
  [("p", .directory [("q", .directory [("f", .file "1".toUTF8)])]),
    ("p\\q", .directory [("f", .file "2".toUTF8)])]

/-- The digest is not the same for all orders of listing: the two files of one slashed path are
hashed as they are found. -/
theorem digest_depends_on_listing :
    (directory clashEntries).WellNamed ∧
      (directory clashEntries).Relisted (directory clashEntries.reverse) ∧
      (holding clashEntries).digest ⟨"d"⟩ =
        .ok "blake3:72ec7bc84e50c4b0e9ec73569d478fce5dcd6eb5a3dfeda8d2acfc596311c950" ∧
      (holding clashEntries.reverse).digest ⟨"d"⟩ =
        .ok "blake3:7261312a32fa8ef0da6042f96b719f3f5b7d39b0ad916b67e8652d97d18c574e" := by
  have hslashed : slashed "p\\q/f" = "p/q/f" := by decide
  have hslashed' : slashed "p/q/f" = "p/q/f" := by decide
  have hfiles : (directory clashEntries).files "" =
      [("p\\q/f", "2".toUTF8), ("p/q/f", "1".toUTF8)] := by
    simp [clashEntries, files, filesBelow, ownFiles]
  have hfiles' : (directory clashEntries.reverse).files "" =
      [("p/q/f", "1".toUTF8), ("p\\q/f", "2".toUTF8)] := by
    simp [clashEntries, files, filesBelow, ownFiles]
  have hsorted : sortedFiles (directory clashEntries) =
      [("p/q/f", "2".toUTF8), ("p/q/f", "1".toUTF8)] :=
    (sortedFiles_of_onePath "p/q/f" (by simp [hfiles, hslashed, hslashed'])).trans
      (by rw [hfiles]; rfl)
  have hsorted' : sortedFiles (directory clashEntries.reverse) =
      [("p/q/f", "1".toUTF8), ("p/q/f", "2".toUTF8)] :=
    (sortedFiles_of_onePath "p/q/f" (by simp [hfiles', hslashed, hslashed'])).trans
      (by rw [hfiles']; rfl)
  refine ⟨by simp [clashEntries], .listed (List.reverse_perm _).symm, ?_, ?_⟩
  · rw [digest, node_holding]
    simp only [hashOf, hsorted]
    exact congrArg Except.ok (by decide +kernel)
  · rw [digest, node_holding]
    simp only [hashOf, hsorted']
    exact congrArg Except.ok (by decide +kernel)

end Disk

end LocalCloud
