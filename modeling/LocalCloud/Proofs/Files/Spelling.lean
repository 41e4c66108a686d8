import LocalCloud.Files.Disk
import LocalCloud.Proofs.Text.Pieces

/-!
# Spellings of a path

A directory has many spellings: empty names and dots can stand anywhere in a path.  Spellings with
the same components lead to the same things (`node_join_congr`), and seen from them a path leads to
the same directory (`same_join`).  The one difference that a spelling makes is its length.
-/

namespace LocalCloud

theorem Text.startsWith_slash_iff {s : String} :
    Text.startsWith "/" s = true ↔ ∃ rest, s.toList = '/' :: rest := by
  have hslash : "/".toList = ['/'] := rfl
  rw [Text.startsWith, hslash]
  cases s.toList with
  | nil => simp [Text.dropHead?]
  | cons c rest =>
    by_cases hc : c = '/'
    · simp [Text.dropHead?, hc]
    · simp [Text.dropHead?, hc, Ne.symm hc]

theorem Text.exists_of_endsWith_slash {s : String} (h : Text.endsWith "/" s = true) :
    ∃ front, s.toList = front ++ ['/'] := by
  obtain ⟨front, hfront⟩ := Option.isSome_iff_exists.1 h
  exact ⟨front, Text.eq_of_dropTail? hfront⟩

namespace Path

/-- Whether a name leads anywhere: an empty one and a dot do not. -/
def isProper (name : String) : Bool := name != "" && name != "."

variable {p dir dir' : Path} {rel : String} {c : Char}

/-! ## Components -/

/-- The names of a path without those that lead nowhere; at the front they tell where the path
begins. -/
def tidy : List String → List String
  | [] => []
  | first :: rest => (if first = "" then "/" else first) :: rest.filter isProper

theorem tidy_append {front : List String} (h : front ≠ []) (rest : List String) :
    tidy (front ++ rest) = tidy front ++ rest.filter isProper := by
  obtain ⟨first, more, rfl⟩ := List.exists_cons_of_ne_nil h
  simp [tidy]

theorem pieces_ne_nil (p : Path) : p.pieces ≠ [] := by
  simpa [pieces] using Text.splitAll_ne_nil ['/'] p.text.toList

theorem slash_not_mem_pieces (p : Path) : "/" ∉ p.pieces := by
  intro h
  obtain ⟨piece, hpiece, heq⟩ := List.mem_map.1 h
  have hslash : '/' ∈ (String.ofList piece).toList := by simp [heq]
  rw [String.toList_ofList] at hslash
  exact Text.not_mem_of_mem_splitAll hpiece hslash

/-- A path begins with an empty name just when it is absolute. -/
theorem isAbsolute_iff_of_pieces {first : String} {rest : List String} (hne : p.text ≠ "")
    (h : p.pieces = first :: rest) : p.isAbsolute = true ↔ first = "" := by
  rw [isAbsolute, Text.startsWith_slash_iff]
  rw [pieces] at h
  cases htext : p.text.toList with
  | nil => exact absurd (String.toList_eq_nil_iff.1 htext) hne
  | cons c text =>
    rw [htext, Text.splitAll_cons] at h
    by_cases hc : c = '/'
    · rw [if_pos hc] at h
      obtain ⟨rfl, -⟩ := List.cons.inj h
      simp [hc]
    · obtain ⟨head, tail, htail⟩ := List.exists_cons_of_ne_nil (Text.splitAll_ne_nil ['/'] text)
      rw [if_neg hc, htail] at h
      obtain ⟨rfl, -⟩ := List.cons.inj h
      simp [hc]

theorem components_of_ne_empty (hne : p.text ≠ "") : p.components = tidy p.pieces := by
  obtain ⟨first, rest, h⟩ := List.exists_cons_of_ne_nil p.pieces_ne_nil
  have habsolute := isAbsolute_iff_of_pieces hne h
  have hproper : isProper = fun name => name != "" && name != "." := rfl
  unfold components
  rw [h]
  by_cases hempty : first = ""
  · subst hempty
    simp [tidy, habsolute.2 rfl, hproper]
  · by_cases hdot : first = "."
    · subst hdot
      simp [tidy, hproper]
    · simp [tidy, hempty, hdot, hproper]

theorem components_eq_nil_iff : p.components = [] ↔ p.text = "" := by
  constructor
  · intro h
    by_contra hne
    rw [components_of_ne_empty hne] at h
    obtain ⟨first, rest, hpieces⟩ := List.exists_cons_of_ne_nil p.pieces_ne_nil
    rw [hpieces] at h
    contradiction
  · rintro h
    have hpieces : p.pieces = [""] := by simp [pieces, h, Text.splitAll_nil]
    have hrelative : p.isAbsolute = false := by
      simp [isAbsolute, h, Text.startsWith, Text.dropHead?]
    simp [components, hpieces, hrelative]

theorem ne_empty_of_components_eq_cons {first : String} {rest : List String}
    (h : p.components = first :: rest) : p.text ≠ "" := by
  intro hempty
  rw [components_eq_nil_iff.2 hempty] at h
  contradiction

/-- The components of a path tell whether it is absolute. -/
theorem isAbsolute_iff : p.isAbsolute = true ↔ p.components.head? = some "/" := by
  by_cases hne : p.text = ""
  · rw [components_eq_nil_iff.2 hne]
    simp [isAbsolute, hne, Text.startsWith, Text.dropHead?]
  · obtain ⟨first, rest, hpieces⟩ := List.exists_cons_of_ne_nil p.pieces_ne_nil
    have hslash : first ≠ "/" := by
      rintro rfl
      exact p.slash_not_mem_pieces (hpieces ▸ List.mem_cons_self)
    rw [isAbsolute_iff_of_pieces hne hpieces, components_of_ne_empty hne, hpieces]
    by_cases hempty : first = "" <;> simp [tidy, hempty, hslash]

/-! ## Paths seen from a directory -/

/-- The names of a path seen from a directory are those of the directory, but for an empty one at
its end, and then those of the path. -/
theorem exists_pieces_join (hdir : dir.text ≠ "") (hrel : Text.startsWith "/" rel = false) :
    ∃ front, front ≠ [] ∧ (dir.join rel).pieces = front ++ (Path.mk rel).pieces ∧
      (dir.pieces = front ∨ dir.pieces = front ++ [""]) := by
  by_cases hend : Text.endsWith "/" dir.text = true
  · obtain ⟨front, hfront⟩ := Text.exists_of_endsWith_slash hend
    have hjoin : (dir.join rel).text.toList = front ++ '/' :: rel.toList := by
      simp [join, hrel, hend, hfront]
    refine ⟨(Text.splitAll ['/'] front).map String.ofList, ?_, ?_, .inr ?_⟩
    · simpa using Text.splitAll_ne_nil ['/'] front
    · rw [pieces, hjoin, Text.splitAll_append_cons, List.map_append]
      rfl
    · rw [pieces, hfront, Text.splitAll_append_cons, Text.splitAll_nil, List.map_append]
      rfl
  · have hjoin : (dir.join rel).text.toList = dir.text.toList ++ '/' :: rel.toList := by
      simp [join, hrel, hend, hdir]
    refine ⟨dir.pieces, dir.pieces_ne_nil, ?_, .inl rfl⟩
    rw [pieces, hjoin, Text.splitAll_append_cons, List.map_append]
    rfl

/-- A path seen from a directory is no longer than both and a slash. -/
theorem utf8ByteSize_join_le (dir : Path) (rel : String) :
    (dir.join rel).text.utf8ByteSize ≤ dir.text.utf8ByteSize + 1 + rel.utf8ByteSize := by
  have hslash : "/".utf8ByteSize = 1 := rfl
  unfold join
  split
  · exact Nat.le_add_left _ _
  split <;> simp only [String.utf8ByteSize_append, hslash] <;> omega

theorem text_join_ne_empty (hdir : dir.text ≠ "") (hrel : Text.startsWith "/" rel = false) :
    (dir.join rel).text ≠ "" := by
  unfold join
  simp only [hrel, Bool.false_eq_true, if_false]
  split <;> simp [hdir]

theorem components_join (hdir : dir.text ≠ "") (hrel : Text.startsWith "/" rel = false) :
    (dir.join rel).components = dir.components ++ (Path.mk rel).pieces.filter isProper := by
  obtain ⟨front, hne, hjoin, hpieces⟩ := exists_pieces_join hdir hrel
  rw [components_of_ne_empty (text_join_ne_empty hdir hrel), components_of_ne_empty hdir, hjoin,
    tidy_append hne]
  rcases hpieces with hpieces | hpieces
  · rw [hpieces]
  · rw [hpieces, tidy_append hne]
    simp [isProper]

theorem same_iff : dir.same dir' = true ↔ dir.components = dir'.components := beq_iff_eq

theorem same_refl (dir : Path) : dir.same dir = true := same_iff.2 rfl

theorem same_symm (h : dir.same dir' = true) : dir'.same dir = true :=
  same_iff.2 (same_iff.1 h).symm

theorem same_trans {dir'' : Path} (h : dir.same dir' = true) (h' : dir'.same dir'' = true) :
    dir.same dir'' = true := same_iff.2 ((same_iff.1 h).trans (same_iff.1 h'))

theorem text_eq_empty_iff_of_same (h : dir.same dir' = true) : dir.text = "" ↔ dir'.text = "" := by
  rw [← components_eq_nil_iff, ← components_eq_nil_iff, same_iff.1 h]

/-- A path leads to the same directory seen from any spelling of a directory. -/
theorem same_join (h : dir.same dir' = true) (rel : String) :
    (dir.join rel).same (dir'.join rel) = true := by
  have hempty := text_eq_empty_iff_of_same h
  by_cases hrel : Text.startsWith "/" rel = true
  · have heq : dir.join rel = dir'.join rel := by simp [join, hrel]
    exact heq ▸ same_refl _
  · rw [Bool.not_eq_true] at hrel
    by_cases hdir : dir.text = ""
    · have heq : dir.join rel = dir'.join rel := by simp [join, hdir, hempty.1 hdir]
      exact heq ▸ same_refl _
    · have hdir' : dir'.text ≠ "" := mt hempty.2 hdir
      rw [same_iff, components_join hdir hrel, components_join hdir' hrel, same_iff.1 h]

/-- The characters of a path are in its components, whatever its spelling. -/
theorem mem_components_iff (hslash : c ≠ '/') (hdot : c ≠ '.') :
    (∃ name ∈ p.components, c ∈ name.toList) ↔ c ∈ p.text.toList := by
  by_cases hne : p.text = ""
  · simp [components_eq_nil_iff.2 hne, hne]
  · rw [components_of_ne_empty hne, ← Text.mem_splitAll_iff hslash]
    have hpieces : (∃ piece ∈ Text.splitAll ['/'] p.text.toList, c ∈ piece) ↔
        ∃ name ∈ p.pieces, c ∈ name.toList := by simp [pieces]
    rw [hpieces]
    obtain ⟨first, rest, hfirst⟩ := List.exists_cons_of_ne_nil p.pieces_ne_nil
    have hproper : ∀ name : String, c ∈ name.toList → isProper name = true := by
      intro name hc
      simp only [isProper, Bool.and_eq_true, bne_iff_ne]
      constructor
      · rintro rfl
        simp at hc
      · rintro rfl
        exact hdot (by simpa using hc)
    have hrest : (∃ name ∈ rest.filter isProper, c ∈ name.toList) ↔
        ∃ name ∈ rest, c ∈ name.toList := by
      simp only [List.mem_filter]
      constructor
      · rintro ⟨name, ⟨hname, -⟩, hc⟩
        exact ⟨name, hname, hc⟩
      · rintro ⟨name, hname, hc⟩
        exact ⟨name, ⟨hname, hproper name hc⟩, hc⟩
    simp only [hfirst, tidy, List.mem_cons, exists_eq_or_imp, hrest]
    by_cases hempty : first = "" <;> simp [hempty, hslash]

end Path

/-! ## Walks -/

namespace Disk

open LocalCloud.Path (isProper)

variable {root : FileNode} {follow : Bool} {links : Nat} {here names rest : List String}
  {name file : String}

theorem walk_of_not_directory (hhere : ∀ entries, root.at? here ≠ some (.directory entries))
    (hne : names ≠ []) : walk root follow links here names = .error .notADirectory := by
  obtain ⟨name, rest, rfl⟩ := List.exists_cons_of_ne_nil hne
  rw [walk]
  split
  · next entries heq => exact absurd heq (hhere entries)
  · rfl

theorem walk_cons_of_directory {entries : FileNode.Entries}
    (hhere : root.at? here = some (.directory entries)) :
    walk root follow links here (name :: rest) =
      if name = "" ∨ name = "." then walk root follow links here rest
      else if name = ".." then walk root follow links here.dropLast rest
      else if nameLimit < name.utf8ByteSize then .error .nameTooLong
      else
        match entries.lookup name with
        | none => if rest = [] then .ok (.free (here ++ [name])) else .error .notFound
        | some (.link target) =>
          if rest = [] ∧ follow = false then .ok (.taken (here ++ [name]) (.link target))
          else
            match links with
            | 0 => .error .tooManyLinks
            | links + 1 =>
              walk root follow links (if Text.startsWith "/" target then [] else here)
                (Disk.names target ++ rest)
        | some _ => walk root follow links (here ++ [name]) rest := by
  rw [walk]
  split
  · next found heq =>
    obtain rfl : entries = found := by simpa [hhere] using heq
    rfl
  · next hnone => exact absurd hhere (hnone entries)

/-- Two walks that have a name before them go on to the same place, with this name too. -/
theorem walk_cons_congr {rest' : List String} (hne : rest ≠ []) (hne' : rest' ≠ [])
    (hrest : ∀ here, walk root follow links here rest = walk root follow links here rest')
    (hlinks : ∀ fewer < links, ∀ here target,
      walk root follow fewer here (Disk.names target ++ rest) =
        walk root follow fewer here (Disk.names target ++ rest')) :
    walk root follow links here (name :: rest) = walk root follow links here (name :: rest') := by
  by_cases hhere : ∃ entries, root.at? here = some (.directory entries)
  · obtain ⟨entries, hhere⟩ := hhere
    rw [walk_cons_of_directory hhere, walk_cons_of_directory hhere]
    simp only [hrest, hne, hne', false_and, if_false]
    cases links with
    | zero => rfl
    | succ fewer => simp only [hlinks fewer (Nat.lt_succ_self fewer)]
  · push Not at hhere
    rw [walk_of_not_directory hhere (List.cons_ne_nil _ _),
      walk_of_not_directory hhere (List.cons_ne_nil _ _)]

/-- A name that leads nowhere can be left out. -/
theorem walk_cons_of_not_isProper (hname : isProper name = false) (hne : rest ≠ []) :
    walk root follow links here (name :: rest) = walk root follow links here rest := by
  by_cases hhere : ∃ entries, root.at? here = some (.directory entries)
  · obtain ⟨entries, hhere⟩ := hhere
    have hidle : name = "" ∨ name = "." := by
      simpa [isProper, or_iff_not_imp_left] using hname
    rw [walk_cons_of_directory hhere, if_pos hidle]
  · push Not at hhere
    rw [walk_of_not_directory hhere (List.cons_ne_nil _ _), walk_of_not_directory hhere hne]

/-- All names that lead nowhere can be left out, but for the last one.  A link that is followed
begins a walk of its own, with its names before those that are left and one link fewer to follow:
the induction is on the links first and on the names then. -/
theorem walk_filter (names : List String) (file : String) :
    walk root follow links here (names ++ [file]) =
      walk root follow links here (names.filter isProper ++ [file]) := by
  induction links using Nat.strongRecOn generalizing here names with
  | ind links ihlinks =>
    induction names generalizing here with
    | nil => rfl
    | cons name rest ih =>
      by_cases hname : isProper name = true
      · rw [List.filter_cons_of_pos hname, List.cons_append, List.cons_append]
        refine walk_cons_congr (by simp) (by simp) (fun here => ih) ?_
        intro fewer hfewer here target
        rw [← List.append_assoc, ← List.append_assoc, ihlinks fewer hfewer, List.filter_append,
          ihlinks fewer hfewer (Disk.names target ++ rest.filter isProper), List.filter_append,
          List.filter_filter]
        simp only [Bool.and_self]
      · rw [List.filter_cons_of_neg hname, List.cons_append,
          walk_cons_of_not_isProper (by simpa using hname) (by simp), ih]

/-! ## What a spelling leads to -/

variable {d : Disk} {dir dir' : Path}

/-- The names on the way to a directory. -/
def way (dir : Path) : List String := dir.components.filter fun name => name != "/" && name != "."

theorem filter_isProper_eq {front : List String} (hne : front ≠ []) (hslash : "/" ∉ front) :
    front.filter isProper = (Path.tidy front).filter fun name => name != "/" && name != "." := by
  obtain ⟨first, rest, rfl⟩ := List.exists_cons_of_ne_nil hne
  rw [List.mem_cons, not_or] at hslash
  have hrest : (rest.filter isProper).filter (fun name => name != "/" && name != ".") =
      rest.filter isProper := by
    refine List.filter_eq_self.2 fun name hname => ?_
    obtain ⟨hmem, hproper⟩ := List.mem_filter.1 hname
    have hne : name ≠ "/" := fun heq => hslash.2 (heq ▸ hmem)
    simp only [isProper, Bool.and_eq_true, bne_iff_ne] at hproper ⊢
    exact ⟨hne, hproper.2⟩
  by_cases hempty : first = ""
  · simp [Path.tidy, hempty, hrest, isProper]
  · have hfirst : first ≠ "/" := Ne.symm hslash.1
    by_cases hdot : first = "." <;>
      simp [Path.tidy, List.filter_cons, hempty, hdot, hfirst, hrest, isProper]

theorem startsWith_slash_of_not_mem (hfile : '/' ∉ file.toList) :
    Text.startsWith "/" file = false := by
  by_contra hstarts
  obtain ⟨rest, hrest⟩ := Text.startsWith_slash_iff.1 (by simpa using hstarts)
  exact hfile (hrest ▸ List.mem_cons_self)

/-- The walk to a file in a directory that has a name at all. -/
theorem walk_names_join (hdir : dir.text ≠ "") (hfile : '/' ∉ file.toList) :
    walk root follow links here (Disk.names (dir.join file).text) =
      walk root follow links here (way dir ++ [file]) := by
  have hpieces : (Path.mk file).pieces = [file] := by
    simp [Path.pieces, Text.splitAll_of_not_mem hfile]
  obtain ⟨front, hne, hjoin, hfront⟩ :=
    Path.exists_pieces_join hdir (startsWith_slash_of_not_mem hfile)
  have hnames : Disk.names (dir.join file).text = front ++ [file] := hpieces ▸ hjoin
  have hslash : "/" ∉ front := by
    intro hmem
    refine dir.slash_not_mem_pieces ?_
    rcases hfront with hfront | hfront <;> simp [hfront, hmem]
  have hway : front.filter isProper = way dir := by
    rw [way, Path.components_of_ne_empty hdir, filter_isProper_eq hne hslash]
    rcases hfront with hfront | hfront
    · rw [hfront]
    · rw [hfront, Path.tidy_append hne]
      simp [isProper]
  rw [hnames, walk_filter, hway]

/-- What a file name leads to, seen from a directory whose path is neither empty nor too long. -/
theorem node_join_of_walk (hdir : dir.isAbsolute = true)
    (hnul : '\x00' ∉ (dir.join file).text.toList)
    (hfile : '/' ∉ file.toList) (hfits : (dir.join file).text.utf8ByteSize ≤ pathLimit)
    {node : FileNode}
    (h : walk d.root true linkLimit [] (way dir ++ [file]) = .ok (.taken names node)) :
    d.node (dir.join file) = .ok node := by
  have hne : dir.text ≠ "" := by
    intro hempty
    rw [Path.isAbsolute_iff, Path.components_eq_nil_iff.2 hempty] at hdir
    contradiction
  have hrel := startsWith_slash_of_not_mem hfile
  have habsolute : (dir.join file).isAbsolute = true := by
    rw [Path.isAbsolute_iff] at hdir ⊢
    rw [Path.components_join hne hrel, List.head?_append, hdir]
    rfl
  have hlocate : d.locate true (dir.join file) = .ok (.taken names node) := by
    rw [locate, if_neg (Path.text_join_ne_empty hne hrel), if_neg (by simpa using hnul),
      if_neg (Nat.not_lt.2 hfits), if_pos habsolute, walk_names_join hne hfile, h]
  rw [Disk.node, hlocate]

/-- From two spellings of a directory a name leads to the same thing, unless a path is too long. -/
theorem node_join_congr (h : dir.same dir' = true) (hfile : '/' ∉ file.toList)
    (hfits : (dir.join file).text.utf8ByteSize ≤ pathLimit)
    (hfits' : (dir'.join file).text.utf8ByteSize ≤ pathLimit) :
    d.node (dir.join file) = d.node (dir'.join file) := by
  by_cases hdir : dir.text = ""
  · have heq : dir.join file = dir'.join file := by
      simp [Path.join, hdir, (Path.text_eq_empty_iff_of_same h).1 hdir]
    rw [heq]
  · have hdir' : dir'.text ≠ "" := mt (Path.text_eq_empty_iff_of_same h).2 hdir
    have hrel := startsWith_slash_of_not_mem hfile
    have hsame := Path.same_iff.1 (Path.same_join h file)
    have hnul : (dir.join file).text.contains '\x00' = (dir'.join file).text.contains '\x00' := by
      have hslash : '\x00' ≠ '/' := by decide
      have hdot : '\x00' ≠ '.' := by decide
      rw [String.contains_char_eq, String.contains_char_eq, decide_eq_decide,
        ← Path.mem_components_iff hslash hdot, ← Path.mem_components_iff hslash hdot, hsame]
    have habsolute : (dir.join file).isAbsolute = (dir'.join file).isAbsolute := by
      rw [Bool.eq_iff_iff, Path.isAbsolute_iff, Path.isAbsolute_iff, hsame]
    have hway : way dir = way dir' := by rw [way, way, Path.same_iff.1 h]
    have hlocate : d.locate true (dir.join file) = d.locate true (dir'.join file) := by
      simp only [locate, Path.text_join_ne_empty hdir hrel, Path.text_join_ne_empty hdir' hrel,
        hnul, habsolute, if_neg (Nat.not_lt.2 hfits), if_neg (Nat.not_lt.2 hfits'), if_false,
        walk_names_join hdir hfile, walk_names_join hdir' hfile, hway]
    rw [node, node, hlocate]

/-- Nothing is found under a path that is too long. -/
theorem fits_of_locate {path : Path} {place : Place} (h : d.locate follow path = .ok place) :
    path.text.utf8ByteSize ≤ pathLimit := by
  unfold locate at h
  split at h
  · contradiction
  split at h
  · contradiction
  split at h
  · contradiction
  · next hfits => exact Nat.not_lt.1 hfits

theorem fits_of_node {path : Path} {node : FileNode} (h : d.node path = .ok node) :
    path.text.utf8ByteSize ≤ pathLimit := by
  cases hlocate : d.locate true path with
  | ok place => exact fits_of_locate hlocate
  | error fault =>
    rw [Disk.node, hlocate] at h
    contradiction

end Disk

end LocalCloud
