import LocalCloud.Proofs.Text.Joining
import Mathlib.Data.List.Chain

/-!
# Texts with placeholders

A key stands in a text as a placeholder `${key}`, and the placeholders of some keys are to be filled
with values.  They are filled all at once when the text is read once from left to right and what is
put in is not looked at again (`parts`, `fillAll`).

They can also be filled one key after another, each time in all the text that has come of the keys
before.  That is the same, in any order of the keys, when the keys stay apart in the text (`Apart`,
`Apart.foldl_replaceAll`): whichever keys have been filled, each of the others is found at its own
places and nowhere else.  Keys do stay apart as long as no dollar sign is filled in and none of those
in the text stands where a value could complete a placeholder (`Plain.apart`).
-/

namespace LocalCloud.Text

/-- How a key is written where its value is to stand. -/
def placeholder (key : String) : List Char := '$' :: '\x7b' :: key.toList ++ ['\x7d']

/-- A part of a text in which keys are to be filled. -/
inductive Part where
  /-- A character that stands for itself. -/
  | letter (c : Char)
  /-- The place of a key. -/
  | place (key : String)
  deriving DecidableEq

/-- The parts of a text from left to right, some keys being looked for. -/
def parts (keys : List String) : List Char → List Part
  | [] => []
  | c :: text =>
    match keys.find? fun key => (placeholder key).isPrefixOf (c :: text) with
    | some key => .place key :: parts keys ((c :: text).drop (placeholder key).length)
    | none => .letter c :: parts keys text
termination_by text => text.length
decreasing_by
  · simp only [placeholder, List.cons_append, List.length_cons, List.drop_succ_cons,
      List.length_drop]
    omega
  · simp

/-- How a part is written when the keys with a value are filled. -/
def Part.text (values : List (String × String)) : Part → List Char
  | letter c => [c]
  | place key => (values.lookup key).elim (placeholder key) String.toList

/-- How parts are written when the keys with a value are filled. -/
def written (values : List (String × String)) (parts : List Part) : List Char :=
  parts.flatMap (Part.text values)

/-- The text with all placeholders of the keys filled at once. -/
def fillAll (values : List (String × String)) (text : String) : String :=
  String.ofList (written values (parts (values.map (·.1)) text.toList))

/-- What is found of a part in a text in which some keys have been filled and another one is looked
for. -/
def Part.found (values : List (String × String)) (key : String) (part : Part) : List Part :=
  if part = place key then [place key] else (part.text values).map letter

/-- The keys stay apart in a text: whichever of them have been filled, each of the others is found
at its own places and nowhere else. -/
def Apart (values : List (String × String)) (text : List Char) : Prop :=
  ∀ filled ⊆ values, ∀ key ∈ values.map (·.1), key ∉ filled.map (·.1) →
    parts [key] (written filled (parts (values.map (·.1)) text)) =
      (parts (values.map (·.1)) text).flatMap (Part.found filled key)

/-! ## Replacing a mark -/

section Replacing

variable {mark value text rest : List Char} {c : Char}

theorem replaceAll_of_cut?_none (hmark : mark ≠ []) (h : cut? mark text = none) :
    replaceAll mark value text = text := by
  rw [replaceAll, dif_neg hmark]
  split
  · rfl
  · next hcut =>
    rw [h] at hcut
    contradiction

theorem replaceAll_of_cut?_some {before : List Char} (hmark : mark ≠ [])
    (h : cut? mark text = some (before, rest)) :
    replaceAll mark value text = before ++ value ++ replaceAll mark value rest := by
  rw [replaceAll, dif_neg hmark]
  split
  · next hcut =>
    rw [h] at hcut
    contradiction
  · next hcut =>
    rw [h] at hcut
    obtain ⟨rfl, rfl⟩ := Prod.mk.inj (Option.some.inj hcut)
    rfl

theorem replaceAll_nil (hmark : mark ≠ []) : replaceAll mark value [] = [] :=
  replaceAll_of_cut?_none hmark (by rw [cut?, if_neg hmark])

/-- Where the mark stands, the value is put in. -/
theorem replaceAll_append (hmark : mark ≠ []) :
    replaceAll mark value (mark ++ rest) = value ++ replaceAll mark value rest := by
  have hcut : cut? mark (mark ++ rest) = some ([], rest) := by
    obtain ⟨c, mark, rfl⟩ := List.exists_cons_of_ne_nil hmark
    rw [List.cons_append, cut?, ← List.cons_append, dropHead?_append]
  exact replaceAll_of_cut?_some hmark hcut

/-- Where it does not stand, the character stays. -/
theorem replaceAll_cons (hmark : mark ≠ []) (h : ¬ mark <+: c :: text) :
    replaceAll mark value (c :: text) = c :: replaceAll mark value text := by
  have hhead : dropHead? mark (c :: text) = none := by
    cases hdrop : dropHead? mark (c :: text) with
    | none => rfl
    | some rest => exact absurd ⟨rest, (eq_of_dropHead? hdrop).symm⟩ h
  have hcut : cut? mark (c :: text) =
      (cut? mark text).map fun pieces => (c :: pieces.1, pieces.2) := by
    rw [cut?, hhead]
  cases htext : cut? mark text with
  | none =>
    rw [htext] at hcut
    rw [replaceAll_of_cut?_none hmark hcut, replaceAll_of_cut?_none hmark htext]
  | some pieces =>
    rw [htext] at hcut
    rw [replaceAll_of_cut?_some hmark hcut, replaceAll_of_cut?_some hmark htext]
    rfl

end Replacing

/-! ## Reading a text -/

section Reading

variable {keys : List String} {key : String} {text rest : List Char} {c : Char}

theorem placeholder_ne_nil (key : String) : placeholder key ≠ [] := List.cons_ne_nil _ _

theorem exists_of_find?_eq_some
    (h : keys.find? (fun key => (placeholder key).isPrefixOf text) = some key) :
    key ∈ keys ∧ ∃ rest, text = placeholder key ++ rest := by
  obtain ⟨rest, hrest⟩ := List.isPrefixOf_iff_prefix.1 (List.find?_eq_some_iff_append.1 h).1
  exact ⟨List.mem_of_find?_eq_some h, rest, hrest.symm⟩

theorem find?_eq_none_iff : keys.find? (fun key => (placeholder key).isPrefixOf text) = none ↔
    ∀ key ∈ keys, ¬ placeholder key <+: text := by
  simp only [List.find?_eq_none, List.isPrefixOf_iff_prefix]

theorem parts_letter (h : ∀ key ∈ keys, ¬ placeholder key <+: c :: text) :
    parts keys (c :: text) = .letter c :: parts keys text := by
  rw [parts, find?_eq_none_iff.2 h]

theorem parts_placeholder (key : String) (rest : List Char) :
    parts [key] (placeholder key ++ rest) = .place key :: parts [key] rest := by
  have hsome : [key].find? (fun key' => (placeholder key').isPrefixOf (placeholder key ++ rest)) =
      some key :=
    List.find?_cons_of_pos (List.isPrefixOf_iff_prefix.2 (List.prefix_append _ _))
  have hdrop : (placeholder key ++ rest).drop (placeholder key).length = rest := List.drop_left
  obtain ⟨c, text, htext⟩ := List.exists_cons_of_ne_nil
    (List.append_ne_nil_of_left_ne_nil (placeholder_ne_nil key) rest)
  rw [htext] at hsome hdrop ⊢
  rw [parts, hsome]
  exact congrArg (fun rest => Part.place key :: parts [key] rest) hdrop

/-- Reading loses nothing. -/
theorem written_parts (keys : List String) (text : List Char) :
    written [] (parts keys text) = text := by
  fun_induction parts keys text with
  | case1 => rfl
  | case2 c text key hkey ih =>
    obtain ⟨-, rest, hrest⟩ := exists_of_find?_eq_some hkey
    rw [hrest, List.drop_left] at ih ⊢
    exact congrArg (placeholder key ++ ·) ih
  | case3 c text _ ih => exact congrArg (c :: ·) ih

theorem mem_of_place_mem (h : .place key ∈ parts keys text) : key ∈ keys := by
  fun_induction parts keys text with
  | case1 => simp at h
  | case2 c text key' hkey ih =>
    rcases List.mem_cons.1 h with heq | h
    · obtain rfl := Part.place.inj heq
      exact (exists_of_find?_eq_some hkey).1
    · exact ih h
  | case3 c text _ ih => exact ih (by simpa using h)

/-- Replacing a placeholder is filling its key. -/
theorem replaceAll_placeholder (key value : String) (text : List Char) :
    replaceAll (placeholder key) value.toList text = written [(key, value)] (parts [key] text) := by
  have hne := placeholder_ne_nil key
  fun_induction parts [key] text with
  | case1 => exact replaceAll_nil hne
  | case2 c text key' hkey ih =>
    obtain ⟨hmem, rest, hrest⟩ := exists_of_find?_eq_some hkey
    obtain rfl := List.mem_singleton.1 hmem
    rw [hrest, List.drop_left] at ih ⊢
    rw [replaceAll_append hne, ih]
    simp [written, Part.text]
  | case3 c text hkey ih =>
    rw [replaceAll_cons hne (find?_eq_none_iff.1 hkey key List.mem_cons_self), ih]
    rfl

end Reading

/-! ## One key after another -/

section Filling

variable {values filled rest : List (String × String)} {key value : String} {text : List Char}

theorem written_congr (h : ∀ key, values.lookup key = filled.lookup key) (ps : List Part) :
    written values ps = written filled ps := by
  refine List.flatMap_congr fun part _ => ?_
  cases part with
  | letter c => rfl
  | place key => rw [Part.text, Part.text, h]

theorem written_letters (letters : List Char) : written values (letters.map .letter) = letters := by
  rw [written, List.flatMap_map]
  exact List.flatMap_singleton' letters

/-- Filling what has been found of a part. -/
theorem written_found (part : Part) :
    written [(key, value)] (part.found filled key) = part.text ((key, value) :: filled) := by
  rw [Part.found]
  cases part with
  | letter c => rfl
  | place key' =>
    by_cases hkey : key' = key
    · subst hkey
      simp [written, Part.text]
    · have hne : Part.place key' ≠ .place key := fun h => hkey (Part.place.inj h)
      rw [if_neg hne, written_letters, Part.text, Part.text, List.lookup_cons, beq_false_of_ne hkey]

/-- Filling one more key. -/
theorem Apart.replaceAll_written (h : Apart values text) (hfilled : filled ⊆ values)
    (hkey : key ∈ values.map (·.1)) (hnew : key ∉ filled.map (·.1)) :
    replaceAll (placeholder key) value.toList (written filled (parts (values.map (·.1)) text)) =
      written ((key, value) :: filled) (parts (values.map (·.1)) text) := by
  rw [replaceAll_placeholder, h filled hfilled key hkey hnew, written, List.flatMap_assoc]
  exact List.flatMap_congr fun part _ => written_found part

/-- Filling keys one after another fills them all. -/
theorem Apart.foldl_replaceAll (h : Apart values text) (hvalues : rest.reverse ++ filled ⊆ values)
    (hnodup : ((rest.reverse ++ filled).map (·.1)).Nodup) :
    rest.foldl (fun text kv => replaceAll (placeholder kv.1) kv.2.toList text)
        (written filled (parts (values.map (·.1)) text)) =
      written (rest.reverse ++ filled) (parts (values.map (·.1)) text) := by
  induction rest generalizing filled with
  | nil => rfl
  | cons first rest ih =>
    obtain ⟨key, value⟩ := first
    -- a key that has been filled moves over to those in front, where it is looked up from now on
    rw [List.reverse_cons, List.append_assoc, List.singleton_append] at hvalues hnodup ⊢
    have hmem : (key, value) ∈ rest.reverse ++ (key, value) :: filled :=
      List.mem_append_right _ List.mem_cons_self
    have hfilled : filled ⊆ values := fun kv hkv =>
      hvalues (List.mem_append_right _ (List.mem_cons_of_mem _ hkv))
    have hnew : key ∉ filled.map (·.1) := by
      rw [List.map_append, List.map_cons] at hnodup
      exact (List.nodup_cons.1 (List.nodup_append.1 hnodup).2.1).1
    rw [List.foldl_cons, h.replaceAll_written hfilled (List.mem_map_of_mem (hvalues hmem)) hnew]
    exact ih hvalues hnodup

end Filling

/-! ## Keys that stay apart -/

/-- Whether a dollar sign that begins no placeholder stands before an opening brace or before what
could come to begin with one. -/
def Part.opens : Part → Part → Bool
  | letter '$', letter c => c == '\x7b'
  | letter '$', place _ => true
  | _, _ => false

/-- There is neither a dollar sign nor a closing brace in the key. -/
def PlainKey (key : String) : Prop := '$' ∉ key.toList ∧ '\x7d' ∉ key.toList

instance (key : String) : Decidable (PlainKey key) :=
  inferInstanceAs (Decidable ('$' ∉ key.toList ∧ '\x7d' ∉ key.toList))

/-- There is no dollar sign that could come to begin a placeholder: none in a key or a value, and
none in the text before an opening brace or a place. -/
structure Plain (values : List (String × String)) (text : List Char) : Prop where
  plainKeys : ∀ key ∈ values.map (·.1), PlainKey key
  plainValues : ∀ kv ∈ values, '$' ∉ kv.2.toList
  plainLetters : (parts (values.map (·.1)) text).IsChain
    fun first second => first.opens second = false

section Plain

variable {values filled : List (String × String)} {keys : List String} {key key' : String}
  {text front rest : List Char} {ps : List Part}

theorem parts_append (h : '$' ∉ front) :
    parts keys (front ++ rest) = front.map .letter ++ parts keys rest := by
  induction front with
  | nil => rfl
  | cons c front ih =>
    obtain ⟨hc, hfront⟩ := not_or.1 (mt List.mem_cons.2 h)
    rw [List.cons_append, parts_letter, ih hfront, List.map_cons, List.cons_append]
    intro key _ hprefix
    exact hc (List.cons_prefix_cons.1 hprefix).1

theorem eq_of_prefix_placeholder (hkey : PlainKey key) (hkey' : PlainKey key')
    (h : placeholder key <+: placeholder key' ++ rest) : key = key' := by
  obtain ⟨after, hafter⟩ := h
  have hsame : key.toList ++ '\x7d' :: after = key'.toList ++ '\x7d' :: rest := by
    simpa [placeholder] using hafter
  exact String.toList_inj.1 (append_mark_inj hkey.2 hkey'.2 hsame).1

/-- The placeholder of another key is made of letters. -/
theorem parts_other (hkey : PlainKey key) (hkey' : PlainKey key') (hne : key' ≠ key) :
    parts [key] (placeholder key' ++ rest) = (placeholder key').map .letter ++ parts [key] rest := by
  have hbehind : '$' ∉ '\x7b' :: key'.toList ++ ['\x7d'] := by simp [hkey'.1]
  have hfirst : ∀ other ∈ [key], ¬ placeholder other <+: placeholder key' ++ rest := by
    intro other hother hprefix
    obtain rfl := List.mem_singleton.1 hother
    exact hne (eq_of_prefix_placeholder hkey hkey' hprefix).symm
  exact (parts_letter hfirst).trans (congrArg (Part.letter '$' :: ·) (parts_append hbehind))

/-- No placeholder comes to begin at a letter. -/
theorem not_prefix_letter {c : Char}
    (h : (Part.letter c :: ps).IsChain fun first second => first.opens second = false) :
    ¬ placeholder key <+: c :: written filled ps := by
  intro hprefix
  obtain ⟨rfl, after, hafter⟩ := List.cons_prefix_cons.1 hprefix
  cases ps with
  | nil => simp [written] at hafter
  | cons second ps =>
    have hopens : (Part.letter '$').opens second = false := (List.isChain_cons_cons.1 h).1
    cases second with
    | letter d => exact beq_eq_false_iff_ne.1 hopens (List.cons.inj hafter).1.symm
    | place key' => contradiction

/-- A key that has not been filled is found at its own places. -/
theorem parts_written (hps : ps.IsChain fun first second => first.opens second = false)
    (hplaces : ∀ key, .place key ∈ ps → PlainKey key)
    (hvalues : ∀ kv ∈ filled, '$' ∉ kv.2.toList) (hkey : PlainKey key)
    (hnew : key ∉ filled.map (·.1)) :
    parts [key] (written filled ps) = ps.flatMap (Part.found filled key) := by
  induction ps with
  | nil => simp [written, parts]
  | cons part ps ih =>
    have hrest := ih hps.tail fun key hmem => hplaces key (List.mem_cons_of_mem _ hmem)
    rw [List.flatMap_cons, ← hrest]
    show parts [key] (part.text filled ++ written filled ps) = _
    cases part with
    | letter c =>
      refine parts_letter fun other hother => ?_
      exact not_prefix_letter hps
    | place key' =>
      rw [Part.text, Part.found]
      cases hlookup : filled.lookup key' with
      | none =>
        by_cases hsame : key' = key
        · subst hsame
          rw [if_pos rfl]
          exact parts_placeholder key' _
        · rw [if_neg fun h => hsame (Part.place.inj h), Part.text, hlookup]
          exact parts_other hkey (hplaces key' List.mem_cons_self) hsame
      | some value =>
        -- the value is free of dollar signs, so all of it is read before a place can come
        have hmem : (key', value) ∈ filled := by
          obtain ⟨before, after, rfl, -⟩ := List.lookup_eq_some_iff.1 hlookup
          exact List.mem_append_right _ List.mem_cons_self
        have hsame : key' ≠ key := by
          rintro rfl
          exact hnew (List.mem_map_of_mem hmem)
        rw [if_neg fun h => hsame (Part.place.inj h), Part.text, hlookup]
        exact parts_append (hvalues _ hmem)

theorem Plain.apart (h : Plain values text) : Apart values text := by
  intro filled hfilled key hkey hnew
  have hplaces : ∀ key, .place key ∈ parts (values.map (·.1)) text → PlainKey key :=
    fun key hmem => h.plainKeys key (mem_of_place_mem hmem)
  exact parts_written h.plainLetters hplaces (fun kv hkv => h.plainValues kv (hfilled hkv))
    (h.plainKeys key hkey) hnew

end Plain

end LocalCloud.Text
