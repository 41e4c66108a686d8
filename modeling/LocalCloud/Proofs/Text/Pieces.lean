import LocalCloud.Proofs.Text.Joining
import Mathlib.Data.List.Basic

/-!
# The pieces of a text

What `splitAll` does to a text with a single character for a mark, said by recursion on the text
(`splitAll_cons`): so two texts with the mark between them have the pieces of the one and then those
of the other, and all characters but the mark stay.

Dividing and joining undo each other: the pieces of a text at any mark, joined by it, are the text
again (`joinWith_splitAll`), and pieces that are free of a character, joined by it, are found again
(`splitAll_joinWith`).
-/

namespace LocalCloud.Text

variable {mark c : Char} {text piece : List Char}

theorem cut?_cons (mark c : Char) (text : List Char) :
    cut? [mark] (c :: text) =
      if c = mark then some ([], text)
      else (cut? [mark] text).map fun (before, rest) => (c :: before, rest) := by
  rw [cut?]
  by_cases h : mark = c
  · simp [dropHead?, h]
  · simp [dropHead?, h, Ne.symm h]

theorem splitAll_of_cut?_none (h : cut? [mark] text = none) : splitAll [mark] text = [text] := by
  rw [splitAll, dif_neg (List.cons_ne_nil _ _)]
  split
  · rfl
  · next heq =>
    rw [h] at heq
    contradiction

theorem splitAll_of_cut?_some {before rest : List Char}
    (h : cut? [mark] text = some (before, rest)) :
    splitAll [mark] text = before :: splitAll [mark] rest := by
  rw [splitAll, dif_neg (List.cons_ne_nil _ _)]
  split
  · next heq =>
    rw [h] at heq
    contradiction
  · next heq =>
    rw [h] at heq
    obtain ⟨rfl, rfl⟩ := Prod.mk.inj (Option.some.inj heq)
    rfl

theorem splitAll_nil (mark : Char) : splitAll [mark] [] = [[]] :=
  splitAll_of_cut?_none (by simp [cut?])

/-- A mark begins a new piece, any other character goes into the first one. -/
theorem splitAll_cons (mark c : Char) (text : List Char) :
    splitAll [mark] (c :: text) =
      if c = mark then [] :: splitAll [mark] text
      else (splitAll [mark] text).modifyHead (c :: ·) := by
  have hcut := cut?_cons mark c text
  by_cases h : c = mark
  · rw [if_pos h] at hcut ⊢
    exact splitAll_of_cut?_some hcut
  · rw [if_neg h] at hcut ⊢
    cases htext : cut? [mark] text with
    | none =>
      rw [htext] at hcut
      rw [splitAll_of_cut?_none hcut, splitAll_of_cut?_none htext]
      rfl
    | some pieces =>
      rw [htext] at hcut
      rw [splitAll_of_cut?_some hcut, splitAll_of_cut?_some htext]
      rfl

theorem splitAll_ne_nil (mark text : List Char) : splitAll mark text ≠ [] := by
  rw [splitAll]
  split
  · exact List.cons_ne_nil _ _
  · split <;> exact List.cons_ne_nil _ _

/-- The pieces of two texts with a mark between them. -/
theorem splitAll_append_cons (mark : Char) (before after : List Char) :
    splitAll [mark] (before ++ mark :: after) =
      splitAll [mark] before ++ splitAll [mark] after := by
  induction before with
  | nil => simp [splitAll_nil, splitAll_cons]
  | cons c before ih =>
    rw [List.cons_append, splitAll_cons, splitAll_cons, ih]
    split
    · rfl
    · obtain ⟨first, rest, hfirst⟩ := List.exists_cons_of_ne_nil (splitAll_ne_nil [mark] before)
      rw [hfirst]
      rfl

theorem splitAll_of_not_mem (h : mark ∉ text) : splitAll [mark] text = [text] := by
  induction text with
  | nil => exact splitAll_nil mark
  | cons c text ih =>
    rw [List.mem_cons, not_or] at h
    rw [splitAll_cons, if_neg (Ne.symm h.1), ih h.2]
    rfl

/-- A piece is free of the mark. -/
theorem not_mem_of_mem_splitAll (h : piece ∈ splitAll [mark] text) : mark ∉ piece := by
  induction text generalizing piece with
  | nil => simp_all [splitAll_nil]
  | cons c text ih =>
    rw [splitAll_cons] at h
    split at h
    · rcases List.mem_cons.1 h with rfl | h
      · exact List.not_mem_nil
      · exact ih h
    · next hc =>
      obtain ⟨first, rest, hfirst⟩ := List.exists_cons_of_ne_nil (splitAll_ne_nil [mark] text)
      rw [hfirst, List.modifyHead_cons] at h
      rcases List.mem_cons.1 h with rfl | h
      · have hmark : mark ∉ first := ih (hfirst ▸ List.mem_cons_self)
        simp [Ne.symm hc, hmark]
      · exact ih (hfirst ▸ List.mem_cons_of_mem _ h)

/-- All characters but the marks are in the pieces. -/
theorem mem_splitAll_iff (hc : c ≠ mark) :
    (∃ piece ∈ splitAll [mark] text, c ∈ piece) ↔ c ∈ text := by
  induction text with
  | nil => simp [splitAll_nil]
  | cons x text ih =>
    rw [splitAll_cons, List.mem_cons, ← ih]
    split
    · next hx => simp [hx, hc]
    · obtain ⟨first, rest, hfirst⟩ := List.exists_cons_of_ne_nil (splitAll_ne_nil [mark] text)
      simp only [hfirst, List.modifyHead_cons, List.mem_cons, exists_eq_or_imp, or_assoc]

/-! ## Pieces that are joined again -/

/-- The pieces of a text, joined by the mark at which it was divided, are the text again. -/
theorem joinWith_splitAll (mark text : List Char) : joinWith mark (splitAll mark text) = text := by
  fun_induction splitAll mark text with
  | case1 text => rfl
  | case2 text hmark hcut => rfl
  | case3 text hmark before rest hcut _ ih =>
    obtain ⟨first, others, hpieces⟩ := List.exists_cons_of_ne_nil (splitAll_ne_nil mark rest)
    rw [hpieces, joinWith_cons_cons, ← hpieces, ih]
    exact (eq_of_cut? hcut).symm

/-- Pieces that are free of a mark, joined by it, are found again. -/
theorem splitAll_joinWith {pieces : List (List Char)} (hne : pieces ≠ [])
    (hfree : ∀ piece ∈ pieces, mark ∉ piece) :
    splitAll [mark] (joinWith [mark] pieces) = pieces := by
  induction pieces with
  | nil => contradiction
  | cons first rest ih =>
    obtain ⟨hfirst, hrest⟩ := List.forall_mem_cons.1 hfree
    cases rest with
    | nil => exact splitAll_of_not_mem hfirst
    | cons second rest =>
      rw [joinWith_cons_cons, List.append_assoc, List.singleton_append, splitAll_append_cons,
        splitAll_of_not_mem hfirst, ih (List.cons_ne_nil _ _) hrest, List.singleton_append]

theorem join_splitAll (mark text : String) :
    join mark ((splitAll mark.toList text.toList).map String.ofList) = text := by
  rw [join, List.map_map]
  simp [Function.comp_def, joinWith_splitAll]

theorem splitAll_join {texts : List String} (hne : texts ≠ [])
    (hfree : ∀ text ∈ texts, mark ∉ text.toList) :
    (splitAll [mark] (join (String.singleton mark) texts).toList).map String.ofList = texts := by
  have hpieces : splitAll [mark] (joinWith [mark] (texts.map String.toList)) =
      texts.map String.toList :=
    splitAll_joinWith (by simpa using hne) (by simpa using hfree)
  rw [join, String.toList_ofList, String.toList_singleton, hpieces, List.map_map]
  simp [Function.comp_def]

end LocalCloud.Text
