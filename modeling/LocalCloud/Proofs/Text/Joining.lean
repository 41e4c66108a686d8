import LocalCloud.Text.Cut
import Mathlib.Data.List.Infix

/-!
# Texts that are put together

A text starts and ends with what it was put together from (`startsWith_append`, `endsWith_append`),
and joined texts hold each of their parts unbroken (`infix_joinWith`, `infix_joinWith_mark`).  What
a text holds is still there in one of its pieces, unless a mark can stand in it (`exists_piece`).
-/

namespace LocalCloud.Text

theorem dropHead?_append (head rest : List Char) : dropHead? head (head ++ rest) = some rest := by
  induction head with
  | nil => rfl
  | cons c head ih => simp [dropHead?, ih]

theorem startsWith_append (head rest : String) : startsWith head (head ++ rest) = true := by
  rw [startsWith, String.toList_append, dropHead?_append]
  rfl

theorem endsWith_append (front tail : String) : endsWith tail (front ++ tail) = true := by
  rw [endsWith, dropTail?, String.toList_append, List.reverse_append, dropHead?_append]
  rfl

theorem startsWith_iff {head text : String} :
    startsWith head text = true ↔ ∃ rest, text = head ++ rest := by
  constructor
  · intro h
    obtain ⟨rest, hrest⟩ := Option.isSome_iff_exists.1 h
    refine ⟨String.ofList rest, String.toList_inj.1 ?_⟩
    rw [String.toList_append, String.toList_ofList]
    exact eq_of_dropHead? hrest
  · rintro ⟨rest, rfl⟩
    exact startsWith_append head rest

theorem exists_of_endsWith {tail text : String} (h : endsWith tail text = true) :
    ∃ front, text = front ++ tail := by
  obtain ⟨front, hfront⟩ := Option.isSome_iff_exists.1 h
  refine ⟨String.ofList front, String.toList_inj.1 ?_⟩
  rw [String.toList_append, String.toList_ofList]
  exact eq_of_dropTail? hfront

theorem endsWith_iff {tail text : String} :
    endsWith tail text = true ↔ ∃ front, text = front ++ tail :=
  ⟨exists_of_endsWith, fun ⟨front, h⟩ => h ▸ endsWith_append front tail⟩

/-! ## Joined texts -/

variable {mark piece : List Char} {pieces : List (List Char)}

theorem joinWith_cons_cons (mark first second : List Char) (pieces : List (List Char)) :
    joinWith mark (first :: second :: pieces) =
      first ++ mark ++ joinWith mark (second :: pieces) := rfl

theorem joinWith_nil (pieces : List (List Char)) : joinWith [] pieces = pieces.flatten := by
  induction pieces with
  | nil => rfl
  | cons first rest ih =>
    cases rest with
    | nil => simp [joinWith]
    | cons second rest => rw [joinWith_cons_cons, ih, List.append_nil, ← List.flatten_cons]

/-- Each of the joined texts stands in the whole, unbroken. -/
theorem infix_joinWith (h : piece ∈ pieces) : piece <:+: joinWith mark pieces := by
  induction pieces with
  | nil => simp at h
  | cons first rest ih =>
    cases rest with
    | nil =>
      obtain rfl := List.mem_singleton.1 h
      exact List.infix_refl _
    | cons second rest =>
      rw [joinWith_cons_cons, List.append_assoc]
      rcases List.mem_cons.1 h with rfl | h
      · exact (List.prefix_append _ _).isInfix
      · exact (ih h).trans ((List.suffix_append _ _).isInfix.trans (List.suffix_append _ _).isInfix)

/-- So does what is put between two of them. -/
theorem infix_joinWith_mark {first second : List Char} :
    mark <:+: joinWith mark (first :: second :: pieces) := by
  rw [joinWith_cons_cons]
  exact List.infix_append _ _ _

/-- Texts joined without a mark are written one after another. -/
theorem join_empty_append (texts : List String) (last : String) :
    join "" (texts ++ [last]) = join "" texts ++ last := by
  refine String.toList_inj.1 ?_
  rw [String.toList_append, join, join, String.toList_ofList]
  have hmark : "".toList = [] := rfl
  simp [hmark, joinWith_nil]

/-! ## Texts that are taken apart -/

/-- What stands before the first mark is known from the whole, and so is what stands behind it. -/
theorem append_mark_inj {α : Type} {mark : α} {before before' after after' : List α}
    (h : mark ∉ before) (h' : mark ∉ before')
    (hsame : before ++ mark :: after = before' ++ mark :: after') :
    before = before' ∧ after = after' := by
  rcases List.append_eq_append_iff.1 hsame with ⟨between, rfl, hafter⟩ | ⟨between, rfl, hafter⟩
  all_goals
    cases between with
    | nil => exact ⟨by simp, by simpa [eq_comm] using hafter⟩
    | cons first _ =>
      obtain ⟨rfl, -⟩ := List.cons.inj hafter
      simp at h h'

section Pieces

variable {name before after : List Char}

/-- A text that is free of a mark does not reach from the front into it. -/
theorem prefix_of_prefix_mark (hmark : mark ≠ []) (hfree : ∀ c ∈ mark, c ∉ name)
    (h : name <+: before ++ (mark ++ after)) : name <+: before := by
  rcases List.prefix_or_prefix_of_prefix h (List.prefix_append _ _) with hname | ⟨rest, rfl⟩
  · exact hname
  · obtain ⟨c, mark, rfl⟩ := List.exists_cons_of_ne_nil hmark
    rw [List.prefix_append_right_inj, List.cons_append, List.prefix_cons_iff] at h
    rcases h with rfl | ⟨rest, rfl, -⟩
    · rw [List.append_nil]
    · exact absurd (List.mem_append_right _ List.mem_cons_self) (hfree c List.mem_cons_self)

/-- What is free of a mark and stands in a text stands on one side of it. -/
theorem infix_of_infix_mark (hmark : mark ≠ []) (hfree : ∀ c ∈ mark, c ∉ name)
    (h : name <:+: before ++ (mark ++ after)) : name <:+: before ∨ name <:+: after := by
  induction before with
  | cons c before ih =>
    rcases List.infix_cons_iff.1 h with hname | hname
    · have hbefore : name <+: c :: before := prefix_of_prefix_mark hmark hfree hname
      exact .inl hbefore.isInfix
    · exact (ih hname).imp_left fun hname => hname.trans (List.suffix_cons _ _).isInfix
  | nil =>
    refine .inr ?_
    clear hmark
    induction mark with
    | nil => exact h
    | cons c mark ih =>
      obtain ⟨hc, hfree⟩ := List.forall_mem_cons.1 hfree
      rcases List.infix_cons_iff.1 h with hname | hname
      · rcases List.prefix_cons_iff.1 hname with rfl | ⟨rest, rfl, -⟩
        · exact List.nil_infix
        · exact absurd List.mem_cons_self hc
      · exact ih hfree hname

/-- What stands in a text and is free of the mark stands in a piece of the text. -/
theorem exists_piece {text : List Char} (hfree : ∀ c ∈ mark, c ∉ name) (h : name <:+: text) :
    ∃ piece ∈ splitAll mark text, name <:+: piece := by
  fun_induction splitAll mark text with
  | case1 text => exact ⟨text, List.mem_singleton.2 rfl, h⟩
  | case2 text hmark hcut => exact ⟨text, List.mem_singleton.2 rfl, h⟩
  | case3 text hmark before rest hcut _ ih =>
    rw [eq_of_cut? hcut, List.append_assoc] at h
    rcases infix_of_infix_mark hmark hfree h with h | h
    · exact ⟨before, List.mem_cons_self, h⟩
    · obtain ⟨piece, hpiece, h⟩ := ih h
      exact ⟨piece, List.mem_cons_of_mem _ hpiece, h⟩

end Pieces

end LocalCloud.Text
