/-!
# Ascending lists of names

A set of names is kept as the list of its members in ascending order, code point by code point,
each once.  Such a list is determined by its members alone, which is why every answer built from
one is the same however the set was collected.
-/

namespace LocalCloud.Ascending

/-- The list with a name put in at its place, unchanged if the name is there already. -/
def insert (name : String) : List String → List String
  | [] => [name]
  | head :: rest =>
    if name < head then name :: head :: rest
    else if name = head then head :: rest
    else head :: insert name rest

/-- The names of a list in ascending order, each once. -/
def ofList (names : List String) : List String := names.foldr insert []

@[simp] theorem mem_insert {x name : String} {names : List String} :
    x ∈ insert name names ↔ x = name ∨ x ∈ names := by
  induction names with
  | nil => simp [insert]
  | cons head rest ih =>
    unfold insert
    split
    · simp
    · split
      · next h => subst h; simp
      · simp only [List.mem_cons, ih]
        constructor <;> rintro (h | h | h) <;> simp [h]

@[simp] theorem mem_ofList {x : String} {names : List String} :
    x ∈ ofList names ↔ x ∈ names := by
  induction names with
  | nil => simp [ofList]
  | cons name rest ih =>
    have : ofList (name :: rest) = insert name (ofList rest) := rfl
    rw [this, mem_insert, ih, List.mem_cons]

theorem length_insert_le (name : String) (names : List String) :
    (insert name names).length ≤ names.length + 1 := by
  fun_induction insert name names with
  | case1 => exact Nat.le_refl _
  | case2 => exact Nat.le_refl _
  | case3 => exact Nat.le_succ _
  | case4 head rest _ _ ih => exact Nat.succ_le_succ ih

theorem pairwise_insert {name : String} {names : List String} (h : names.Pairwise (· < ·)) :
    (insert name names).Pairwise (· < ·) := by
  induction names with
  | nil => exact List.pairwise_singleton _ _
  | cons head rest ih =>
    obtain ⟨hhead, hrest⟩ := List.pairwise_cons.1 h
    unfold insert
    split
    · next hlt =>
      refine List.pairwise_cons.2 ⟨fun x hx => ?_, h⟩
      rcases List.mem_cons.1 hx with rfl | hx
      · exact hlt
      · exact String.lt_trans hlt (hhead x hx)
    split
    · exact h
    next hge hne =>
    refine List.pairwise_cons.2 ⟨fun x hx => ?_, ih hrest⟩
    rcases mem_insert.1 hx with rfl | hx
    · exact Decidable.byContradiction fun hnot =>
        hne (String.le_antisymm (String.not_lt.1 hnot) (String.not_lt.1 hge))
    · exact hhead x hx

/-- The names come in ascending order. -/
theorem pairwise_ofList (names : List String) : (ofList names).Pairwise (· < ·) := by
  induction names with
  | nil => exact List.Pairwise.nil
  | cons name rest ih => exact pairwise_insert ih

/-- No name comes twice. -/
theorem nodup_of_pairwise {names : List String} (h : names.Pairwise (· < ·)) : names.Nodup := by
  refine h.imp fun {a b} hlt heq => ?_
  rw [heq] at hlt
  exact String.lt_irrefl b hlt

end LocalCloud.Ascending
