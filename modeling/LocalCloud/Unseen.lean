/-!
# Names not seen yet

Walks over names that never enter a name twice end because fewer and fewer names are left to
enter.  `unseen` counts them.
-/

namespace LocalCloud

/-- How many of the names have not been seen. -/
def unseen (names seen : List String) : Nat := (names.filter (· ∉ seen)).length

/-- Seeing a new one of the names leaves fewer. -/
theorem unseen_cons_lt {names seen : List String} {name : String} (hn : name ∈ names)
    (hs : name ∉ seen) : unseen names (name :: seen) < unseen names seen := by
  have hsplit : names.filter (· ∉ name :: seen) =
      (names.filter (· ∉ seen)).filter (· != name) := by
    rw [List.filter_filter]
    congr 1
    funext x
    by_cases hx : x = name <;> simp [hx]
  rw [unseen, unseen, hsplit]
  exact List.length_filter_lt_length_iff_exists.2 ⟨name, by simp [hn, hs], by simp⟩

end LocalCloud
