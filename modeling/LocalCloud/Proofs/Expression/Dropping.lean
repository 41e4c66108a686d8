import LocalCloud.Proofs.Expression.Values

/-!
# Fields that resolve to nothing

A field with `Ref` of `AWS::NoValue`, or with a choice whose chosen branch is that, resolves to `null`
(`IsNothing`).  What it is to leave such a field out is a relation between two values (`Json.Drops`).
It tells apart all that can happen to a chain of keys (`Json.Drops.at?_cases`): the chain ends at the
field, it ends at an object above the field, or it leads to the same in both values.  Resolving keeps
the relation down to the level at which values are lost (`valueWithin_drops`), and the value without
the field mentions what the other one does, without the names in the field (`exists_mentions_drops`).
-/

namespace LocalCloud

variable {x v w : Json} {path chain : List String} {key : String}

/-! ## Leaving out a field -/

namespace Json

/-- The second value is the first one without the field at the end of a path, in which `x` stands.
The objects on the path are no calls, with the field or without it, and have their keys once. -/
inductive Drops (x : Json) : List String → Json → Json → Prop
  | here {before after : Fields} {key : String} : key ∉ (before ++ after).map (·.1) →
      Intrinsic.ofFields? (before ++ (key, x) :: after) = none →
      Intrinsic.ofFields? (before ++ after) = none →
      Drops x [key] (.object (before ++ (key, x) :: after)) (.object (before ++ after))
  | inside {before after : Fields} {key : String} {path : List String} {v w : Json} :
      key ∉ (before ++ after).map (·.1) →
      Intrinsic.ofFields? (before ++ (key, v) :: after) = none → Drops x path v w →
      Drops x (key :: path) (.object (before ++ (key, v) :: after))
        (.object (before ++ (key, w) :: after))

theorem lookup_middle_self {before after : Fields} (h : key ∉ (before ++ after).map (·.1))
    (v : Json) : (before ++ (key, v) :: after).lookup key = some v := by
  have hbefore : before.lookup key = none := by
    refine List.lookup_eq_none_iff.2 fun field hfield => ?_
    rw [bne_iff_ne]
    rintro rfl
    exact h (List.mem_map_of_mem (List.mem_append_left after hfield))
  rw [List.lookup_append, hbefore, List.lookup_cons_self, Option.none_or]

theorem lookup_middle_of_ne {other : String} (h : other ≠ key) (before after : Fields) (v : Json) :
    (before ++ (key, v) :: after).lookup other = (before ++ after).lookup other := by
  have hother : (other == key) = false := beq_false_of_ne h
  rw [List.lookup_append, List.lookup_append, List.lookup_cons, hother]

theorem at?_cons (v : Json) (key : String) (rest : List String) :
    v.at? (key :: rest) = (v.get? key).bind (·.at? rest) := rfl

namespace Drops

theorem exists_objects (h : Drops x path v w) :
    ∃ fields fields', v = .object fields ∧ w = .object fields' := by
  cases h <;> exact ⟨_, _, rfl, rfl⟩

/-- What can happen to a field of the outermost object. -/
theorem get?_cases (h : Drops x path v w) (key : String) :
    (path = [key] ∧ v.get? key = some x ∧ w.get? key = none) ∨
    (∃ rest v' w', path = key :: rest ∧ Drops x rest v' w' ∧ v.get? key = some v' ∧
      w.get? key = some w') ∨
    (path.head? ≠ some key ∧ v.get? key = w.get? key) := by
  cases h with
  | @here before after own hkey _ _ =>
    by_cases heq : key = own
    · subst heq
      have hnone : (before ++ after).lookup key = none := by
        refine List.lookup_eq_none_iff.2 fun field hfield => ?_
        rw [bne_iff_ne]
        rintro rfl
        exact hkey (List.mem_map_of_mem hfield)
      exact .inl ⟨rfl, lookup_middle_self hkey x, hnone⟩
    · refine .inr (.inr ⟨?_, lookup_middle_of_ne heq before after x⟩)
      simpa using Ne.symm heq
  | @inside before after own rest v w hkey _ hrest =>
    by_cases heq : key = own
    · subst heq
      exact .inr (.inl ⟨rest, v, w, rfl, hrest, lookup_middle_self hkey v,
        lookup_middle_self hkey w⟩)
    · refine .inr (.inr ⟨?_, ?_⟩)
      · simpa using Ne.symm heq
      · exact (lookup_middle_of_ne heq before after v).trans
          (lookup_middle_of_ne heq before after w).symm

/-- What can happen to the value at the end of a chain of keys, if nothing can be read in the field
that is left out, should the chain lead there. -/
theorem at?_cases (h : Drops x path v w)
    (hempty : path.length ≤ chain.length → ∀ key ∈ chain, x.get? key = none) :
    (path = chain ∧ v.at? chain = some x ∧ w.at? chain = none) ∨
    (∃ rest v' w', path = chain ++ rest ∧ Drops x rest v' w' ∧ v.at? chain = some v' ∧
      w.at? chain = some w') ∨
    (¬ chain <+: path ∧ v.at? chain = w.at? chain) := by
  induction chain generalizing path v w with
  | nil => exact .inr (.inl ⟨path, v, w, rfl, h, rfl, rfl⟩)
  | cons key rest ih =>
    rw [at?_cons, at?_cons]
    rcases h.get?_cases key with ⟨rfl, hv, hw⟩ | ⟨more, v', w', rfl, hmore, hv, hw⟩ | ⟨hne, hsame⟩
    · rw [hv, hw, Option.bind_some, Option.bind_none]
      cases rest with
      | nil => exact .inl ⟨rfl, rfl, rfl⟩
      | cons next rest =>
        refine .inr (.inr ⟨?_, ?_⟩)
        · rintro ⟨more, hmore⟩
          simp at hmore
        · have hnext := hempty (by simp) next (List.mem_cons_of_mem key List.mem_cons_self)
          rw [at?_cons, hnext, Option.bind_none]
    · have hrest : more.length ≤ rest.length → ∀ key ∈ rest, x.get? key = none := fun hlength k hk =>
        hempty (Nat.succ_le_succ hlength) k (List.mem_cons_of_mem key hk)
      rw [hv, hw, Option.bind_some, Option.bind_some]
      rcases ih hmore hrest with ⟨rfl, hx, hnone⟩ | ⟨more', v'', w'', rfl, hdrops, hv', hw'⟩ |
        ⟨hbeside, hsame⟩
      · exact .inl ⟨rfl, hx, hnone⟩
      · exact .inr (.inl ⟨more', v'', w'', rfl, hdrops, hv', hw'⟩)
      · refine .inr (.inr ⟨fun hlong => hbeside ?_, hsame⟩)
        exact (List.cons_prefix_cons.1 hlong).2
    · refine .inr (.inr ⟨?_, by rw [hsame]⟩)
      rintro ⟨more, rfl⟩
      exact hne rfl

end Drops

/-- The value without the field at the end of a chain of keys. -/
def erase : List String → Json → Json
  | key :: rest, .object fields => .object (fields.filterMap fun (own, v) =>
    if own ≠ key then some (own, v) else if rest = [] then none else some (own, v.erase rest))
  | _, v => v

/-- Leaving out a field is erasing it. -/
theorem Drops.erase_eq (h : Drops x path v w) : v.erase path = w := by
  -- the fields beside it stay as they are
  have hbeside : ∀ {key : String} {fields : Fields} {f : String × Json → Option (String × Json)},
      key ∉ fields.map (·.1) → (∀ field, field.1 ≠ key → f field = some field) →
        fields.filterMap f = fields := by
    intro key fields f hkey hf
    refine (List.filterMap_congr fun field hfield => hf field ?_).trans List.filterMap_some
    rintro rfl
    exact hkey (List.mem_map_of_mem hfield)
  induction h with
  | @here before after key hkey _ _ =>
    rw [erase, List.filterMap_append, List.filterMap_cons_none (by simp), ← List.filterMap_append,
      hbeside hkey fun field hne => if_pos hne]
  | @inside before after key path v w hkey _ hrest ih =>
    have hpath : path ≠ [] := by
      rintro rfl
      cases hrest
    rw [List.map_append, List.mem_append, not_or] at hkey
    rw [erase, List.filterMap_append, List.filterMap_cons_some (b := (key, w)) (by simp [hpath, ih]),
      hbeside hkey.1 fun field hne => if_pos hne, hbeside hkey.2 fun field hne => if_pos hne]

end Json

namespace Expression

variable {ctx : Context} {levels choices : Nat}

/-! ## Values that resolve to nothing -/

/-- A reference to the name that stands for nothing, or a choice whose chosen branch is such a value,
through a number of choices. -/
inductive IsNothing (ctx : Context) : Nat → Json → Prop
  | ref {key : String} : Intrinsic.ofKey? key = some .ref →
      IsNothing ctx 0 (.object [(key, .string "AWS::NoValue")])
  | choice {key condition : String} {whenTrue whenFalse : Json} {choices : Nat} :
      Intrinsic.ofKey? key = some .ifElse →
      IsNothing ctx choices (if ctx.holds condition then whenTrue else whenFalse) →
      IsNothing ctx (choices + 1)
        (.object [(key, .array [.string condition, whenTrue, whenFalse])])

namespace IsNothing

/-- Such a value becomes `null`, unless the name is bound or the choices are too many. -/
theorem valueWithin_eq (h : IsNothing ctx choices x) (hname : ctx.resource? "AWS::NoValue" = none)
    (hlevels : choices < levels) : valueWithin ctx levels x = .null := by
  induction h generalizing levels with
  | ref hkey =>
    obtain ⟨levels, rfl⟩ := Nat.exists_eq_succ_of_ne_zero (Nat.ne_of_gt hlevels)
    have hknown : known? ctx "AWS::NoValue" = some .null := by
      rw [known?, hname]
      rfl
    rw [valueWithin_call hkey, resolveCall, resolveRef, hknown]
    rfl
  | choice hkey _ ih =>
    obtain ⟨levels, rfl⟩ := Nat.exists_eq_succ_of_ne_zero (Nat.ne_of_gt (Nat.zero_lt_of_lt hlevels))
    rw [valueWithin_if hkey]
    exact ih (Nat.lt_of_succ_lt_succ hlevels)

/-- It is a call, so that it has no field but the name of the function. -/
theorem get?_eq_none (h : IsNothing ctx choices x) (hkey : Intrinsic.ofKey? key = none) :
    x.get? key = none := by
  have hother : ∀ {own : String} {i : Intrinsic} (argument : Json),
      Intrinsic.ofKey? own = some i → (Json.object [(own, argument)]).get? key = none := by
    intro own i argument hown
    have hne : (key == own) = false := by
      refine beq_false_of_ne ?_
      rintro rfl
      rw [hown] at hkey
      contradiction
    rw [Json.get?, List.lookup_cons, hne, List.lookup_nil]
  cases h with
  | ref hown => exact hother _ hown
  | choice hown _ => exact hother _ hown

theorem exists_object (h : IsNothing ctx choices x) : ∃ fields, x = .object fields := by
  cases h <;> exact ⟨_, rfl⟩

end IsNothing

/-! ## Resolving -/

theorem ofFields?_map_eq_none {fields : Json.Fields} (f : Json → Json)
    (h : Intrinsic.ofFields? fields = none) :
    Intrinsic.ofFields? (fields.map fun (key, v) => (key, f v)) = none := by
  rcases fields with _ | ⟨⟨key, argument⟩, _ | ⟨second, rest⟩⟩
  · rfl
  · have hkey := ofKey?_eq_none h
    simp [Intrinsic.ofFields?, hkey]
  · rfl

/-- Whether an object is a call is not decided by what stands in a field. -/
theorem ofFields?_middle_eq_none {before after : Json.Fields}
    (h : Intrinsic.ofFields? (before ++ (key, v) :: after) = none) (w : Json) :
    Intrinsic.ofFields? (before ++ (key, w) :: after) = none := by
  rcases before with _ | ⟨first, _ | ⟨second, before⟩⟩ <;> rcases after with _ | ⟨next, after⟩
  all_goals first | rfl | exact Option.map_eq_none_iff.2 (ofKey?_eq_none h)

/-- A value without a field resolves to the same, or to the resolved value without the field. -/
theorem valueWithin_drops (h : Json.Drops x path v w) (levels : Nat) :
    valueWithin ctx levels v = valueWithin ctx levels w ∨
    (path.length ≤ levels ∧ Json.Drops (valueWithin ctx (levels - path.length) x) path
      (valueWithin ctx levels v) (valueWithin ctx levels w)) := by
  induction h generalizing levels with
  | @here before after key hkey hcall hrest =>
    cases levels with
    | zero => exact .inl rfl
    | succ levels =>
      refine .inr ⟨Nat.succ_le_succ (Nat.zero_le levels), ?_⟩
      rw [valueWithin_object hcall, valueWithin_object hrest, List.map_append, List.map_cons,
        List.map_append]
      refine .here ?_ ?_ ?_
      · rwa [← List.map_append, List.map_map]
      · simpa using ofFields?_map_eq_none (valueWithin ctx levels) hcall
      · simpa using ofFields?_map_eq_none (valueWithin ctx levels) hrest
  | @inside before after key path v w hkey hcall hdrops ih =>
    cases levels with
    | zero => exact .inl rfl
    | succ levels =>
      rw [valueWithin_object hcall, valueWithin_object (ofFields?_middle_eq_none hcall w),
        List.map_append, List.map_cons, List.map_append, List.map_cons]
      rcases ih levels with hsame | ⟨hlength, hbelow⟩
      · exact .inl (by simp only [hsame])
      · refine .inr ⟨Nat.succ_le_succ hlength, ?_⟩
        rw [List.length_cons, Nat.succ_sub_succ]
        refine .inside ?_ ?_ hbelow
        · rwa [← List.map_append, List.map_map]
        · simpa using ofFields?_map_eq_none (valueWithin ctx levels) hcall

/-! ## Mentions -/

theorem fieldMentions_append (before after : Json.Fields) :
    fieldMentions (before ++ after) = fieldMentions before ++ fieldMentions after := by
  induction before with
  | nil => rfl
  | cons field rest ih =>
    rw [List.cons_append, fieldMentions, fieldMentions, ih, List.append_assoc]

/-- Without the field the names in it are not mentioned. -/
theorem exists_mentions_drops (h : Json.Drops x path v w) : ∃ before after,
    mentions v = before ++ mentions x ++ after ∧ mentions w = before ++ after := by
  induction h with
  | @here before after key _ hcall hrest =>
    refine ⟨fieldMentions before, fieldMentions after, ?_, ?_⟩
    · rw [mentions_object hcall, fieldMentions_append, fieldMentions, List.append_assoc]
    · rw [mentions_object hrest, fieldMentions_append]
  | @inside before after key path v w _ hcall _ ih =>
    obtain ⟨front, back, hv, hw⟩ := ih
    refine ⟨fieldMentions before ++ front, back ++ fieldMentions after, ?_, ?_⟩
    · rw [mentions_object hcall, fieldMentions_append, fieldMentions, hv]
      simp only [List.append_assoc]
    · rw [mentions_object (ofFields?_middle_eq_none hcall w), fieldMentions_append, fieldMentions, hw]
      simp only [List.append_assoc]

end Expression

end LocalCloud
