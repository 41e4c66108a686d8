import LocalCloud.Proofs.Expression.Values
import LocalCloud.Proofs.Json.Inside
import LocalCloud.Proofs.Text.Joining

/-!
# Resolved values are in normal form

A value is in normal form when it contains no call, at whatever depth (`IsNormal`).  Whatever a
value looks like, resolving it gives a value in normal form, since every rule either makes a text or
passes on what has been resolved before (`isNormal_step`).  A value in normal form that is not too
high stays as it is, so that resolving a second time changes nothing (`resolve_normal`).
-/

namespace LocalCloud.Expression

/-! ## Calls -/

/-- The names of the functions that a template may call. -/
def functionNames : List String :=
  ["Ref", "GetAtt", "Join", "Select", "Sub", "If", "Split", "Base64", "GetAZs"]

/-- A call is an object with a single field whose key names a function, with `Fn::` in front of the
name or without. -/
def IsCall (v : Json) : Prop :=
  ∃ name ∈ functionNames, ∃ argument,
    v = .object [(name, argument)] ∨ v = .object [("Fn::" ++ name, argument)]

theorem mem_functionNames_of_ofShortName? {name : String} {i : Intrinsic}
    (h : Intrinsic.ofShortName? name = some i) : name ∈ functionNames := by
  unfold Intrinsic.ofShortName? at h
  split at h <;> simp [functionNames] at h ⊢

/-- A key is a short name, or a short name behind `Fn::`. -/
theorem eq_shortName (key : String) :
    key = Intrinsic.shortName key ∨ key = "Fn::" ++ Intrinsic.shortName key := by
  unfold Intrinsic.shortName Text.behind?
  cases h : Text.dropHead? "Fn::".toList key.toList with
  | none => exact .inl rfl
  | some rest =>
    refine .inr (String.toList_injective ?_)
    simpa using Text.eq_of_dropHead? h

theorem isSome_ofKey?_of_mem {name : String} (h : name ∈ functionNames) :
    (Intrinsic.ofKey? name).isSome ∧ (Intrinsic.ofKey? ("Fn::" ++ name)).isSome := by
  simp only [functionNames, List.mem_cons, List.not_mem_nil, or_false] at h
  rcases h with rfl | rfl | rfl | rfl | rfl | rfl | rfl | rfl | rfl <;> decide

/-- The rules find a call just where there is one. -/
theorem isCall_object_iff {fields : Json.Fields} :
    IsCall (.object fields) ↔ (Intrinsic.ofFields? fields).isSome := by
  constructor
  · rintro ⟨name, hname, argument, h | h⟩ <;> obtain rfl := Json.object.inj h
    · simpa [Intrinsic.ofFields?] using (isSome_ofKey?_of_mem hname).1
    · simpa [Intrinsic.ofFields?] using (isSome_ofKey?_of_mem hname).2
  · intro h
    obtain ⟨⟨i, argument⟩, hcall⟩ := Option.isSome_iff_exists.1 h
    obtain ⟨key, rfl, hi⟩ := eq_of_ofFields? hcall
    refine ⟨_, mem_functionNames_of_ofShortName? hi, argument, ?_⟩
    rcases eq_shortName key with hkey | hkey
    · exact .inl (by rw [← hkey])
    · exact .inr (by rw [← hkey])

/-- What the fields are a call of does not depend on their values. -/
theorem ofFields?_map_snd (f : Json → Json) (fields : Json.Fields) :
    Intrinsic.ofFields? (fields.map fun (key, v) => (key, f v)) =
      (Intrinsic.ofFields? fields).map fun (i, argument) => (i, f argument) := by
  rcases fields with _ | ⟨⟨key, v⟩, _ | ⟨second, rest⟩⟩
  · rfl
  · simp [Intrinsic.ofFields?, Function.comp_def]
  · rfl

/-! ## Normal forms -/

/-- A value is in normal form when no call is left in it. -/
def IsNormal (v : Json) : Prop := ∀ u, v.Contains u → ¬ IsCall u

theorem isNormal_array_iff {items : List Json} :
    IsNormal (.array items) ↔ ∀ item ∈ items, IsNormal item := by
  constructor
  · intro h item hitem u hu
    exact h u (.item hitem hu)
  · intro h u hu
    cases hu with
    | self =>
      rintro ⟨_, -, _, heq | heq⟩ <;> simp at heq
    | item hitem hu => exact h _ hitem u hu

theorem isNormal_object_iff {fields : Json.Fields} :
    IsNormal (.object fields) ↔
      Intrinsic.ofFields? fields = none ∧ ∀ field ∈ fields, IsNormal field.2 := by
  rw [← Option.not_isSome_iff_eq_none, ← isCall_object_iff]
  constructor
  · intro h
    exact ⟨h _ (.self _), fun field hfield u hu => h u (.field hfield hu)⟩
  · rintro ⟨hcall, hfields⟩ u hu
    cases hu with
    | self => exact hcall
    | field hfield hu => exact hfields _ hfield u hu

/-- A value with nothing inside it is in normal form. -/
theorem isNormal_scalar {v : Json} (harray : v.asArray? = none) (hobject : v.asObject? = none) :
    IsNormal v := by
  intro u hu
  cases hu with
  | self =>
    rintro ⟨_, -, _, rfl | rfl⟩ <;> simp [Json.asObject?] at hobject
  | item => simp [Json.asArray?] at harray
  | field => simp [Json.asObject?] at hobject

theorem isNormal_string (s : String) : IsNormal (.string s) := isNormal_scalar rfl rfl

theorem isNormal_texts {α : Type} (text : α → String) (xs : List α) :
    IsNormal (.array (xs.map fun x => .string (text x))) := by
  refine isNormal_array_iff.2 fun item hitem => ?_
  obtain ⟨x, -, rfl⟩ := List.mem_map.1 hitem
  exact isNormal_string (text x)

/-! ## What resolving gives -/

section Step

variable {inner deeper : Json → Noted Json} {ctx : Context} {argument : Json}

theorem isNormal_pseudoParameter {id : String} {value : Json}
    (h : pseudoParameter? ctx id = some value) : IsNormal value := by
  have hscalar : value.asArray? = none ∧ value.asObject? = none := by
    unfold pseudoParameter? at h
    split at h <;> grind [Json.asArray?, Json.asObject?, Option.map_eq_some_iff]
  exact isNormal_scalar hscalar.1 hscalar.2

theorem isNormal_resolveRef (ctx : Context) (id : String) : IsNormal (resolveRef ctx id).value := by
  unfold resolveRef
  split
  · next value hknown =>
    unfold known? at hknown
    split at hknown
    · obtain rfl := Option.some.inj hknown
      exact isNormal_string _
    · exact isNormal_pseudoParameter hknown
  · dsimp only
    split <;> exact isNormal_string _

theorem isNormal_resolveGetAtt : IsNormal (resolveGetAtt inner ctx argument).value := by
  unfold resolveGetAtt
  split
  · exact isNormal_string _
  · exact isNormal_string _
  · split <;> exact isNormal_string _
  · exact isNormal_string _

theorem isNormal_resolveJoin : IsNormal (resolveJoin inner argument).value := by
  unfold resolveJoin
  split
  · simp only [Noted.value_bind]
    split <;> exact isNormal_string _
  · exact isNormal_string _

theorem isNormal_resolveSplit : IsNormal (resolveSplit inner argument).value := by
  unfold resolveSplit
  split
  · simp only [Noted.value_bind]
    split
    · exact isNormal_string _
    · exact isNormal_texts String.ofList _
  · exact isNormal_string _

theorem isNormal_resolveSub : IsNormal (resolveSub deeper ctx argument).value := by
  unfold resolveSub
  split <;> exact isNormal_string _

variable (hinner : ∀ v, IsNormal (inner v).value)

include hinner

/-- An item is selected before it is resolved, or out of a list that has been resolved. -/
theorem isNormal_resolveSelect : IsNormal (resolveSelect inner argument).value := by
  unfold resolveSelect
  split
  · next index items =>
    have hitems := hinner items
    simp only [Noted.value_bind]
    split
    · exact isNormal_string _
    · split
      · exact hinner _
      · exact isNormal_string _
    · simp only [Noted.value_bind]
      split
      · next resolved hresolved =>
        split
        · next item hitem =>
          rw [hresolved] at hitems
          exact isNormal_array_iff.1 hitems item (List.mem_of_getElem? hitem)
        · exact isNormal_string _
      · exact isNormal_string _
  · exact isNormal_string _

theorem isNormal_resolveIf : IsNormal (resolveIf inner ctx argument).value := by
  unfold resolveIf
  split
  · exact hinner _
  · exact isNormal_string _

/-- No call leaves a call behind, whether it makes sense or not. -/
theorem isNormal_resolveCall (i : Intrinsic) :
    IsNormal (resolveCall inner deeper ctx i argument).value := by
  cases i with
  | ref =>
    cases argument with
    | string id => exact isNormal_resolveRef ctx id
    | _ => exact isNormal_string _
  | getAtt => exact isNormal_resolveGetAtt
  | join => exact isNormal_resolveJoin
  | select => exact isNormal_resolveSelect hinner
  | sub => exact isNormal_resolveSub
  | ifElse => exact isNormal_resolveIf hinner
  | split => exact isNormal_resolveSplit
  | base64 => exact isNormal_string _
  | zones => exact isNormal_texts id localZones

/-- A value is in normal form when all that was inside it has been brought into normal form. -/
theorem isNormal_step (v : Json) : IsNormal (step inner deeper ctx v).value := by
  cases v with
  | object fields =>
    cases hcall : Intrinsic.ofFields? fields with
    | some call =>
      rw [step, hcall]
      exact isNormal_resolveCall hinner call.1
    | none =>
      have hfields : (step inner deeper ctx (.object fields)).value =
          .object (fields.map fun (key, v) => (key, (inner v).value)) := by
        rw [step, hcall]
        exact congrArg Json.object (Noted.value_mapM _ _)
      rw [hfields, isNormal_object_iff, ofFields?_map_snd fun v => (inner v).value, hcall]
      refine ⟨rfl, fun field hfield => ?_⟩
      obtain ⟨raw, -, rfl⟩ := List.mem_map.1 hfield
      exact hinner raw.2
  | array items =>
    have hitems : (step inner deeper ctx (.array items)).value =
        .array (items.map fun item => (inner item).value) :=
      congrArg Json.array (Noted.value_mapM _ _)
    rw [hitems, isNormal_array_iff]
    intro item hitem
    obtain ⟨raw, -, rfl⟩ := List.mem_map.1 hitem
    exact hinner raw
  | _ => exact isNormal_scalar rfl rfl

end Step

/-- Down to whatever level a value is resolved, what comes of it is in normal form. -/
theorem isNormal_valueWithin (ctx : Context) (levels : Nat) (v : Json) :
    IsNormal (valueWithin ctx levels v) := by
  induction levels generalizing v with
  | zero => exact isNormal_string ""
  | succ levels ih =>
    rw [valueWithin, resolveWithin_succ]
    exact isNormal_step ih v

/-! ## What resolving leaves as it is -/

/-- A value in normal form stays as it is when it is resolved down to below its deepest part. -/
theorem valueWithin_eq_self {ctx : Context} {levels : Nat} {v : Json} (hnormal : IsNormal v)
    (hheight : v.height < levels) : valueWithin ctx levels v = v := by
  induction levels generalizing v with
  | zero => exact absurd hheight (Nat.not_lt_zero _)
  | succ levels ih =>
    cases v with
    | array items =>
      have hitems : items.map (valueWithin ctx levels) = items.map id := by
        refine List.map_congr_left fun item hitem => ih (isNormal_array_iff.1 hnormal item hitem) ?_
        have := Json.height_lt_of_mem_items hitem
        omega
      rw [valueWithin_array, hitems, List.map_id]
    | object fields =>
      obtain ⟨hcall, hnormal⟩ := isNormal_object_iff.1 hnormal
      have hfields : (fields.map fun ((key, v) : String × Json) =>
          (key, valueWithin ctx levels v)) = fields.map id := by
        refine List.map_congr_left fun field hfield => ?_
        have := Json.height_lt_of_mem_fields hfield
        exact congrArg (field.1, ·) (ih (hnormal field hfield) (by omega))
      rw [valueWithin_object hcall, hfields, List.map_id]
    | _ =>
      rw [valueWithin, resolveWithin_succ]
      rfl

/-- No call is left in a resolved value, however deep the value was and whatever its calls were
given.  A value without calls whose parts lie within the nesting limit stays as it is, with its keys
and items in their order.  So resolving a second time changes nothing as long as what came of the
first time is within the limit. -/
theorem resolve_normal (ctx : Context) (v : Json) :
    (∀ u, (resolve ctx v).value.Contains u → ¬ IsCall u) ∧
    ((∀ u, v.Contains u → ¬ IsCall u) → v.height ≤ nestingLimit → (resolve ctx v).value = v) ∧
    ((resolve ctx v).value.height ≤ nestingLimit →
      (resolve ctx (resolve ctx v).value).value = (resolve ctx v).value) := by
  have hfixed : ∀ v, IsNormal v → v.height ≤ nestingLimit → (resolve ctx v).value = v :=
    fun v hnormal hheight => valueWithin_eq_self hnormal (Nat.lt_succ_of_le hheight)
  have hresolved : IsNormal (resolve ctx v).value := isNormal_valueWithin ctx (nestingLimit + 1) v
  exact ⟨hresolved, hfixed v, hfixed _ hresolved⟩

/-- A setting with calls inside calls, some of them in lists. -/
def replicaSetting : Json :=
  .object [
    ("Zone", .object [("Fn::Select", .array [.string "1", .object [("GetAZs", .string "")]])]),
    ("Tables", .array [.object [("If", .array [.string "Live", .object [("Ref", .string "Orders")],
      .object [("Fn::Split", .array [.string ",", .string "a,b"])]])]])]

theorem replicaSetting_normal :
    ((resolve { resources := [("Orders", "orders")] } replicaSetting).value.get? "Zone").bind
      Json.asString? = some "local-1b" ∧
    (∀ u, (resolve { resources := [("Orders", "orders")] } replicaSetting).value.Contains u →
      ¬ IsCall u) ∧
    (resolve { resources := [("Orders", "orders")] }
        (resolve { resources := [("Orders", "orders")] } replicaSetting).value).value =
      (resolve { resources := [("Orders", "orders")] } replicaSetting).value := by
  obtain ⟨hnormal, -, hagain⟩ := resolve_normal { resources := [("Orders", "orders")] }
    replicaSetting
  exact ⟨by decide +kernel, hnormal, hagain (by decide +kernel)⟩

end LocalCloud.Expression
