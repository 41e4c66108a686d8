import LocalCloud.Proofs.Expression.Lookups
import LocalCloud.Proofs.Json.Rendering

/-!
# What values become

One equation for each kind of value: what it becomes when it is resolved down to a number of levels,
in terms of what becomes of the values inside it.  With them nothing that is proved about resolved
values has to look at the rules again.
-/

namespace LocalCloud.Expression

/-- What a value becomes that is resolved down to a number of levels. -/
def valueWithin (ctx : Context) (levels : Nat) (v : Json) : Json :=
  (resolveWithin ctx levels v).value

/-- The text of what it becomes. -/
def textWithin (ctx : Context) (levels : Nat) (v : Json) : String :=
  (valueWithin ctx levels v).plainText

variable {ctx : Context} {levels : Nat}

/-- Each level resolves by the rules, with one level less inside and two less for variables. -/
theorem resolveWithin_succ (ctx : Context) (levels : Nat) :
    resolveWithin ctx (levels + 1) =
      step (resolveWithin ctx levels) (resolveWithin ctx (levels - 1)) ctx := by
  cases levels <;> rfl

theorem resolveWithin_string (ctx : Context) (levels : Nat) (s : String) :
    resolveWithin ctx (levels + 1) (.string s) = pure (.string s) := by
  rw [resolveWithin_succ]
  rfl

theorem valueWithin_string (s : String) : valueWithin ctx (levels + 1) (.string s) = .string s :=
  congrArg Noted.value (resolveWithin_string ctx levels s)

theorem resolveWithin_array (ctx : Context) (levels : Nat) (items : List Json) :
    resolveWithin ctx (levels + 1) (.array items) =
      Json.array <$> items.mapM (resolveWithin ctx levels) := by
  rw [resolveWithin_succ]
  rfl

theorem valueWithin_array (items : List Json) :
    valueWithin ctx (levels + 1) (.array items) = .array (items.map (valueWithin ctx levels)) := by
  rw [valueWithin, resolveWithin_array]
  exact congrArg Json.array (Noted.value_mapM _ _)

/-- The fields of an object that is no call keep their keys. -/
theorem valueWithin_object {fields : Json.Fields} (h : Intrinsic.ofFields? fields = none) :
    valueWithin ctx (levels + 1) (.object fields) =
      .object (fields.map fun (key, v) => (key, valueWithin ctx levels v)) := by
  rw [valueWithin, resolveWithin_succ, step, h]
  exact congrArg Json.object (Noted.value_mapM _ _)

/-- An object with a field that names no function is no call. -/
theorem ofFields?_eq_none {fields : Json.Fields} {key : String} {v : Json}
    (h : fields.lookup key = some v) (hkey : Intrinsic.ofKey? key = none) :
    Intrinsic.ofFields? fields = none := by
  cases hcall : Intrinsic.ofFields? fields with
  | none => rfl
  | some call =>
    obtain ⟨i, argument⟩ := call
    obtain ⟨other, rfl, hi⟩ := eq_of_ofFields? hcall
    rw [List.lookup_cons] at h
    split at h
    · next heq =>
      rw [← beq_iff_eq.1 heq, hkey] at hi
      contradiction
    · simp at h

theorem lookup_map_snd {α β : Type} (f : α → β) (fields : List (String × α)) (key : String) :
    (fields.map fun (k, v) => (k, f v)).lookup key = (fields.lookup key).map f := by
  induction fields with
  | nil => rfl
  | cons field rest ih =>
    rw [List.map_cons, List.lookup_cons, List.lookup_cons, ih]
    split <;> rfl

/-- A field that names no function becomes the field of what its object becomes. -/
theorem get?_valueWithin {v w : Json} {key : String} (h : v.get? key = some w)
    (hkey : Intrinsic.ofKey? key = none) :
    (valueWithin ctx (levels + 1) v).get? key = some (valueWithin ctx levels w) := by
  cases v with
  | object fields =>
    rw [valueWithin_object (ofFields?_eq_none h hkey), Json.get?, lookup_map_snd]
    exact congrArg (Option.map _) h
  | _ => simp [Json.get?] at h

/-- So does what stands at the end of a chain of such fields, one level deeper for each. -/
theorem at?_valueWithin {v w : Json} {keys : List String} (h : v.at? keys = some w)
    (hkeys : ∀ key ∈ keys, Intrinsic.ofKey? key = none) :
    (valueWithin ctx (levels + keys.length) v).at? keys = some (valueWithin ctx levels w) := by
  induction keys generalizing v with
  | nil =>
    obtain rfl := Option.some.inj h
    rfl
  | cons key rest ih =>
    obtain ⟨hkey, hrest⟩ := List.forall_mem_cons.1 hkeys
    rw [Json.at?, List.foldlM_cons, Option.bind_eq_bind, Option.bind_eq_some_iff] at h
    obtain ⟨inner, hinner, htail⟩ := h
    rw [Json.at?, List.foldlM_cons, List.length_cons, ← Nat.add_assoc,
      get?_valueWithin hinner hkey]
    exact ih htail hrest

/-- A template becomes a text: what its pieces become, one after another. -/
theorem value_fill (deeper : Json → Noted Json) (vars : Json.Fields) (template : String) :
    (fill deeper ctx vars template).value = .string (String.ofList ((scan template.toList).map
      fun piece => (fillPiece deeper ctx vars template piece).value).flatten) := by
  rw [fill, Noted.value_bind, Noted.value_mapM]
  rfl

theorem warnings_fill (deeper : Json → Noted Json) (vars : Json.Fields) (template : String) :
    (fill deeper ctx vars template).warnings = (scan template.toList).flatMap fun piece =>
      (fillPiece deeper ctx vars template piece).warnings := by
  rw [fill, Noted.warnings_bind, Noted.warnings_mapM]
  exact List.append_nil _

section Calls

variable {key : String} {argument : Json}

/-- The item at the position that an index stands for, and an empty text if there is none. -/
def chosen (index : Json) (items : List Json) : Json :=
  ((indexOf? index).bind (items[·]?)).getD (.string "")

/-- A call goes by the rules for it. -/
theorem resolveWithin_call {i : Intrinsic} (h : Intrinsic.ofKey? key = some i) :
    resolveWithin ctx (levels + 1) (.object [(key, argument)]) =
      resolveCall (resolveWithin ctx levels) (resolveWithin ctx (levels - 1)) ctx i argument := by
  have hfields : Intrinsic.ofFields? [(key, argument)] = some (i, argument) := by
    simp [Intrinsic.ofFields?, h]
  rw [resolveWithin_succ, step, hfields]

theorem valueWithin_call {i : Intrinsic} (h : Intrinsic.ofKey? key = some i) :
    valueWithin ctx (levels + 1) (.object [(key, argument)]) =
      (resolveCall (resolveWithin ctx levels) (resolveWithin ctx (levels - 1)) ctx i
        argument).value := congrArg Noted.value (resolveWithin_call h)

variable {id name : String} (hname : ctx.resource? id = some name)

include hname

theorem refText_of_bound : (refText ctx id).value = name := by
  have hknown : known? ctx id = some (.string name) := by
    rw [known?, hname]
  rw [refText, Noted.value_map, resolveRef, hknown]
  rfl

theorem attributeText_of_bound (attr : String) :
    (attributeText ctx id attr).value = name ++ "." ++ attr := by
  rw [attributeText, Noted.value_map, refText_of_bound hname]

/-- A name that is bound becomes its local identifier. -/
theorem valueWithin_ref (h : Intrinsic.ofKey? key = some .ref) :
    valueWithin ctx (levels + 1) (.object [(key, .string id)]) = .string name := by
  have hknown : known? ctx id = some (.string name) := by
    rw [known?, hname]
  rw [valueWithin_call h, resolveCall, resolveRef, hknown]
  rfl

/-- An attribute of it becomes the local identifier, a dot and the attribute. -/
theorem valueWithin_getAtt {attr : Json} (h : Intrinsic.ofKey? key = some .getAtt) :
    valueWithin ctx (levels + 1) (.object [(key, .array [.string id, attr])]) =
      .string (name ++ "." ++ textWithin ctx levels attr) := by
  rw [valueWithin_call h, resolveCall, resolveGetAtt]
  simp only [Noted.value_bind, Noted.value_pure, attributeText_of_bound hname]
  rfl

theorem valueWithin_getAtt_dotted {dotted attr : String} (h : Intrinsic.ofKey? key = some .getAtt)
    (hdotted : Text.divide? '.' dotted = some (id, attr)) :
    valueWithin ctx (levels + 1) (.object [(key, .string dotted)]) =
      .string (name ++ "." ++ attr) := by
  rw [valueWithin_call h, resolveCall, resolveGetAtt, hdotted]
  exact congrArg Json.string (attributeText_of_bound hname attr)

omit hname in
theorem valueWithin_join {delimiter parts : Json} {items : List Json}
    (h : Intrinsic.ofKey? key = some .join) (hparts : valueWithin ctx levels parts = .array items) :
    valueWithin ctx (levels + 1) (.object [(key, .array [delimiter, parts])]) =
      .string (Text.join (textWithin ctx levels delimiter) (items.map Json.plainText)) := by
  rw [valueWithin_call h, resolveCall, resolveJoin]
  simp only [Noted.value_bind]
  rw [valueWithin] at hparts
  rw [hparts]
  rfl

omit hname in
/-- A choice becomes what the chosen branch becomes. -/
theorem valueWithin_if {condition : String} {whenTrue whenFalse : Json}
    (h : Intrinsic.ofKey? key = some .ifElse) :
    valueWithin ctx (levels + 1)
        (.object [(key, .array [.string condition, whenTrue, whenFalse])]) =
      valueWithin ctx levels (if ctx.holds condition then whenTrue else whenFalse) := by
  rw [valueWithin_call h, resolveCall, resolveIf, valueWithin]

omit hname in
/-- Of a list that is written out only the chosen item is resolved. -/
theorem valueWithin_select_written {index : Json} {items : List Json}
    (h : Intrinsic.ofKey? key = some .select) :
    valueWithin ctx (levels + 1) (.object [(key, .array [index, .array items])]) =
      chosen (valueWithin ctx levels index) (items.map (valueWithin ctx levels)) := by
  rw [valueWithin_call h, resolveCall, resolveSelect, Noted.value_bind, chosen, valueWithin]
  cases indexOf? (resolveWithin ctx levels index).value with
  | none => rfl
  | some i =>
    rw [Option.bind_some, List.getElem?_map]
    cases hitem : items[i]? <;> simp only [hitem] <;> rfl

omit hname in
/-- Any other list is resolved before an item of it is chosen. -/
theorem valueWithin_select_list {index list : Json} {items : List Json}
    (h : Intrinsic.ofKey? key = some .select) (hlist : list.asArray? = none)
    (hitems : valueWithin ctx levels list = .array items) :
    valueWithin ctx (levels + 1) (.object [(key, .array [index, list])]) =
      chosen (valueWithin ctx levels index) items := by
  rw [valueWithin] at hitems
  rw [valueWithin_call h, resolveCall, resolveSelect, Noted.value_bind, chosen, valueWithin]
  cases indexOf? (resolveWithin ctx levels index).value with
  | none => rfl
  | some i =>
    rw [Option.bind_some]
    cases list with
    | array written => contradiction
    | _ =>
      simp only [Noted.value_bind, hitems]
      cases items[i]? <;> rfl

omit hname in
theorem valueWithin_select {index item : Json} {items : List Json} {i : Nat}
    (h : Intrinsic.ofKey? key = some .select)
    (hindex : indexOf? (valueWithin ctx levels index) = some i) (hitem : items[i]? = some item) :
    valueWithin ctx (levels + 1) (.object [(key, .array [index, .array items])]) =
      valueWithin ctx levels item := by
  rw [valueWithin_select_written h, chosen, hindex, Option.bind_some, List.getElem?_map, hitem]
  rfl

omit hname in
theorem valueWithin_select_resolved {index items item : Json} {i : Nat}
    (h : Intrinsic.ofKey? key = some .select)
    (hindex : indexOf? (valueWithin ctx levels index) = some i) (hitems : items.asArray? = none)
    (hitem : (valueWithin ctx levels items).item? i = some item) :
    valueWithin ctx (levels + 1) (.object [(key, .array [index, items])]) = item := by
  obtain ⟨resolved, hvalue, hitem⟩ := Json.item?_eq_some_iff.1 hitem
  rw [valueWithin_select_list h hitems hvalue, chosen, hindex, Option.bind_some, hitem]
  rfl

omit hname in
/-- A text is divided at a mark, which must not be empty. -/
theorem valueWithin_split {delimiter source : Json} (h : Intrinsic.ofKey? key = some .split)
    (hdelimiter : textWithin ctx levels delimiter ≠ "") :
    valueWithin ctx (levels + 1) (.object [(key, .array [delimiter, source])]) =
      .array ((Text.splitAll (textWithin ctx levels delimiter).toList
        (textWithin ctx levels source).toList).map fun piece => .string (String.ofList piece)) := by
  have hempty : (resolveWithin ctx levels delimiter).value.plainText.isEmpty = false := by
    simpa [textWithin, valueWithin] using hdelimiter
  rw [valueWithin_call h, resolveCall, resolveSplit]
  simp only [Noted.value_bind, hempty]
  rfl

omit hname in
/-- A template becomes its pieces, filled and written one after another. -/
theorem valueWithin_sub {template : String} {vars : Json.Fields}
    (h : Intrinsic.ofKey? key = some .sub) (ht : IsTemplate argument template vars) :
    valueWithin ctx (levels + 1) (.object [(key, argument)]) =
      .string (String.ofList ((scan template.toList).map fun piece =>
        (fillPiece (resolveWithin ctx (levels - 1)) ctx vars template piece).value).flatten) := by
  rw [valueWithin_call h, resolveCall]
  cases ht <;> exact value_fill _ _ _

end Calls

end LocalCloud.Expression
