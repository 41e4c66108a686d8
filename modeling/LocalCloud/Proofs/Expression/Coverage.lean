import LocalCloud.Proofs.Expression.Choices

/-!
# What resolving a value depends on

Two contexts with the same stack that agree on the names and the conditions that resolving a value
looks up resolve it to the same (`resolveWithin_of_agree`).  The names are those that the value
refers to, the pseudo parameters and what the search for references overlooks (`resolve_congr`).
Without the last of these the value may become something else (`references_miss_attribute`).
-/

namespace LocalCloud.Expression

theorem mapM_congr {α β : Type} {xs : List α} {f g : α → Noted β} (h : ∀ x ∈ xs, f x = g x) :
    xs.mapM f = xs.mapM g := by
  induction xs with
  | nil => rfl
  | cons x xs ih =>
    obtain ⟨hx, hxs⟩ := List.forall_mem_cons.1 h
    rw [List.mapM_cons, List.mapM_cons, hx, ih hxs]

section Names

variable {ctx ctx' : Context} (hstack : ctx.stack = ctx'.stack) {id : String}

include hstack

theorem known?_congr (h : AgreeOn ctx ctx' id) : known? ctx id = known? ctx' id := by
  unfold known?
  rw [h.1]
  unfold pseudoParameter?
  rw [hstack]

theorem resolveRef_congr (h : AgreeOn ctx ctx' id) : resolveRef ctx id = resolveRef ctx' id := by
  unfold resolveRef
  rw [known?_congr hstack h, h.2]

theorem attributeText_congr (h : AgreeOn ctx ctx' id) (attr : String) :
    attributeText ctx id attr = attributeText ctx' id attr := by
  rw [attributeText, attributeText, refText, refText, resolveRef_congr hstack h]

end Names

section Step

-- `inner` and `inner'` stand for the resolution of values inside, in the two contexts.
variable {ctx ctx' : Context} {inner inner' deeper deeper' : Json → Noted Json}
  {key : String} {argument : Json} {i : Intrinsic}

/-- In a hole the same is put in. -/
theorem holeValue_congr (hstack : ctx.stack = ctx'.stack) {vars : Json.Fields} {name : String}
    (hvars : ∀ value, vars.lookup name = some value → deeper value = deeper' value)
    (hname : vars.lookup name = none →
      AgreeOn ctx ctx' name ∧ AgreeOn ctx ctx' (Text.upTo '.' name)) :
    holeValue deeper ctx vars name = holeValue deeper' ctx' vars name := by
  unfold holeValue
  cases hlookup : vars.lookup name with
  | some value =>
    simp only
    rw [hvars value hlookup]
  | none =>
    obtain ⟨hwhole, howner⟩ := hname hlookup
    simp only
    rw [known?_congr hstack hwhole]
    split
    · rfl
    split
    · next id attr hdivide =>
      rw [Text.upTo_of_divide? hdivide] at howner
      exact attributeText_congr hstack howner attr
    · rw [refText, refText, resolveRef_congr hstack hwhole]

theorem fill_congr (hstack : ctx.stack = ctx'.stack) {vars : Json.Fields} {template : String}
    (hvars : ∀ name value, vars.lookup name = some value → deeper value = deeper' value)
    (h : AgreeInHoles ctx ctx' template vars) :
    fill deeper ctx vars template = fill deeper' ctx' vars template := by
  have hpieces : (scan template.toList).mapM (fillPiece deeper ctx vars template) =
      (scan template.toList).mapM (fillPiece deeper' ctx' vars template) := by
    refine mapM_congr fun piece hpiece => ?_
    cases piece with
    | letter c => rfl
    | unclosed rest => rfl
    | hole raw =>
      simp only [fillPiece]
      split
      · rfl
      · next hescaped =>
        rw [holeValue_congr hstack (hvars _) (h.hole hpiece hescaped)]
  rw [fill, fill, hpieces]

theorem resolveSub_congr (hstack : ctx.stack = ctx'.stack)
    (hdeeper : ∀ c, Agree ctx ctx' c → deeper c = deeper' c)
    (h : Agree ctx ctx' (.object [(key, argument)]))
    (hi : Intrinsic.ofKey? key = some .sub) :
    resolveSub deeper ctx argument = resolveSub deeper' ctx' argument := by
  have hfill : ∀ {template vars}, IsTemplate argument template vars →
      fill deeper ctx vars template = fill deeper' ctx' vars template := fun ht =>
    fill_congr hstack (fun _ value hvalue => hdeeper value (h.ofVariable hi ht hvalue))
      (h.names.inHoles hi ht)
  unfold resolveSub
  split
  · exact hfill (.text _)
  · exact hfill (.alone _)
  · exact hfill (.withVariables _ _)
  · rfl
  · rfl

variable (hinner : ∀ c, Agree ctx ctx' c → inner c = inner' c)
  (h : Agree ctx ctx' (.object [(key, argument)]))

include hinner h

theorem resolveGetAtt_congr (hstack : ctx.stack = ctx'.stack)
    (hi : Intrinsic.ofKey? key = some .getAtt) :
    resolveGetAtt inner ctx argument = resolveGetAtt inner' ctx' argument := by
  unfold resolveGetAtt
  split
  · next id attr =>
    have hattr := hinner attr (h.getAttAttribute hi)
    have howner : AgreeOn ctx ctx' id := h.names.getAttOwner hi rfl
    simp only [hattr, attributeText_congr hstack howner]
  · rfl
  · next dotted =>
    split
    · next id attr hdivide =>
      have howner : AgreeOn ctx ctx' id :=
        h.names.getAttOwner hi (congrArg some (Text.upTo_of_divide? hdivide))
      rw [attributeText_congr hstack howner]
    · rfl
  · rfl

theorem resolveJoin_congr (hi : Intrinsic.ofKey? key = some .join) :
    resolveJoin inner argument = resolveJoin inner' argument := by
  unfold resolveJoin
  split
  · next delimiter parts =>
    obtain ⟨hdelimiter, hparts⟩ := h.ofPair hi (by simp)
    rw [hinner delimiter hdelimiter, hinner parts hparts]
  · rfl

theorem resolveSelect_congr (hi : Intrinsic.ofKey? key = some .select) :
    resolveSelect inner argument = resolveSelect inner' argument := by
  unfold resolveSelect
  split
  · next index items =>
    obtain ⟨hindex, hitems⟩ := h.ofPair hi (by simp)
    rw [hinner index hindex]
    congr 1
    funext index
    split
    · rfl
    · next written =>
      split
      · next item hitem => exact hinner item (hitems.item (List.mem_of_getElem? hitem))
      · rfl
    · rw [hinner _ hitems]
  · rfl

theorem resolveSplit_congr (hi : Intrinsic.ofKey? key = some .split) :
    resolveSplit inner argument = resolveSplit inner' argument := by
  unfold resolveSplit
  split
  · next delimiter source =>
    obtain ⟨hdelimiter, hsource⟩ := h.ofPair hi (by simp)
    rw [hinner delimiter hdelimiter, hinner source hsource]
  · rfl

theorem resolveIf_congr (hi : Intrinsic.ofKey? key = some .ifElse) :
    resolveIf inner ctx argument = resolveIf inner' ctx' argument := by
  unfold resolveIf
  split
  · next condition whenTrue whenFalse =>
    obtain ⟨hcondition, htrue, hfalse⟩ := h.ofIf hi
    rw [Context.holds, hcondition, ← Context.holds]
    split
    · exact hinner whenTrue htrue
    · exact hinner whenFalse hfalse
  · rfl

/-- A call stands for the same in both contexts. -/
theorem resolveCall_congr (hstack : ctx.stack = ctx'.stack)
    (hdeeper : ∀ c, Agree ctx ctx' c → deeper c = deeper' c)
    (hi : Intrinsic.ofKey? key = some i) :
    resolveCall inner deeper ctx i argument = resolveCall inner' deeper' ctx' i argument := by
  cases i with
  | ref =>
    simp only [resolveCall]
    split
    · exact resolveRef_congr hstack (h.names.ref hi)
    · rfl
  | getAtt => exact resolveGetAtt_congr hinner h hstack hi
  | sub => exact resolveSub_congr hstack hdeeper h hi
  | join => exact resolveJoin_congr hinner h hi
  | select => exact resolveSelect_congr hinner h hi
  | split => exact resolveSplit_congr hinner h hi
  | ifElse => exact resolveIf_congr hinner h hi
  | base64 =>
    simp only [resolveCall]
    rw [hinner argument (h.ofBase64 hi)]
  | zones => rfl

omit h in
/-- A value becomes the same in both contexts, when the values inside it do. -/
theorem step_congr (hstack : ctx.stack = ctx'.stack)
    (hdeeper : ∀ c, Agree ctx ctx' c → deeper c = deeper' c) {v : Json}
    (h : Agree ctx ctx' v) : step inner deeper ctx v = step inner' deeper' ctx' v := by
  unfold step
  split
  · next fields =>
    split
    · next i argument hcall =>
      obtain ⟨key, rfl, hi⟩ := eq_of_ofFields? hcall
      exact resolveCall_congr hinner h hstack hdeeper hi
    · next hcall =>
      congr 1
      refine mapM_congr fun (key, value) hfield => ?_
      have hvalue := hinner value (h.field hcall hfield)
      simp only [hvalue]
  · next items => rw [mapM_congr fun item hitem => hinner item (h.item hitem)]
  · rfl

end Step

/-- A value is resolved to the same in both contexts, however many levels are looked into. -/
theorem resolveWithin_of_agree {ctx ctx' : Context} (hstack : ctx.stack = ctx'.stack)
    (levels : Nat) {v : Json} (h : Agree ctx ctx' v) :
    resolveWithin ctx levels v = resolveWithin ctx' levels v := by
  match levels with
  | 0 => rfl
  | 1 => exact step_congr (fun _ _ => rfl) hstack (fun _ _ => rfl) h
  | levels + 2 =>
    exact step_congr (fun c hc => resolveWithin_of_agree hstack (levels + 1) hc) hstack
      (fun c hc => resolveWithin_of_agree hstack levels hc) h

/-- Two contexts that have the same stack and the same conditions. -/
structure Akin (ctx ctx' : Context) : Prop where
  stack : ctx.stack = ctx'.stack
  condition? : ∀ name, ctx.condition? name = ctx'.condition? name

theorem resolveWithin_congr {ctx ctx' : Context} (hakin : Akin ctx ctx') (levels : Nat) {v : Json}
    (h : AgreeAbout ctx ctx' v) : resolveWithin ctx levels v = resolveWithin ctx' levels v :=
  resolveWithin_of_agree hakin.stack levels ⟨h, fun name _ => hakin.condition? name⟩

/-- What a value resolves to depends on nothing but the stack, the conditions and the bindings of
the names it refers to, of the empty name, of the pseudo parameters and of the names that the
search for references overlooks. -/
theorem resolve_congr (v : Json) (ctx ctx' : Context) (hakin : Akin ctx ctx')
    (hreferences : ∀ id ∈ references v, AgreeOn ctx ctx' id) (hempty : AgreeOn ctx ctx' "")
    (hpseudo : ∀ id, Text.startsWith "AWS::" id = true → AgreeOn ctx ctx' id)
    (hoverlooked : ∀ id ∈ overlooked v, AgreeOn ctx ctx' id) :
    resolve ctx v = resolve ctx' v := by
  refine resolveWithin_congr hakin (nestingLimit + 1) fun id hid => ?_
  rcases hid with hmention | hid
  · by_cases hlink : isLink id = true
    · refine hreferences id (List.mem_eraseDups.2 (List.mem_filter.2 ⟨hmention, hlink⟩))
    · simp only [isLink, Bool.and_eq_true, Bool.not_eq_true', not_and, Bool.not_eq_false]
        at hlink
      by_cases hid : id.isEmpty = true
      · rw [String.isEmpty_iff.1 hid]
        exact hempty
      · exact hpseudo id (hlink (by simpa using hid))
  · exact hoverlooked id hid

/-! ## Contexts that differ in one name -/

section OneName

variable (ctx : Context) (name identifier : String)

theorem akin_bindResource : Akin ctx (ctx.bindResource name identifier) := ⟨rfl, fun _ => rfl⟩

/-- Binding a name changes nothing for the others. -/
theorem agreeOn_bindResource {id : String} (h : id ≠ name) :
    AgreeOn ctx (ctx.bindResource name identifier) id := by
  refine ⟨?_, rfl⟩
  rw [Context.resource?, Context.resource?, Context.bindResource, lookup_bindOnce, if_neg h,
    Option.or_none]

theorem agreeOn_of_not_mem {ids : List String} (h : name ∉ ids) :
    ∀ id ∈ ids, AgreeOn ctx (ctx.bindResource name identifier) id := by
  intro id hid
  refine agreeOn_bindResource ctx name identifier ?_
  rintro rfl
  exact h hid

theorem agreeOn_pseudo (h : Text.startsWith "AWS::" name = false) (id : String)
    (hid : Text.startsWith "AWS::" id = true) :
    AgreeOn ctx (ctx.bindResource name identifier) id := by
  refine agreeOn_bindResource ctx name identifier ?_
  rintro rfl
  simp [h] at hid

end OneName

/-- An attribute whose name is a reference. -/
def attributeByName : Json :=
  .object [("Fn::GetAtt", .array [.string "Table", .object [("Ref", .string "Name")]])]

/-- The queue does not matter for the attribute, since nothing in it mentions the queue. -/
theorem resolve_ignores_queue :
    resolve {} attributeByName =
      resolve (({} : Context).bindResource "Queue" "queue") attributeByName :=
  resolve_congr attributeByName {} _ (akin_bindResource {} "Queue" "queue")
    (agreeOn_of_not_mem {} "Queue" "queue" (by decide +kernel))
    (agreeOn_bindResource {} "Queue" "queue" (by simp))
    (agreeOn_pseudo {} "Queue" "queue" (by decide +kernel))
    (agreeOn_of_not_mem {} "Queue" "queue" (by decide +kernel))

theorem resolve_attributeByName (ctx : Context) :
    resolve ctx attributeByName = resolveRef ctx "Name" >>= fun attr =>
      Json.string <$> attributeText ctx "Table" attr.plainText := rfl

/-- The references, the empty name and the pseudo parameters are not all that a value depends on:
the attribute of a `GetAtt` is resolved, and what it refers to is not among the references. -/
theorem references_miss_attribute :
    ¬ ∀ (v : Json) (ctx ctx' : Context), Akin ctx ctx' →
      (∀ id ∈ references v, AgreeOn ctx ctx' id) → AgreeOn ctx ctx' "" →
      (∀ id, Text.startsWith "AWS::" id = true → AgreeOn ctx ctx' id) →
      (resolve ctx v).value = (resolve ctx' v).value := by
  intro h
  have hsame := h attributeByName {} (({} : Context).bindResource "Name" "name")
    (akin_bindResource {} "Name" "name")
    (agreeOn_of_not_mem {} "Name" "name" (by decide +kernel))
    (agreeOn_bindResource {} "Name" "name" (by simp))
    (agreeOn_pseudo {} "Name" "name" (by decide +kernel))
  rw [resolve_attributeByName, resolve_attributeByName] at hsame
  -- the attribute is the placeholder of the name in one context and its identifier in the other
  have hattr : placeholderArn "Name" none = "name" := by
    simpa [resolveRef, known?, pseudoParameter?, attributeText, refText, Context.bindResource,
      bindOnce, Context.resource?, Context.type?] using hsame
  exact absurd hattr (by decide +kernel)

end LocalCloud.Expression
