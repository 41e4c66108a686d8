import LocalCloud.Proofs.Model.Readings

/-!
# Templates with one projection

What the projection makes of a resource, it makes of each resource that is alike: one law for each
kind of entry, and one for each kind of resource that belongs to an entry.  So templates whose
resources are alike have the same projection (`Template.project_similar`).
-/

namespace LocalCloud

open Expression (resolve)
open ResourceType (reading)

theorem ResourceType.eq_function_of_kind? {type : String}
    (h : (kind? type == some .function) = true) : type = function := by
  unfold kind? kinds at h
  simp only [List.lookup_cons] at h
  repeat' split at h
  all_goals simp_all

namespace Projector

variable {p p' : Projector} {r r' : Resource}

/-! ## Reading one resource -/

theorem Alike.codeOf (hr : p.Alike r r') (htype : r.type = ResourceType.function) :
    Projector.codeOf r' (resolve p.ctx r'.properties).value =
      Projector.codeOf r (resolve p.ctx r.properties).value := by
  have hlooks := hr.resolved
  rw [htype] at hlooks
  have hkey : ((resolve p.ctx r'.properties).value.at? ["Code", "S3Key"]).bind Json.asString? =
      ((resolve p.ctx r.properties).value.at? ["Code", "S3Key"]).bind Json.asString? := by
    refine (hlooks.blurred ["Code", "S3Key"] (by decide) (by decide)).congr
      (fun v => v.bind Json.asString?) ?_ fun _ _ => rfl
    rintro x rfl
    rfl
  have hsource := hlooks.at?_eq ["Code", "ZipFile"] (by decide) (by decide)
  simp only [Projector.codeOf, Resource.bundlePath?, hr.metadata, hkey, hsource]

/-- The name that a raw value begins with is the same, or that of no resource. -/
theorem Alike.firstReference? (hr : p.Alike r r') {key : String}
    (hkept : [key] ∈ (reading r.type).kept) (hlinked : [key] ∈ (reading r.type).linked) :
    Projector.firstReference? (r'.property? key) = Projector.firstReference? (r.property? key) ∨
    Projector.firstReference? (r'.property? key) = none ∧
      ∀ id ∈ Projector.firstReference? (r.property? key), p.resource? id = none := by
  rcases (hr.raw.get?_missing key hkept).eq_or with hsame | ⟨x, -, hx, hnone⟩
  · exact .inl (congrArg Projector.firstReference? hsame)
  · refine .inr ⟨congrArg Projector.firstReference? hnone, fun id hid => ?_⟩
    have hnames := hr.namesAt key hlinked
    rw [Resource.property?, Resource.property?, hx, hnone] at hnames
    rw [Projector.firstReference?, Resource.property?, hx] at hid
    have hmem : id ∈ Expression.references x := List.mem_of_head? hid
    refine Option.eq_none_iff_forall_not_mem.2 fun node hnode => ?_
    obtain ⟨hresource, -, rfl⟩ := resource?_eq_some hnode
    have hname : node.logicalId ∈ p.names (some x) := by
      refine List.mem_filter.2 ⟨hmem, ?_⟩
      rw [List.contains_iff_mem]
      exact List.mem_map_of_mem hresource
    rw [← hnames] at hname
    contradiction

/-- The text of a raw value is the same, or that of nothing. -/
theorem Alike.textOf (hr : p.Alike r r') (key : String) (hkept : [key] ∈ (reading r.type).kept) :
    (p.textOf (r'.property? key)).value = (p.textOf (r.property? key)).value := by
  refine (hr.raw.get?_missing key hkept).congr (fun raw => (p.textOf raw).value) ?_
  rintro x ⟨-, hnull⟩
  show (resolve p.ctx x).value.plainText = ""
  rw [hnull]
  rfl

/-- The items of a raw list are the same. -/
theorem Alike.items (hr : p.Alike r r') (key : String) (hkey : Intrinsic.ofKey? key = none) :
    ((r'.property? key).bind Json.asArray?).getD [] =
      ((r.property? key).bind Json.asArray?).getD [] := by
  refine (hr.raw.get?_blurred key hkey).congr (fun raw => (raw.bind Json.asArray?).getD []) ?_
    fun _ _ => rfl
  rintro x ⟨⟨fields, rfl⟩, -⟩
  rfl

theorem Alike.definitionOf (hr : p.Alike r r') (htype : r.type = ResourceType.stateMachine) :
    (p.definitionOf r').value = (p.definitionOf r).value := by
  have hraw := hr.raw
  rw [htype] at hraw
  have hsubstitutions : r'.property? "DefinitionSubstitutions" =
      r.property? "DefinitionSubstitutions" := hraw.get?_eq _ (by decide) (by decide)
  have hstring : r'.property? "DefinitionString" = r.property? "DefinitionString" :=
    hraw.get?_eq _ (by decide) (by decide)
  have hvalue : ((r'.property? "Definition").elim .null fun raw => (resolve p.ctx raw).value) =
      (r.property? "Definition").elim .null fun raw => (resolve p.ctx raw).value := by
    refine (hraw.get?_missing "Definition" (by decide)).congr
      (fun raw => raw.elim .null fun raw => (resolve p.ctx raw).value) ?_
    rintro x ⟨-, hnull⟩
    exact hnull
  simp only [Projector.definitionOf, Noted.value_bind, hsubstitutions, hstring]
  cases r.property? "DefinitionString" with
  | some raw => rfl
  | none =>
    revert hvalue
    cases r.property? "Definition" <;> cases r'.property? "Definition" <;> exact fun hvalue => hvalue

theorem value_restSegments (p : Projector) (seen : List String) (id : String) :
    (p.restSegments seen (some id)).value =
      match p.resource? id with
      | none => []
      | some node =>
        if node.type != ResourceType.restResource then []
        else if id ∈ seen then []
        else (node.property? "PathPart").toList.map (fun v => (Expression.resolveText p.ctx v).value) ++
          (p.restSegments (id :: seen)
            (Projector.firstReference? (node.property? "ParentId"))).value := by
  rw [Projector.restSegments]
  split
  · next hnone =>
    simp only [hnone]
    rfl
  · next node hnode =>
    simp only [hnode]
    split
    · rfl
    split
    · rfl
    · simp only [Noted.value_bind, Noted.value_pure, Noted.value_mapM]

/-- The path above the resource that a raw value names first. -/
theorem Alike.restSegments (hr : p.Alike r r') (key : String)
    (hkept : [key] ∈ (reading r.type).kept) (hlinked : [key] ∈ (reading r.type).linked)
    {seen : List String}
    (hsame : (p'.restSegments seen (Projector.firstReference? (r.property? key))).value =
      (p.restSegments seen (Projector.firstReference? (r.property? key))).value) :
    (p'.restSegments seen (Projector.firstReference? (r'.property? key))).value =
      (p.restSegments seen (Projector.firstReference? (r.property? key))).value := by
  rcases hr.firstReference? hkept hlinked with heq | ⟨hnone, hunknown⟩
  · rw [heq]
    exact hsame
  · rw [hnone, Projector.restSegments]
    cases hfirst : Projector.firstReference? (r.property? key) with
    | none => rw [Projector.restSegments]
    | some parent =>
      rw [value_restSegments, hunknown parent hfirst]
      rfl

namespace Similar

variable (h : Similar p p')

include h

/-! ## Entries -/

theorem table (hr : p.Alike r r') (htype : r.type = ResourceType.table) :
    (p'.table r').value = (p.table r).value := by
  have hlooks := hr.resolved
  rw [htype] at hlooks
  have hstream := hlooks.shown ["StreamSpecification", "StreamViewType"] (by decide)
  simp only [Projector.table, attributeTypes, Projector.properties, Noted.value_bind,
    Noted.value_pure, h.entry hr, h.ctx]
  rw [hlooks.itemsAt (by decide), hlooks.itemsAt (by decide), hlooks.itemsAt (by decide), hstream]

theorem function (hr : p.Alike r r') (htype : r.type = ResourceType.function) :
    (p'.function r').value = (p.function r).value := by
  have hcode := hr.codeOf htype
  have hlooks := hr.resolved
  rw [htype] at hlooks
  have hvars : (((resolve p.ctx r'.properties).value.at? ["Environment", "Variables"]).bind
      Json.asObject?).getD [] =
      (((resolve p.ctx r.properties).value.at? ["Environment", "Variables"]).bind
        Json.asObject?).getD [] := by
    refine (hlooks.kept ["Environment", "Variables"] (by decide)).congr
      (fun v => (v.bind Json.asObject?).getD []) ?_
    rintro x rfl
    rfl
  simp only [Projector.function, Projector.properties, Noted.value_bind, Noted.value_pure,
    h.entry hr, h.ctx, hcode, hvars]
  rw [hlooks.textAt? (by decide), hlooks.textAt? (by decide), hlooks.naturalAt? (by decide),
    hlooks.naturalAt? (by decide)]

/-- The path above a resource of an API. -/
theorem restSegments (seen : List String) (current : Option String) :
    (p'.restSegments seen current).value = (p.restSegments seen current).value := by
  fun_induction Projector.restSegments p seen current with
  | case1 seen => rw [Projector.restSegments]
  | case2 seen id hnone =>
    rw [value_restSegments, h.resource?_eq_none hnone]
    rfl
  | case3 seen id node hnode htype =>
    obtain ⟨node', hnode', hr⟩ := h.exists_resource? hnode
    rw [value_restSegments, hnode']
    simp only [hr.type, htype, if_true]
    rfl
  | case4 seen id node hnode htype hseen =>
    obtain ⟨node', hnode', hr⟩ := h.exists_resource? hnode
    rw [value_restSegments, hnode']
    simp only [hr.type, htype, hseen]
    rfl
  | case5 seen id node hnode htype hseen ih =>
    obtain ⟨node', hnode', hr⟩ := h.exists_resource? hnode
    have hresource : node.type = ResourceType.restResource := by simpa using htype
    have hraw := hr.raw
    rw [hresource] at hraw
    have hsegment : node'.property? "PathPart" = node.property? "PathPart" :=
      hraw.get?_eq _ (by decide) (by decide)
    have habove := hr.restSegments "ParentId" (hresource ▸ by decide)
      (hresource ▸ by decide) ih
    rw [value_restSegments, hnode']
    simp only [hr.type, htype, hseen, hsegment, habove, h.ctx, Noted.value_bind, Noted.value_pure,
      Noted.value_mapM]
    rfl

theorem restPath (hr : p.Alike r r') (key : String) (hkept : [key] ∈ (reading r.type).kept)
    (hlinked : [key] ∈ (reading r.type).linked) :
    (p'.restPath (r'.property? key)).value = (p.restPath (r.property? key)).value := by
  have hsegments := hr.restSegments key hkept hlinked (h.restSegments [] _)
  simp only [Projector.restPath, Noted.value_bind, Noted.value_pure, hsegments]

theorem restRoute (hr : p.Alike r r') (htype : r.type = ResourceType.restMethod) :
    (p'.restRoute r').value = (p.restRoute r).value := by
  have hlooks := hr.resolved
  rw [htype] at hlooks
  have hpath := h.restPath hr "ResourceId" (htype ▸ by decide) (htype ▸ by decide)
  have htarget := h.linkAt hr "Integration" (htype ▸ by decide) [ResourceType.function]
  simp only [Projector.restRoute, Projector.properties, Noted.value_bind, Noted.value_pure, h.ctx,
    hpath, htarget]
  rw [hlooks.textAt? (by decide)]

theorem httpTarget? (hr : p.Alike r r') (htype : r.type = ResourceType.httpRoute) :
    p'.httpTarget? r' = p.httpTarget? r := by
  have hnames := hr.namesAt "Target" (htype ▸ by decide)
  -- the integrations that the two routes name first, if they name any
  have hfirst : Option.Rel (fun i i' => i.type = ResourceType.httpIntegration ∧ p.Alike i i')
      (p.linkedTo (p.names (r.property? "Target")) [ResourceType.httpIntegration]).head?
      (p'.linkedTo (p'.names (r'.property? "Target")) [ResourceType.httpIntegration]).head? := by
    refine rel_head? ((List.forall₂_and_left _ _).2 ⟨fun i hi => ?_, ?_⟩)
    · simpa using (List.mem_filter.1 hi).2
    · exact h.linkedTo ((h.names _).trans hnames) _
  have huri : ∀ i i', i.type = ResourceType.httpIntegration ∧ p.Alike i i' →
      (i'.property? "IntegrationUri").bind (p'.link? · [ResourceType.function]) =
        (i.property? "IntegrationUri").bind (p.link? · [ResourceType.function]) := by
    rintro i i' ⟨hi, hii'⟩
    exact h.linkAt hii' "IntegrationUri" (hi ▸ by decide) _
  have htarget : ∀ (q : Projector) (route : Resource), q.httpTarget? route =
      ((q.linkedTo (q.names (route.property? "Target")) [ResourceType.httpIntegration]).head?.map
        fun i => (i.property? "IntegrationUri").bind (q.link? · [ResourceType.function])).join := by
    intro q route
    rw [Projector.httpTarget?]
    cases route.property? "Target" with
    | none => rfl
    | some target =>
      rw [← referenced_eq]
      show ((q.referenced target [ResourceType.httpIntegration]).head?.bind fun i => _) = _
      cases (q.referenced target [ResourceType.httpIntegration]).head? <;> rfl
  rw [htarget, htarget, map_eq_of_rel huri hfirst]

theorem textOf (raw : Option Json) : p'.textOf raw = p.textOf raw := by
  cases raw with
  | none => rfl
  | some v => rw [Projector.textOf, Projector.textOf, h.ctx]

theorem httpRoute (hr : p.Alike r r') (htype : r.type = ResourceType.httpRoute) :
    (p'.httpRoute r').value = (p.httpRoute r).value := by
  have hkey := hr.textOf "RouteKey" (htype ▸ by decide)
  have htarget := h.httpTarget? hr htype
  have hroute : ∀ (q : Projector) (route : Resource), (q.httpRoute route).value =
      { method := (splitRouteKey (q.textOf (route.property? "RouteKey")).value).1
        path := (splitRouteKey (q.textOf (route.property? "RouteKey")).value).2
        target := q.httpTarget? route } := by
    intro q route
    rw [Projector.httpRoute]
    cases route.property? "RouteKey" <;> rfl
  rw [hroute, hroute, htarget, h.textOf, hkey]

/-- The resources that name an API. -/
theorem partsOf (hr : p.Alike r r') {type property : String}
    (hlinked : [property] ∈ (reading type).linked) :
    List.Forall₂ (fun part part' => part.type = type ∧ p.Alike part part')
      (p.partsOf type property r) (p'.partsOf type property r') := by
  refine (List.forall₂_and_left _ _).2 ⟨fun part hpart => ?_, ?_⟩
  · have hboth := (List.mem_filter.1 hpart).2
    rw [Bool.and_eq_true] at hboth
    exact beq_iff_eq.1 hboth.1
  · refine List.rel_filter (fun part part' hpart => ?_) h.included
    show (part.type == type && refersTo (part.property? property) r.logicalId) = true ↔
      (part'.type == type && refersTo (part'.property? property) r'.logicalId) = true
    by_cases htype : part.type = type
    · have hknown' : (p'.template.resources.map (·.logicalId)).contains r.logicalId = true := by
        rw [h.ids]
        exact hr.known
      rw [hpart.type, hr.logicalId, p.refersTo_eq _ hr.known, p'.refersTo_eq _ hknown', h.names,
        hpart.namesAt property (htype ▸ hlinked)]
    · have hother : (part.type == type) = false := beq_false_of_ne htype
      rw [hpart.type, hother, Bool.false_and, Bool.false_and]

theorem restApi (hr : p.Alike r r') : (p'.restApi r').value = (p.restApi r).value := by
  have hroutes : ((p'.partsOf ResourceType.restMethod "RestApiId" r').map fun part =>
      (p'.restRoute part).value) = (p.partsOf ResourceType.restMethod "RestApiId" r).map fun part =>
        (p.restRoute part).value :=
    map_eq_of_forall₂_rel (h.partsOf hr (by decide)) fun _ _ hpart => h.restRoute hpart.2 hpart.1
  simp only [Projector.restApi, Noted.value_bind, Noted.value_pure, Noted.value_mapM, hroutes,
    h.entry hr]

theorem httpApi (hr : p.Alike r r') : (p'.httpApi r').value = (p.httpApi r).value := by
  have hroutes : ((p'.partsOf ResourceType.httpRoute "ApiId" r').map fun part =>
      (p'.httpRoute part).value) = (p.partsOf ResourceType.httpRoute "ApiId" r).map fun part =>
        (p.httpRoute part).value :=
    map_eq_of_forall₂_rel (h.partsOf hr (by decide)) fun _ _ hpart => h.httpRoute hpart.2 hpart.1
  simp only [Projector.httpApi, Noted.value_bind, Noted.value_pure, Noted.value_mapM, hroutes,
    h.entry hr]

theorem stateMachine (hr : p.Alike r r') (htype : r.type = ResourceType.stateMachine) :
    (p'.stateMachine r').value = (p.stateMachine r).value := by
  have hdefinition : (p'.definitionOf r').value = (p.definitionOf r).value := by
    rw [← hr.definitionOf htype, Projector.definitionOf, Projector.definitionOf, h.ctx]
  have hinvokes : ∀ (q : Projector) (r : Resource), (q.stateMachine r).value.invokes =
      ((["DefinitionString", "Definition", "DefinitionSubstitutions"].flatMap fun key =>
        (q.linkedTo (q.names (r.property? key)) [ResourceType.function]).map
          fun f => q.idOf f.logicalId)).eraseDups := by
    intro q r
    have hnone : ∀ types, q.linkedTo (q.names none) types = [] := fun _ => rfl
    simp only [Projector.stateMachine, Noted.value_bind, Noted.value_pure, List.map_flatMap,
      List.flatMap_cons, List.flatMap_nil, List.filterMap_cons, List.filterMap_nil]
    cases r.property? "DefinitionString" <;> cases r.property? "Definition" <;>
      cases r.property? "DefinitionSubstitutions" <;> simp [referenced_eq, hnone]
  have hlinks : ∀ key ∈ ["DefinitionString", "Definition", "DefinitionSubstitutions"],
      (p'.linkedTo (p'.names (r'.property? key)) [ResourceType.function]).map
        (fun f => p'.idOf f.logicalId) =
      (p.linkedTo (p.names (r.property? key)) [ResourceType.function]).map
        fun f => p.idOf f.logicalId := by
    intro key hkey
    have hlinked : [key] ∈ (reading r.type).linked := by
      rw [htype]
      exact List.mem_map_of_mem (f := ([·])) hkey
    exact map_eq_of_forall₂_rel (h.linkedTo ((h.names _).trans (hr.namesAt key hlinked)) _)
      fun _ _ hf => h.idOf_alike hf
  have hsame : (p'.stateMachine r').value.invokes = (p.stateMachine r).value.invokes := by
    rw [hinvokes, hinvokes, List.flatMap_congr hlinks]
  rw [Projector.stateMachine, Projector.stateMachine] at hsame ⊢
  simp only [Noted.value_bind, Noted.value_pure] at hsame ⊢
  rw [hsame, hdefinition, h.entry hr]

theorem queue (hr : p.Alike r r') (htype : r.type = ResourceType.queue) :
    (p'.queue r').value = (p.queue r).value := by
  have hlooks := hr.resolved
  rw [htype] at hlooks
  have hdeadLetter : ((r'.property? "RedrivePolicy").bind (·.get? "deadLetterTargetArn")).bind
      (p'.link? · [ResourceType.queue]) =
      ((r.property? "RedrivePolicy").bind (·.get? "deadLetterTargetArn")).bind
        (p.link? · [ResourceType.queue]) := by
    have hnames := hr.linked ["RedrivePolicy", "deadLetterTargetArn"] (htype ▸ by decide)
    rw [Json.at?_cons, Json.at?_cons] at hnames
    simp only [Json.at?_singleton] at hnames
    exact h.link hnames _
  simp only [Projector.queue, Projector.properties, Noted.value_bind, Noted.value_pure, h.ctx,
    h.entry hr, h.nameOf hr, hdeadLetter]
  rw [hlooks.truthAt (by decide), hlooks.naturalAt? (by decide)]

theorem subscription {endpoint endpoint' protocol protocol' : Option Json}
    (hendpoint : (p.textOf endpoint').value = (p.textOf endpoint).value)
    (hprotocol : (p.textOf protocol').value = (p.textOf protocol).value)
    (hnames : p.names endpoint' = p.names endpoint) :
    (p'.subscription endpoint' protocol').value = (p.subscription endpoint protocol).value := by
  simp only [Projector.subscription, Noted.value_bind, Noted.value_pure, h.textOf, hendpoint,
    hprotocol, h.link hnames]

theorem topic (hr : p.Alike r r') : (p'.topic r').value = (p.topic r).value := by
  have hitems := hr.items "Subscription" (by decide)
  have hsubscription : ∀ endpoint protocol, (p'.subscription endpoint protocol).value =
      (p.subscription endpoint protocol).value := fun _ _ => h.subscription rfl rfl rfl
  simp only [Projector.topic, Noted.value_bind, Noted.value_pure, Noted.value_mapM, hitems,
    hsubscription, h.entry hr]

theorem addEntry (hr : p.Alike r r') (m : Model) :
    (p'.addEntry m r').value = (p.addEntry m r).value := by
  unfold Projector.addEntry
  rw [hr.type]
  split
  · next htype =>
    simp only [Noted.value_bind, Noted.value_pure, h.table hr (beq_iff_eq.1 htype)]
  split
  · next htype =>
    simp only [Noted.value_bind, Noted.value_pure, h.function hr (beq_iff_eq.1 htype)]
  split
  · simp only [Noted.value_bind, Noted.value_pure, h.restApi hr]
  split
  · simp only [Noted.value_bind, Noted.value_pure, h.httpApi hr]
  split
  · rw [Projector.bus, Projector.bus, h.entry hr]
  split
  · next htype =>
    simp only [Noted.value_bind, Noted.value_pure, h.stateMachine hr (beq_iff_eq.1 htype)]
  split
  · next htype =>
    simp only [Noted.value_bind, Noted.value_pure, h.queue hr (beq_iff_eq.1 htype)]
  split
  · simp only [Noted.value_bind, Noted.value_pure, h.topic hr]
  · rfl

/-! ## Resources that belong to an entry -/

/-- A mapping names the same one among the functions of the template. -/
theorem mappedFunction? (hr : p.Alike r r') (htype : r.type = ResourceType.eventSourceMapping)
    {functions : List Model.ComputeFunction}
    (hfunctions : functions.map (·.toEntry) = p.entriesOf .function) :
    (p'.mappedFunction? r' functions).value = (p.mappedFunction? r functions).value := by
  have hmapped : ∀ (q : Projector) (r : Resource), (q.mappedFunction? r functions).value =
      (((r.property? "FunctionName").bind (q.link? · [ResourceType.function])).bind
        fun id => functions.findIdx? (·.id == id)).or
      ((r.property? "FunctionName").bind fun raw =>
        functions.findIdx? (·.name == (Expression.resolveText q.ctx raw).value)) := by
    intro q r
    unfold Projector.mappedFunction?
    cases r.property? "FunctionName" with
    | none => rfl
    | some raw =>
      dsimp only [Option.bind_some]
      cases (q.link? raw [ResourceType.function]).bind
        fun id => functions.findIdx? (·.id == id) <;> rfl
  have hnamed : ((r'.property? "FunctionName").bind fun raw =>
      functions.findIdx? (·.name == (Expression.resolveText p.ctx raw).value)) =
      (r.property? "FunctionName").bind fun raw =>
        functions.findIdx? (·.name == (Expression.resolveText p.ctx raw).value) := by
    rcases hr.target htype with hsame | hnames
    · rw [hsame]
    refine (hr.raw.get?_missing "FunctionName" (htype ▸ by decide)).congr
      (fun raw => raw.bind fun raw =>
        functions.findIdx? (·.name == (Expression.resolveText p.ctx raw).value)) ?_
    rintro x ⟨-, hnull⟩
    have htext : (Expression.resolveText p.ctx x).value = "" := by
      show (resolve p.ctx x).value.plainText = ""
      rw [hnull]
      rfl
    rw [Option.bind_some, Option.bind_none, htext, List.findIdx?_eq_none_iff]
    intro f hf
    have hentry : f.toEntry ∈ p.entriesOf .function :=
      hfunctions ▸ List.mem_map.2 ⟨f, hf, rfl⟩
    obtain ⟨own, hown, heq⟩ := List.mem_map.1 hentry
    obtain ⟨hincluded, hkind⟩ := List.mem_filter.1 hown
    have hname : f.name = p.nameOf own := congrArg Model.Entry.name heq.symm
    rw [hname]
    exact beq_false_of_ne (hnames own hincluded (ResourceType.eq_function_of_kind? hkind))
  rw [hmapped, hmapped, h.linkAt hr "FunctionName" (htype ▸ by decide), h.ctx, hnamed]

theorem attachEventSource (hr : p.Alike r r') (htype : r.type = ResourceType.eventSourceMapping)
    {functions : List Model.ComputeFunction}
    (hfunctions : functions.map (·.toEntry) = p.entriesOf .function) :
    (p'.attachEventSource r' functions).value = (p.attachEventSource r functions).value := by
  have hsource := h.linkAt hr "EventSourceArn" (htype ▸ by decide) ResourceType.modelled
  simp only [Projector.attachEventSource, Noted.value_bind, h.mappedFunction? hr htype hfunctions,
    hsource]
  cases (p.mappedFunction? r functions).value <;> rfl

theorem ruleOf (hr : p.Alike r r') (htype : r.type = ResourceType.eventRule) :
    p'.ruleOf r' (resolve p.ctx r'.properties).value =
      p.ruleOf r (resolve p.ctx r.properties).value := by
  have hlooks := hr.resolved
  rw [htype] at hlooks
  have hitems := hr.items "Targets" (by decide)
  have hpattern : ((resolve p.ctx r'.properties).value.get? "EventPattern").getD .null =
      ((resolve p.ctx r.properties).value.get? "EventPattern").getD .null := by
    refine (hlooks.get?_missing "EventPattern" (by decide)).congr (·.getD .null) ?_
    rintro x rfl
    rfl
  have hlink : ∀ v, p'.link? v ResourceType.modelled = p.link? v ResourceType.modelled :=
    fun v => h.link (rfl : p.names (some v) = p.names (some v)) _
  simp only [Projector.ruleOf, hr.logicalId, h.nameOf hr, hitems, hpattern, hlink]
  rw [hlooks.textAt? (by decide), hlooks.textAt? (by decide)]

theorem attachRule (hr : p.Alike r r') (htype : r.type = ResourceType.eventRule)
    (out : Projection) : (p'.attachRule r' out).value = (p.attachRule r out).value := by
  have hrule := h.ruleOf hr htype
  have hbus := h.linkAt hr "EventBusName" (htype ▸ by decide) [ResourceType.eventBus]
  have hname : (resolve p.ctx r'.properties).value.textAt? "EventBusName" =
      (resolve p.ctx r.properties).value.textAt? "EventBusName" :=
    hr.resolved.textAt? (htype ▸ by decide)
  simp only [Projector.attachRule, Projector.properties, Noted.value_bind, h.ctx, h.stack, hrule,
    hbus, hname]

theorem attachSubscription (hr : p.Alike r r') (htype : r.type = ResourceType.subscription)
    (topics : List Model.Topic) :
    (p'.attachSubscription r' topics).value = (p.attachSubscription r topics).value := by
  have htopic := h.linkAt hr "TopicArn" (htype ▸ by decide) [ResourceType.topic]
  have hsubscription := h.subscription (hr.textOf "Endpoint" (htype ▸ by decide))
    (hr.textOf "Protocol" (htype ▸ by decide)) (hr.namesAt "Endpoint" (htype ▸ by decide))
  unfold Projector.attachSubscription
  dsimp only
  rw [htopic]
  cases ((r.property? "TopicArn").bind (p.link? · [ResourceType.topic])).bind
    fun id => topics.findIdx? (·.id == id) with
  | none => rfl
  | some i => simp only [Noted.value_bind, Noted.value_pure, hsubscription]

theorem attach (hr : p.Alike r r') {out : Projection}
    (hfunctions : out.model.entriesOf .function = p.entriesOf .function) :
    (p'.attach out r').value = (p.attach out r).value := by
  unfold Projector.attach
  rw [hr.type]
  split
  · next htype =>
    simp only [Noted.value_bind, Noted.value_pure,
      h.attachEventSource hr (beq_iff_eq.1 htype) hfunctions]
  split
  · next htype => exact h.attachRule hr (beq_iff_eq.1 htype) out
  split
  · next htype =>
    simp only [Noted.value_bind, Noted.value_pure, h.attachSubscription hr (beq_iff_eq.1 htype)]
  · rfl

end Similar

end Projector

/-- Templates whose resources are alike have the same projection. -/
theorem Template.project_similar {t t' : Template} {ctx : Context}
    (h : Projector.Similar ⟨t, ctx⟩ ⟨t', ctx⟩) :
    (t'.project ctx).value = (t.project ctx).value := by
  let p : Projector := ⟨t, ctx⟩
  let p' : Projector := ⟨t', ctx⟩
  have hmodel : p'.included.foldl (fun m r => (p'.addEntry m r).value) {} =
      p.included.foldl (fun m r => (p.addEntry m r).value) {} := by
    refine List.rel_foldl (P := fun m m' : Model => m' = m) ?_ rfl h.included
    rintro m m' rfl r r' hr
    exact h.addEntry hr m'
  -- no step changes what the functions have like every entry, their names among it
  have hattached : ∀ out : Projection, out.model.entriesOf .function = p.entriesOf .function →
      p'.included.foldl (fun out r => (p'.attach out r).value) out =
        p.included.foldl (fun out r => (p.attach out r).value) out := by
    intro out hout
    refine (List.rel_foldl (P := fun out out' : Projection =>
      out' = out ∧ out.model.entriesOf .function = p.entriesOf .function) ?_
        ⟨rfl, hout⟩ h.included).1
    rintro out out' ⟨rfl, hfunctions⟩ r r' hr
    exact ⟨h.attach hr hfunctions, (p.entriesOf_attach out' r .function).trans hfunctions⟩
  simp only [Template.project, Noted.value_bind, Noted.value_foldlM]
  exact (congrArg (fun m => p'.included.foldl (fun out r => (p'.attach out r).value) { model := m })
    hmodel).trans (hattached _ (p.entriesOf_foldl_addEntry p.included {} .function))

end LocalCloud
