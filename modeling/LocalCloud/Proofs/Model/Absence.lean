import LocalCloud.Proofs.Model.Likeness
import LocalCloud.Proofs.Model.Environment

/-!
# Properties without a value

A property that resolves to nothing is projected like one that is not there
(`Template.project_without_nothing`).  This holds of every field at any depth of the properties,
unless it is at one of the few places that the projection does more with than look into them
(`Projector.Overlooks`): there, it can be told that something was written down
(`Template.nothing_seen`).
-/

namespace LocalCloud

open Expression (IsNothing references resolve valueWithin)
open ResourceType (reading)

variable {x v w : Json} {path : List String} {type : String}

/-! ## Lists -/

/-- Which names are looked for does not depend on how often they are there. -/
theorem filter_eraseDups (f : String → Bool) (names : List String) :
    names.eraseDups.filter f = (names.filter f).eraseDups := by
  match names with
  | [] => rfl
  | first :: rest =>
    have ih := filter_eraseDups f (rest.filter (!· == first))
    have hcomm : (rest.filter (!· == first)).filter f = (rest.filter f).filter (!· == first) := by
      simp only [List.filter_filter, Bool.and_comm]
    rw [List.eraseDups_cons, List.filter_cons, List.filter_cons, ih, hcomm]
    split
    · rw [List.eraseDups_cons]
    · next hfirst =>
      congr 1
      refine List.filter_eq_self.2 fun name hname => ?_
      have hf := (List.mem_filter.1 hname).2
      rw [Bool.not_eq_true']
      refine beq_false_of_ne ?_
      rintro rfl
      exact hfirst hf
termination_by names.length
decreasing_by exact Nat.lt_succ_of_le (List.length_filter_le _ _)

/-- The list with an item replaced by a related one. -/
theorem forall₂_set {α : Type} {R : α → α → Prop} {l : List α} {i : Nat} {a b : α}
    (hrefl : ∀ c ∈ l, R c c) (hi : l[i]? = some a) (hab : R a b) :
    List.Forall₂ R l (l.set i b) := by
  induction l generalizing i with
  | nil => contradiction
  | cons first rest ih =>
    obtain ⟨hfirst, hrest⟩ := List.forall_mem_cons.1 hrefl
    cases i with
    | zero =>
      obtain rfl : first = a := Option.some.inj hi
      exact .cons hab (List.forall₂_same.2 hrest)
    | succ i => exact .cons hfirst (ih hrest hi)

/-! ## Places -/

namespace ResourceType

theorem readings_short : ∀ entry ∈ readings,
    ∀ chain ∈ entry.2.kept ++ entry.2.shown ++ entry.2.linked,
      chain.length ≤ 2 ∧ ∀ key ∈ chain, Intrinsic.ofKey? key = none := by decide

/-- All places are near the top of the properties, and no function is named on the way. -/
theorem reading_short (type : String) :
    ∀ chain ∈ (reading type).kept ++ (reading type).shown ++ (reading type).linked,
      chain.length ≤ 2 ∧ ∀ key ∈ chain, Intrinsic.ofKey? key = none := by
  intro chain h
  rw [reading] at h
  cases hlookup : readings.lookup type with
  | none =>
    rw [hlookup] at h
    contradiction
  | some found =>
    rw [hlookup] at h
    obtain ⟨before, after, hsplit, -⟩ := List.lookup_eq_some_iff.1 hlookup
    exact readings_short (type, found) (by simp [hsplit]) chain h

end ResourceType

/-- Without a field that counts for nothing, a value looks alike, unless the field is inside of
what is kept, or it is told whether the field is there. -/
theorem Looks.of_drops {P : Json → Prop} (h : Json.Drops x path v w) (hx : path.length ≤ 2 → P x)
    (hempty : path.length ≤ 2 → ∀ key, Intrinsic.ofKey? key = none → x.get? key = none)
    (hkept : ∀ chain ∈ (reading type).kept, chain <+: path → path = chain)
    (hshown : path ∉ (reading type).shown) : Looks P type v w := by
  have hcases : ∀ {chain : List String}, chain.length ≤ 2 →
      (∀ key ∈ chain, Intrinsic.ofKey? key = none) → _ := fun hlength hkeys =>
    h.at?_cases fun hle key hkey => hempty (hle.trans hlength) key (hkeys key hkey)
  constructor
  case blurred =>
    intro chain hlength hkeys
    rcases hcases hlength hkeys with ⟨rfl, hv, hw⟩ | ⟨rest, v', w', -, hrest, hv, hw⟩ | ⟨-, hsame⟩
    · rw [hv, hw]
      exact .missing (.gone (hx hlength))
    · obtain ⟨fields, fields', rfl, rfl⟩ := hrest.exists_objects
      rw [hv, hw]
      exact .inside fields fields'
    · rw [hsame]
      exact .missing (.same _)
  case kept =>
    intro chain hchain
    obtain ⟨hlength, hkeys⟩ := ResourceType.reading_short type chain (by simp [hchain])
    rcases hcases hlength hkeys with ⟨rfl, hv, hw⟩ | ⟨rest, v', w', rfl, hrest, -, -⟩ | ⟨-, hsame⟩
    · rw [hv, hw]
      exact .gone (hx hlength)
    · have hnil : rest = [] := by simpa using hkept chain hchain (List.prefix_append _ _)
      subst hnil
      cases hrest
    · rw [hsame]
      exact .same _
  case shown =>
    intro chain hchain
    obtain ⟨hlength, hkeys⟩ := ResourceType.reading_short type chain (by simp [hchain])
    rcases hcases hlength hkeys with ⟨rfl, -, -⟩ | ⟨rest, v', w', -, -, hv, hw⟩ | ⟨-, hsame⟩
    · contradiction
    · rw [hv, hw]
      rfl
    · rw [hsame]

/-! ## Fields that the projection overlooks -/

namespace Projector

variable {p : Projector} {r : Resource} {choices : Nat}

/-- The projection does not see whether a field is there, if it resolves to nothing. -/
structure Overlooks (p : Projector) (r : Resource) (path : List String) (x : Json) : Prop where
  /-- It may be a value that is kept, but not be inside of one. -/
  kept : ∀ chain ∈ (reading r.type).kept, chain <+: path → path = chain
  /-- It is at no place of which it is told whether there is a value. -/
  shown : path ∉ (reading r.type).shown
  /-- Where links are searched for, it names no resource, in what is not chosen either. -/
  linked : ∀ chain ∈ (reading r.type).linked, chain <+: path →
    ∀ id ∈ references x, id ∉ p.template.resources.map (·.logicalId)
  /-- There is no function without a name that a mapping to no name could mean. -/
  target : r.type = ResourceType.eventSourceMapping → path = ["FunctionName"] →
    ∀ f ∈ p.included, f.type = ResourceType.function → p.nameOf f ≠ ""

theorem names_eq (p : Projector) (v : Json) : p.names (some v) =
    (((Expression.mentions v).filter Expression.isLink).filter fun id =>
      (p.template.resources.map (·.logicalId)).contains id).eraseDups := by
  rw [names, Option.elim_some, references, filter_eraseDups]

/-- Without a field that names no resource, a value names the same resources. -/
theorem names_drops (h : Json.Drops x path v w)
    (hx : ∀ id ∈ references x, id ∉ p.template.resources.map (·.logicalId)) :
    p.names (some w) = p.names (some v) := by
  obtain ⟨before, after, hv, hw⟩ := Expression.exists_mentions_drops h
  have hnone : ((Expression.mentions x).filter Expression.isLink).filter (fun id =>
      (p.template.resources.map (·.logicalId)).contains id) = [] := by
    refine List.filter_eq_nil_iff.2 fun id hid hknown => ?_
    exact hx id (List.mem_eraseDups.2 hid) (List.contains_iff_mem.1 hknown)
  rw [names_eq, names_eq, hv, hw]
  simp only [List.filter_append, hnone, List.append_nil]

theorem names_eq_nil (hx : ∀ id ∈ references x, id ∉ p.template.resources.map (·.logicalId)) :
    p.names (some x) = [] := by
  refine List.filter_eq_nil_iff.2 fun id hid hknown => ?_
  exact hx id hid (List.contains_iff_mem.1 hknown)

/-- A resource is alike without a field that the projection overlooks. -/
theorem Alike.of_drops (hr : r ∈ p.template.resources)
    (hname : p.ctx.resource? "AWS::NoValue" = none) (hx : IsNothing p.ctx choices x)
    (hchoices : choices + 2 ≤ nestingLimit) {properties : Json}
    (hdrops : Json.Drops x path r.properties properties) (hover : p.Overlooks r path x) :
    p.Alike r { r with properties } where
  known := List.contains_iff_mem.2 (List.mem_map_of_mem hr)
  logicalId := rfl
  type := rfl
  dependsOn := rfl
  condition := rfl
  metadata := rfl
  resolved := by
    show Looks _ _ (valueWithin p.ctx (nestingLimit + 1) r.properties)
      (valueWithin p.ctx (nestingLimit + 1) properties)
    rcases Expression.valueWithin_drops hdrops (nestingLimit + 1) with hsame | ⟨-, hbelow⟩
    · rw [hsame]
      exact .refl _ _ _
    · have hnull : path.length ≤ 2 →
          valueWithin p.ctx (nestingLimit + 1 - path.length) x = .null := fun hlength =>
        hx.valueWithin_eq hname (by omega)
      refine .of_drops hbelow hnull (fun hlength key _ => ?_) hover.kept hover.shown
      rw [hnull hlength]
      rfl
  raw := by
    refine .of_drops hdrops (fun _ => ⟨hx.exists_object, ?_⟩) (fun _ key hkey => ?_)
      hover.kept hover.shown
    · exact hx.valueWithin_eq hname (by omega)
    · exact hx.get?_eq_none hkey
  linked := by
    intro chain hchain
    obtain ⟨-, hkeys⟩ := ResourceType.reading_short r.type chain (by simp [hchain])
    rcases hdrops.at?_cases fun _ key hkey => hx.get?_eq_none (hkeys key hkey) with
      ⟨rfl, hv, hw⟩ | ⟨rest, v, w, rfl, hrest, hv, hw⟩ | ⟨-, hsame⟩
    · rw [hv, hw, names_eq_nil (hover.linked path hchain (List.prefix_refl path))]
      rfl
    · rw [hv, hw]
      exact names_drops hrest (hover.linked chain hchain (List.prefix_append chain rest))
    · rw [hsame]
  target := by
    intro htype
    by_cases hpath : path = ["FunctionName"]
    · exact .inr (hover.target htype hpath)
    · rcases hdrops.get?_cases "FunctionName" with ⟨hself, -, -⟩ | ⟨rest, v, w, rfl, -, -, -⟩ |
        ⟨-, hsame⟩
      · contradiction
      · have hkept : ["FunctionName"] ∈ (reading r.type).kept := htype ▸ by decide
        exact absurd (hover.kept _ hkept (by simp)) hpath
      · exact .inl hsame.symm

end Projector

namespace Template

variable {t : Template} {ctx : Context} {i choices : Nat} {r : Resource} {properties : Json}

/-- The template with the properties of one resource replaced. -/
def withProperties (t : Template) (i : Nat) (r : Resource) (properties : Json) : Template :=
  { t with resources := t.resources.set i { r with properties } }

/-- A property that resolves to nothing is projected like one that is not there. -/
theorem project_without_nothing (hname : ctx.resource? "AWS::NoValue" = none)
    (hr : t.resources[i]? = some r) (hx : IsNothing ctx choices x)
    (hchoices : choices + 2 ≤ nestingLimit) (hdrops : Json.Drops x path r.properties properties)
    (hover : Projector.Overlooks ⟨t, ctx⟩ r path x) :
    (t.project ctx).value = ((t.withProperties i r properties).project ctx).value := by
  have hmem : r ∈ t.resources := List.mem_of_getElem? hr
  have hsimilar : Projector.Similar ⟨t, ctx⟩ ⟨t.withProperties i r properties, ctx⟩ :=
    ⟨rfl, rfl, forall₂_set (fun _ hother => .refl hother) hr
      (.of_drops hmem hname hx hchoices hdrops hover)⟩
  exact (project_similar hsimilar).symm

/-- Variables that are only there where the application is live. -/
def liveVariables : Json :=
  .object [("Fn::If", .array [.string "Live",
    .object [("QUEUE", .object [("Ref", .string "Orders")])],
    .object [("Ref", .string "AWS::NoValue")]])]

def quietWorker : Resource where
  logicalId := "Worker"
  type := ResourceType.function
  properties := .object [("Handler", .string "index.main"),
    ("Environment", .object [("Variables", liveVariables)])]
  dependsOn := []
  condition := none
  metadata := []

def quietShop : Template where
  stack := "Shop"
  resources := [quietWorker, orderQueue]
  conditions := [("Live", .bool false)]

theorem quietShop_without :
    quietShop.context.value.holds "Live" = false ∧
    (quietShop.project quietShop.context.value).value =
      ((quietShop.withProperties 0 quietWorker (.object [("Handler", .string "index.main"),
        ("Environment", .object [])])).project quietShop.context.value).value := by
  have hlive : quietShop.context.value.holds "Live" = false := by decide +kernel
  have hnothing : IsNothing quietShop.context.value 1 liveVariables := by
    refine .choice (by decide) ?_
    rw [hlive]
    exact .ref (by decide)
  have hdrops : Json.Drops liveVariables ["Environment", "Variables"] quietWorker.properties
      (.object [("Handler", .string "index.main"), ("Environment", .object [])]) :=
    @Json.Drops.inside _ [("Handler", .string "index.main")] [] "Environment" _ _ _ (by decide) rfl
      (@Json.Drops.here _ [] [] "Variables" (by decide) rfl rfl)
  exact ⟨hlive, project_without_nothing (by decide +kernel) rfl hnothing (by decide) hdrops
    ⟨by decide, by decide, by decide, by decide⟩⟩

/-! ### Properties that are seen -/

/-- The reference that resolves to nothing. -/
def noValue : Json := .object [("Ref", .string "AWS::NoValue")]

/-- A reference to a resource. -/
def refTo (logicalId : String) : Json := .object [("Ref", .string logicalId)]

/-- A resource with properties and nothing else. -/
def bareResource (logicalId type : String) (fields : Json.Fields) : Resource :=
  { logicalId, type, properties := .object fields, dependsOn := [], condition := none
    metadata := [] }

/-- A template whose first resource has a type and some properties.  One of its functions has no letter
in its logical id and so no local identifier, its API has a route through the first resource, and
nothing in it is live. -/
def shopWith (type : String) (fields : Json.Fields) : Template where
  stack := "Shop"
  resources := [bareResource "First" type fields, bareResource "*" ResourceType.function [],
    bareResource "Orders" ResourceType.queue [], bareResource "Site" ResourceType.restApi [],
    bareResource "Base" ResourceType.restResource [("PathPart", .string "shop")],
    bareResource "Get" ResourceType.restMethod
      [("RestApiId", refTo "Site"), ("ResourceId", refTo "First")]]
  conditions := [("Live", .bool false)]
  parameters := [("Limit", some (.string "30"))]

/-- What such a template stands for. -/
def shopProjection (type : String) (fields : Json.Fields) : Projection :=
  ((shopWith type fields).project (shopWith type fields).context.value).value

/-- What it stands for in the same context without a property of its first resource. -/
def shopProjectionWithout (type : String) (fields : Json.Fields) (path : List String) : Projection :=
  (((shopWith type fields).withProperties 0 (bareResource "First" type fields)
    ((Json.object fields).erase path)).project (shopWith type fields).context.value).value

/-- A property of the first resource resolves to nothing in the context of the template, and is seen:
without it the template stands for something else. -/
structure Seen (type : String) (fields : Json.Fields) (path : List String) : Prop where
  unbound : (shopWith type fields).context.value.resource? "AWS::NoValue" = none
  resolves : ∃ x choices, (Json.object fields).at? path = some x ∧
    IsNothing (shopWith type fields).context.value choices x
  differs : shopProjection type fields ≠ shopProjectionWithout type fields path

section Seen

variable {type : String} {fields : Json.Fields} {path : List String}

theorem resource?_shopWith (type : String) (fields : Json.Fields) :
    (shopWith type fields).context.value.resource? "AWS::NoValue" = none := by
  rw [Context.resource?, resources_context]
  simp [baseContext, shopWith, bareResource, Context.bindResource, Context.bindType,
    lookup_bindOnce]

theorem Seen.of_noValue {α : Type} (part : Projection → α)
    (hpath : (Json.object fields).at? path = some noValue)
    (hpart : part (shopProjection type fields) ≠ part (shopProjectionWithout type fields path)) :
    Seen type fields path where
  unbound := resource?_shopWith type fields
  resolves := ⟨noValue, 0, hpath, .ref (by decide)⟩
  differs := fun h => hpart (congrArg part h)

end Seen

/-- Not every property that resolves to nothing is projected like one that is not there.

Some are seen for what the projection does with a value as it is written or resolved: it keeps and
prints values as a whole, each `null` among them; it finds links in all that is written, whether it is
chosen or not; and an object with a single field can be a call.  Others are seen where `null` is taken
for a value, although other properties are read as if it were not there. -/
theorem nothing_seen :
    (Seen ResourceType.function
        [("Environment", .object [("Variables", .object [("LEVEL", noValue)])])]
        ["Environment", "Variables", "LEVEL"] ∧
      Seen ResourceType.function [("Handler", .object [("Note", noValue)])] ["Handler", "Note"] ∧
      Seen ResourceType.eventRule [("EventPattern", .object [("detail", noValue)])]
        ["EventPattern", "detail"] ∧
      Seen ResourceType.queue [("RedrivePolicy", .object [("deadLetterTargetArn", .object
        [("Fn::If", .array [.string "Live", refTo "Orders", noValue])])])]
        ["RedrivePolicy", "deadLetterTargetArn"] ∧
      Seen ResourceType.function
        [("Timeout", .object [("Note", noValue), ("Ref", .string "Limit")])] ["Timeout", "Note"]) ∧
    (Seen ResourceType.table [("StreamSpecification", .object [("StreamViewType", noValue)])]
        ["StreamSpecification", "StreamViewType"] ∧
      Seen ResourceType.function [("Code", .object [("ZipFile", noValue)])] ["Code", "ZipFile"] ∧
      Seen ResourceType.restResource [("ParentId", refTo "Base"), ("PathPart", noValue)]
        ["PathPart"] ∧
      Seen ResourceType.stateMachine
        [("DefinitionString", noValue), ("Definition", .object [("StartAt", .string "Only")])]
        ["DefinitionString"] ∧
      Seen ResourceType.stateMachine
        [("DefinitionString", .string "$\x7bRef\x7d"), ("DefinitionSubstitutions", noValue)]
        ["DefinitionSubstitutions"] ∧
      Seen ResourceType.eventSourceMapping
        [("EventSourceArn", refTo "Orders"), ("FunctionName", noValue)] ["FunctionName"]) := by
  refine ⟨⟨?_, ?_, ?_, ?_, ?_⟩, ?_, ?_, ?_, ?_, ?_, ?_⟩
  · exact .of_noValue (·.model.functions) rfl (by decide +kernel)
  · exact .of_noValue (·.model.functions) rfl (by decide +kernel)
  · exact .of_noValue (·.detached.map (·.rule.pattern.plainText)) rfl (by decide +kernel)
  · refine ⟨resource?_shopWith _ _, ⟨_, 1, rfl, ?_⟩, fun h => ?_⟩
    · refine .choice (by decide) ?_
      rw [if_neg (by decide +kernel)]
      exact .ref (by decide)
    · exact absurd (congrArg (·.model.queues) h) (by decide +kernel)
  · exact .of_noValue (·.model.functions) rfl (by decide +kernel)
  · exact .of_noValue (·.model.tables) rfl (by decide +kernel)
  · exact .of_noValue (·.model.functions) rfl (by decide +kernel)
  · exact .of_noValue (·.model.apis) rfl (by decide +kernel)
  · exact .of_noValue (·.model.stateMachines.map (·.definition.plainText)) rfl (by decide +kernel)
  · exact .of_noValue (·.model.stateMachines.map (·.definition.plainText)) rfl (by decide +kernel)
  · exact .of_noValue (·.model.functions) rfl (by decide +kernel)

end Template

end LocalCloud
