import LocalCloud.Proofs.Expression.Dropping
import LocalCloud.Proofs.Model.Entries
import LocalCloud.Proofs.Model.Naming

/-!
# What the projection reads of a resource

The projection of a template reads the properties of a resource through few places, by its type
(`ResourceType.reading`).  Most of them it only looks into, so that `null`, a missing value and an
object that is no call are the same to it.  The value of some is kept, printed or searched for a first
name, so that an object there is told from another one; of some it is told whether they are there at
all; and in some, links are found by the names that the raw value mentions.

Resources that are the same in all this are `Projector.Alike`.  In two templates of such resources
the same links are found (`Projector.Similar.link`).
-/

namespace LocalCloud

/-! ## Values that may be missing -/

section Missing

variable {α : Type} {P : Json → Prop} {v w : Option Json}

/-- A value and what is left of it: the same, or nothing of a value that counts for nothing. -/
inductive Missing (P : Json → Prop) : Option Json → Option Json → Prop
  | same (v : Option Json) : Missing P v v
  | gone {x : Json} : P x → Missing P (some x) none

/-- A value and what is left of it, where objects are not looked into. -/
inductive Blurred (P : Json → Prop) : Option Json → Option Json → Prop
  | missing {v w : Option Json} : Missing P v w → Blurred P v w
  | inside (fields fields' : Json.Fields) : Blurred P (some (.object fields)) (some (.object fields'))

theorem Missing.eq_or (h : Missing P v w) : w = v ∨ ∃ x, P x ∧ v = some x ∧ w = none := by
  cases h with
  | same => exact .inl rfl
  | gone hx => exact .inr ⟨_, hx, rfl, rfl⟩

/-- What reads a value that counts for nothing like one that is missing. -/
theorem Missing.congr (h : Missing P v w) (g : Option Json → α)
    (hnothing : ∀ x, P x → g (some x) = g none) : g w = g v := by
  cases h with
  | same => rfl
  | gone hx => exact (hnothing _ hx).symm

/-- What reads all objects alike besides. -/
theorem Blurred.congr (h : Blurred P v w) (g : Option Json → α)
    (hnothing : ∀ x, P x → g (some x) = g none)
    (hobjects : ∀ fields fields', g (some (.object fields)) = g (some (.object fields'))) :
    g w = g v := by
  cases h with
  | missing h => exact h.congr g hnothing
  | inside fields fields' => exact hobjects fields' fields

/-- Of which it is told besides whether it is there. -/
theorem Missing.eq_of_isSome (h : Missing P v w) (hsome : v.isSome = w.isSome) : w = v := by
  cases h with
  | same => rfl
  | gone => contradiction

end Missing

section Rel

variable {α β : Type} {R : α → β → Prop} {f : α → Bool} {g : β → Bool}

theorem rel_find? (hfg : ∀ a b, R a b → g b = f a) {xs : List α} {ys : List β}
    (h : List.Forall₂ R xs ys) : Option.Rel R (xs.find? f) (ys.find? g) := by
  induction h with
  | nil => exact .none
  | @cons a b xs ys hab _ ih =>
    rw [List.find?_cons, List.find?_cons, hfg a b hab]
    cases f a with
    | true => exact .some hab
    | false => exact ih

theorem rel_filter_option (hfg : ∀ a b, R a b → g b = f a) {a? : Option α} {b? : Option β}
    (h : Option.Rel R a? b?) : Option.Rel R (a?.filter f) (b?.filter g) := by
  cases h with
  | none => exact .none
  | @some a b hab =>
    rw [Option.filter_some, Option.filter_some, hfg a b hab]
    split
    · exact .some hab
    · exact .none

theorem rel_head? {xs : List α} {ys : List β} (h : List.Forall₂ R xs ys) :
    Option.Rel R xs.head? ys.head? := by
  cases h with
  | nil => exact .none
  | cons hab _ => exact .some hab

theorem exists_of_rel_some {a : α} {b? : Option β} (h : Option.Rel R (some a) b?) :
    ∃ b, b? = some b ∧ R a b := by
  cases h with
  | some hab => exact ⟨_, rfl, hab⟩

theorem eq_none_of_rel {b? : Option β} (h : Option.Rel R none b?) : b? = none := by
  cases h
  rfl

/-- What is read alike of two values is the same. -/
theorem map_eq_of_rel {γ : Type} {f : α → γ} {g : β → γ} (hfg : ∀ a b, R a b → g b = f a)
    {a? : Option α} {b? : Option β} (h : Option.Rel R a? b?) : b?.map g = a?.map f := by
  cases h with
  | none => rfl
  | some hab => exact congrArg some (hfg _ _ hab)

theorem map_eq_of_forall₂_rel {γ : Type} {f : α → γ} {g : β → γ} {xs : List α} {ys : List β}
    (h : List.Forall₂ R xs ys) (hfg : ∀ a b, R a b → g b = f a) : ys.map g = xs.map f := by
  induction h with
  | nil => rfl
  | cons hab _ ih => rw [List.map_cons, List.map_cons, hfg _ _ hab, ih]

end Rel

/-! ## Places -/

/-- The places in the properties of a resource that the projection does not only look into, each as a
chain of keys. -/
structure Reading where
  /-- The value is kept, printed or searched for a first name. -/
  kept : List (List String) := []
  /-- It is told whether there is a value. -/
  shown : List (List String) := []
  /-- The raw value is searched for links. -/
  linked : List (List String) := []

namespace ResourceType

/-- The types that have such places, with the places. -/
def readings : List (String × Reading) :=
  [(table, { shown := [["StreamSpecification", "StreamViewType"]] }),
    (function,
      { kept := [["Handler"], ["Runtime"], ["Environment", "Variables"], ["Code", "ZipFile"]]
        shown := [["Code", "ZipFile"]] }),
    (eventSourceMapping,
      { kept := [["FunctionName"]], linked := [["FunctionName"], ["EventSourceArn"]] }),
    (restMethod,
      { kept := [["HttpMethod"], ["ResourceId"]]
        linked := [["RestApiId"], ["ResourceId"], ["Integration"]] }),
    (restResource,
      { kept := [["PathPart"], ["ParentId"]], shown := [["PathPart"]], linked := [["ParentId"]] }),
    (httpRoute, { kept := [["RouteKey"]], linked := [["ApiId"], ["Target"]] }),
    (httpIntegration, { linked := [["IntegrationUri"]] }),
    (eventRule,
      { kept := [["Name"], ["ScheduleExpression"], ["EventBusName"], ["EventPattern"]]
        linked := [["EventBusName"]] }),
    (stateMachine,
      { kept := [["DefinitionString"], ["DefinitionSubstitutions"], ["Definition"]]
        shown := [["DefinitionString"], ["DefinitionSubstitutions"]]
        linked := [["DefinitionString"], ["Definition"], ["DefinitionSubstitutions"]] }),
    (queue, { linked := [["RedrivePolicy", "deadLetterTargetArn"]] }),
    (subscription,
      { kept := [["Endpoint"], ["Protocol"]], linked := [["TopicArn"], ["Endpoint"]] })]

/-- The places of the resources of a type. -/
def reading (type : String) : Reading := (readings.lookup type).getD {}

end ResourceType

open ResourceType (reading)

/-- Two values that look alike in the properties of a resource of a type. -/
structure Looks (P : Json → Prop) (type : String) (v w : Json) : Prop where
  blurred : ∀ chain, chain.length ≤ 2 → (∀ key ∈ chain, Intrinsic.ofKey? key = none) →
    Blurred P (v.at? chain) (w.at? chain)
  kept : ∀ chain ∈ (reading type).kept, Missing P (v.at? chain) (w.at? chain)
  shown : ∀ chain ∈ (reading type).shown, (v.at? chain).isSome = (w.at? chain).isSome

theorem Json.at?_singleton (v : Json) (key : String) : v.at? [key] = v.get? key := by
  rw [at?_cons]
  cases v.get? key <;> rfl

namespace Looks

variable {P : Json → Prop} {type key : String} {v w : Json}

theorem refl (P : Json → Prop) (type : String) (v : Json) : Looks P type v v :=
  ⟨fun _ _ _ => .missing (.same _), fun _ _ => .same _, fun _ _ => rfl⟩

theorem get?_blurred (h : Looks P type v w) (key : String) (hkey : Intrinsic.ofKey? key = none) :
    Blurred P (v.get? key) (w.get? key) := by
  rw [← Json.at?_singleton, ← Json.at?_singleton]
  exact h.blurred [key] (by simp) fun other hother => List.mem_singleton.1 hother ▸ hkey

theorem get?_missing (h : Looks P type v w) (key : String) (hkey : [key] ∈ (reading type).kept) :
    Missing P (v.get? key) (w.get? key) := by
  rw [← Json.at?_singleton, ← Json.at?_singleton]
  exact h.kept [key] hkey

theorem at?_eq (h : Looks P type v w) (chain : List String)
    (hkept : chain ∈ (reading type).kept) (hshown : chain ∈ (reading type).shown) :
    w.at? chain = v.at? chain :=
  (h.kept chain hkept).eq_of_isSome (h.shown chain hshown)

theorem get?_eq (h : Looks P type v w) (key : String) (hkept : [key] ∈ (reading type).kept)
    (hshown : [key] ∈ (reading type).shown) : w.get? key = v.get? key := by
  rw [← Json.at?_singleton, ← Json.at?_singleton]
  exact h.at?_eq [key] hkept hshown

/-! ### Resolved values -/

section Resolved

variable (h : Looks (· = .null) type v w)

include h

theorem itemsAt (hkey : Intrinsic.ofKey? key = none) : w.itemsAt key = v.itemsAt key := by
  refine (h.get?_blurred key hkey).congr (fun v => (v.bind Json.asArray?).getD []) ?_ fun _ _ => rfl
  rintro x rfl
  rfl

theorem naturalAt? (hkey : Intrinsic.ofKey? key = none) : w.naturalAt? key = v.naturalAt? key := by
  have hblurred := h.get?_blurred key hkey
  unfold Json.naturalAt?
  generalize v.get? key = left, w.get? key = right at hblurred
  rcases hblurred with (_ | rfl) | _ <;> rfl

theorem truthAt (hkey : Intrinsic.ofKey? key = none) : w.truthAt key = v.truthAt key := by
  have hblurred := h.get?_blurred key hkey
  unfold Json.truthAt
  generalize v.get? key = left, w.get? key = right at hblurred
  rcases hblurred with (_ | rfl) | _ <;> rfl

theorem textAt? (hkept : [key] ∈ (reading type).kept) : w.textAt? key = v.textAt? key := by
  refine (h.get?_missing key hkept).congr
    (fun v => (v.map Json.plainText).filter (!·.isEmpty)) ?_
  rintro x rfl
  rfl

end Resolved

end Looks

/-! ## Resources that are alike -/

namespace Projector

open Expression (references resolve)

/-- The names of resources that a raw value refers to. -/
def names (p : Projector) (raw : Option Json) : List String :=
  (raw.elim [] references).filter fun id => (p.template.resources.map (·.logicalId)).contains id

/-- A raw value that counts for nothing. -/
def Void (p : Projector) (x : Json) : Prop :=
  (∃ fields, x = .object fields) ∧ (resolve p.ctx x).value = .null

/-- Two resources that the projection cannot tell apart. -/
structure Alike (p : Projector) (r r' : Resource) : Prop where
  known : (p.template.resources.map (·.logicalId)).contains r.logicalId = true
  logicalId : r'.logicalId = r.logicalId
  type : r'.type = r.type
  dependsOn : r'.dependsOn = r.dependsOn
  condition : r'.condition = r.condition
  metadata : r'.metadata = r.metadata
  resolved : Looks (· = .null) r.type (resolve p.ctx r.properties).value
    (resolve p.ctx r'.properties).value
  raw : Looks p.Void r.type r.properties r'.properties
  linked : ∀ chain ∈ (reading r.type).linked,
    p.names (r'.properties.at? chain) = p.names (r.properties.at? chain)
  /-- A mapping to no function is one to the function without a name, if there is one. -/
  target : r.type = ResourceType.eventSourceMapping →
    r'.property? "FunctionName" = r.property? "FunctionName" ∨
      ∀ f ∈ p.included, f.type = ResourceType.function → p.nameOf f ≠ ""

theorem Alike.refl {p : Projector} {r : Resource} (hr : r ∈ p.template.resources) :
    p.Alike r r where
  known := by
    rw [List.contains_iff_mem]
    exact List.mem_map_of_mem hr
  logicalId := rfl
  type := rfl
  dependsOn := rfl
  condition := rfl
  metadata := rfl
  resolved := .refl _ _ _
  raw := .refl _ _ _
  linked := fun _ _ => rfl
  target := fun _ => .inl rfl

theorem Alike.namesAt {p : Projector} {r r' : Resource} (hr : p.Alike r r') (key : String)
    (hkey : [key] ∈ (reading r.type).linked) :
    p.names (r'.property? key) = p.names (r.property? key) := by
  have hnames := hr.linked [key] hkey
  rw [Json.at?_singleton, Json.at?_singleton] at hnames
  exact hnames

/-- Two templates that differ in resources that are alike, with one context. -/
structure Similar (p p' : Projector) : Prop where
  ctx : p'.ctx = p.ctx
  stack : p'.template.stack = p.template.stack
  resources : List.Forall₂ p.Alike p.template.resources p'.template.resources

namespace Similar

variable {p p' : Projector} {r r' : Resource} (h : Similar p p')

include h

theorem idOf (id : String) : p'.idOf id = p.idOf id := by
  rw [Projector.idOf, Projector.idOf, h.stack]

theorem nameOf (hr : p.Alike r r') : p'.nameOf r' = p.nameOf r := by
  rw [Projector.nameOf, Projector.nameOf, h.ctx, hr.logicalId]

theorem isIncluded (hr : p.Alike r r') : r'.isIncluded p'.ctx = r.isIncluded p.ctx := by
  rw [Resource.isIncluded, Resource.isIncluded, hr.condition, h.ctx]

theorem included : List.Forall₂ p.Alike p.included p'.included := by
  refine List.rel_filter (fun r r' hr => ?_) h.resources
  show r.isIncluded p.ctx = true ↔ r'.isIncluded p'.ctx = true
  rw [h.isIncluded hr]

theorem resource? (id : String) : Option.Rel p.Alike (p.resource? id) (p'.resource? id) := by
  refine rel_filter_option (fun r r' hr => h.isIncluded hr) (rel_find? (fun r r' hr => ?_) h.resources)
  rw [hr.logicalId]

theorem exists_resource? {id : String} (hr : p.resource? id = some r) :
    ∃ r', p'.resource? id = some r' ∧ p.Alike r r' := exists_of_rel_some (hr ▸ h.resource? id)

theorem resource?_eq_none {id : String} (hnone : p.resource? id = none) :
    p'.resource? id = none := eq_none_of_rel (hnone ▸ h.resource? id)

theorem ids :
    p'.template.resources.map (·.logicalId) = p.template.resources.map (·.logicalId) :=
  map_eq_of_forall₂_rel h.resources fun _ _ hr => hr.logicalId

theorem names (raw : Option Json) : p'.names raw = p.names raw := by
  rw [Projector.names, Projector.names, h.ids]

end Similar

/-! ### Links -/

/-- The included resources of some names, if their types fit. -/
def linkedTo (p : Projector) (names types : List String) : List Resource :=
  (names.filterMap p.resource?).filter fun r => types.contains r.type

theorem referenced_eq (p : Projector) (v : Json) (types : List String) :
    p.referenced v types = p.linkedTo (p.names (some v)) types := by
  rw [referenced, linkedTo, names, Option.elim_some, List.filterMap_filter]
  congr 2
  funext id
  split
  · rfl
  · next hunknown =>
    refine Option.eq_none_iff_forall_not_mem.2 fun r hr => hunknown ?_
    obtain ⟨hmem, -, rfl⟩ := resource?_eq_some hr
    rw [List.contains_iff_mem]
    exact List.mem_map_of_mem hmem

theorem bind_link?_eq (p : Projector) (raw : Option Json) (types : List String) :
    raw.bind (p.link? · types) =
      (p.linkedTo (p.names raw) types).head?.map fun r => p.idOf r.logicalId := by
  cases raw with
  | none => rfl
  | some v => rw [Option.bind_some, link?, referenced_eq]

theorem refersTo_eq (p : Projector) (raw : Option Json) {id : String}
    (h : (p.template.resources.map (·.logicalId)).contains id = true) :
    refersTo raw id = (p.names raw).contains id := by
  cases raw with
  | none => rfl
  | some v =>
    rw [refersTo, Bool.eq_iff_iff, List.contains_iff_mem, List.contains_iff_mem, names,
      Option.elim_some, List.mem_filter, h]
    simp

namespace Similar

variable {p p' : Projector} {r r' : Resource} (h : Similar p p')

include h

theorem linkedTo {names names' : List String} (hnames : names' = names) (types : List String) :
    List.Forall₂ p.Alike (p.linkedTo names types) (p'.linkedTo names' types) := by
  subst hnames
  have hfound : List.Forall₂ p.Alike (names'.filterMap p.resource?)
      (names'.filterMap p'.resource?) := by
    refine List.rel_filterMap (R := (· = ·)) (fun id id' hid => ?_) (List.forall₂_refl names')
    rw [← hid]
    exact h.resource? id
  refine List.rel_filter (fun r r' hr => ?_) hfound
  show types.contains r.type = true ↔ types.contains r'.type = true
  rw [hr.type]

theorem idOf_alike (hr : p.Alike r r') : p'.idOf r'.logicalId = p.idOf r.logicalId := by
  rw [h.idOf, hr.logicalId]

/-- Links are the same where the names are. -/
theorem link {raw raw' : Option Json} (hnames : p.names raw' = p.names raw) (types : List String) :
    raw'.bind (p'.link? · types) = raw.bind (p.link? · types) := by
  rw [bind_link?_eq, bind_link?_eq, h.names]
  exact map_eq_of_rel (fun _ _ hr => h.idOf_alike hr) (rel_head? (h.linkedTo hnames types))

theorem linkAt (hr : p.Alike r r') (key : String) (hkey : [key] ∈ (reading r.type).linked)
    (types : List String) :
    (r'.property? key).bind (p'.link? · types) = (r.property? key).bind (p.link? · types) :=
  h.link (hr.namesAt key hkey) types

theorem entry (hr : p.Alike r r') : p'.entry r' = p.entry r := by
  have hdependsOn : ((r'.dependsOn.filterMap p'.resource?).filter fun d =>
      ResourceType.modelled.contains d.type).map (fun d => p'.idOf d.logicalId) =
      ((r.dependsOn.filterMap p.resource?).filter fun d =>
        ResourceType.modelled.contains d.type).map fun d => p.idOf d.logicalId := by
    exact map_eq_of_forall₂_rel (h.linkedTo hr.dependsOn ResourceType.modelled)
      fun _ _ hd => h.idOf_alike hd
  rw [Projector.entry, Projector.entry, h.idOf_alike hr, h.stack, hr.logicalId, h.nameOf hr,
    hdependsOn, Resource.constructPath?, Resource.constructPath?, hr.metadata]

end Similar

end Projector

end LocalCloud
