import LocalCloud.Model.Projection
import LocalCloud.Proofs.Model.Links

/-!
# What a projected template links to

Whatever the raw properties of the resources of a template say, its projection links to nothing but
included resources of the template that become entries (`Linkable`).  All of these have an entry in
the model, so that a projection by itself links to nothing that is not there (`Sound`).
-/

namespace LocalCloud

namespace Projector

variable {p : Projector} {r : Resource} {raw : Json} {types : List String} {id : String}

/-- The id of an included resource that becomes an entry. -/
def Linkable (p : Projector) (id : String) : Prop :=
  ∃ r, p.resource? r.logicalId = some r ∧ r.type ∈ ResourceType.modelled ∧ id = p.idOf r.logicalId

/-- No entry of a template has the id of the bus that every account has. -/
theorem idOf_ne_defaultBus (p : Projector) (logicalId : String) :
    p.idOf logicalId ≠ Model.defaultBus := by
  intro h
  have hslash : '/' ∈ (p.idOf logicalId).toList := by
    simp [idOf, String.toList_append]
  rw [h] at hslash
  exact absurd hslash (by decide)

theorem idOf_injective : Function.Injective p.idOf := by
  intro first second h
  exact (String.append_right_inj _).1 h

/-! ### Finding links -/

theorem resource?_eq_some (h : p.resource? id = some r) :
    r ∈ p.template.resources ∧ r.isIncluded p.ctx ∧ r.logicalId = id := by
  obtain ⟨hfind, hincluded⟩ := Option.filter_eq_some_iff.1 h
  exact ⟨List.mem_of_find?_eq_some hfind, hincluded, by simpa using List.find?_some hfind⟩

theorem linkable_idOf (h : p.resource? id = some r) (htype : r.type ∈ ResourceType.modelled) :
    p.Linkable (p.idOf r.logicalId) := by
  obtain ⟨-, -, rfl⟩ := resource?_eq_some h
  exact ⟨r, h, htype, rfl⟩

theorem linkable_of_mem_referenced (htypes : types ⊆ ResourceType.modelled)
    (h : r ∈ p.referenced raw types) : p.Linkable (p.idOf r.logicalId) := by
  obtain ⟨hfound, htype⟩ := List.mem_filter.1 h
  obtain ⟨name, -, hname⟩ := List.mem_filterMap.1 hfound
  exact linkable_idOf hname (htypes (by simpa using htype))

theorem linkable_of_link? (htypes : types ⊆ ResourceType.modelled)
    (h : p.link? raw types = some id) : p.Linkable id := by
  obtain ⟨r, hr, rfl⟩ := Option.map_eq_some_iff.1 h
  exact linkable_of_mem_referenced htypes (List.mem_of_head? hr)

theorem linkable_of_bind_link? {raw : Option Json} (htypes : types ⊆ ResourceType.modelled)
    (h : raw.bind (p.link? · types) = some id) : p.Linkable id := by
  obtain ⟨value, -, hid⟩ := Option.bind_eq_some_iff.1 h
  exact linkable_of_link? htypes hid

theorem function_subset_modelled : [ResourceType.function] ⊆ ResourceType.modelled := by decide

theorem queue_subset_modelled : [ResourceType.queue] ⊆ ResourceType.modelled := by decide

/-! ### Entries -/

theorem linkable_dependsOn (h : id ∈ (p.entry r).dependsOn) : p.Linkable id := by
  obtain ⟨needed, hneeded, rfl⟩ := List.mem_map.1 h
  obtain ⟨hfound, htype⟩ := List.mem_filter.1 hneeded
  obtain ⟨name, -, hname⟩ := List.mem_filterMap.1 hfound
  exact linkable_idOf hname (by simpa using htype)

theorem linkable_restRoute (h : (p.restRoute r).value.target = some id) : p.Linkable id :=
  linkable_of_bind_link? function_subset_modelled h

theorem target_httpRoute : (p.httpRoute r).value.target = p.httpTarget? r := by
  rw [httpRoute]
  cases r.property? "RouteKey" <;> rfl

theorem linkable_httpRoute (h : (p.httpRoute r).value.target = some id) : p.Linkable id := by
  simp only [target_httpRoute, httpTarget?, bind, Option.bind_eq_some_iff] at h
  obtain ⟨_, -, _, -, uri, -, hid⟩ := h
  exact linkable_of_link? function_subset_modelled hid

theorem linkable_invokes (h : id ∈ (p.stateMachine r).value.invokes) : p.Linkable id := by
  obtain ⟨f, hf, rfl⟩ := List.mem_map.1 (List.mem_eraseDups.1 h)
  obtain ⟨source, -, hsource⟩ := List.mem_flatMap.1 hf
  exact linkable_of_mem_referenced function_subset_modelled hsource

theorem linkable_deadLetterTarget (h : (p.queue r).value.deadLetterTarget = some id) :
    p.Linkable id :=
  linkable_of_bind_link? queue_subset_modelled h

theorem linkable_subscription {endpoint protocol : Option Json}
    (h : (p.subscription endpoint protocol).value.target = some id) : p.Linkable id :=
  linkable_of_bind_link? (List.Subset.refl _) h

theorem linkable_routes {a : Model.Api}
    (ha : a = (p.restApi r).value ∨ a = (p.httpApi r).value) {route : Model.Route}
    (hroute : route ∈ a.routes) (h : route.target = some id) : p.Linkable id := by
  rcases ha with rfl | rfl
  · have hroutes : (p.restApi r).value.routes = _ := Noted.value_mapM _ _
    rw [hroutes] at hroute
    obtain ⟨method, -, rfl⟩ := List.mem_map.1 hroute
    exact linkable_restRoute h
  · have hroutes : (p.httpApi r).value.routes = _ := Noted.value_mapM _ _
    rw [hroutes] at hroute
    obtain ⟨route, -, rfl⟩ := List.mem_map.1 hroute
    exact linkable_httpRoute h

theorem linkable_subscriptions {s : Model.Subscription} (hs : s ∈ (p.topic r).value.subscriptions)
    (h : s.target = some id) : p.Linkable id := by
  have hsubscriptions : (p.topic r).value.subscriptions = _ := Noted.value_mapM _ _
  rw [hsubscriptions] at hs
  obtain ⟨raw, -, rfl⟩ := List.mem_map.1 hs
  exact linkable_subscription h

/-- The models that a resource may add. -/
inductive Part (p : Projector) (r : Resource) : Model → Prop where
  | table : Part p r { tables := [(p.table r).value] }
  | function : Part p r { functions := [(p.function r).value] }
  | restApi : Part p r { apis := [(p.restApi r).value] }
  | httpApi : Part p r { apis := [(p.httpApi r).value] }
  | bus : Part p r { buses := [p.bus r] }
  | stateMachine : Part p r { stateMachines := [(p.stateMachine r).value] }
  | queue : Part p r { queues := [(p.queue r).value] }
  | topic : Part p r { topics := [(p.topic r).value] }
  | nothing (h : r.type ∉ ResourceType.modelled) : Part p r {}

/-- A resource whose type becomes an entry adds this entry, any other resource nothing. -/
theorem addEntry_cases (m : Model) :
    ∃ part, p.Part r part ∧ (p.addEntry m r).value = m.merge part := by
  unfold addEntry
  split
  · exact ⟨_, .table, by simp [Model.merge, Assets.merge]⟩
  split
  · exact ⟨_, .function, by simp [Model.merge, Assets.merge]⟩
  split
  · exact ⟨_, .restApi, by simp [Model.merge, Assets.merge]⟩
  split
  · exact ⟨_, .httpApi, by simp [Model.merge, Assets.merge]⟩
  split
  · exact ⟨_, .bus, by simp [Model.merge, Assets.merge]⟩
  split
  · exact ⟨_, .stateMachine, by simp [Model.merge, Assets.merge]⟩
  split
  · exact ⟨_, .queue, by simp [Model.merge, Assets.merge]⟩
  split
  · exact ⟨_, .topic, by simp [Model.merge, Assets.merge]⟩
  · exact ⟨_, .nothing (by simp_all [ResourceType.modelled]), by simp [Model.merge, Assets.merge]⟩

namespace Part

variable {part : Model}

theorem entries (h : p.Part r part) :
    part.entries = [p.entry r] ∨ (part.entries = [] ∧ r.type ∉ ResourceType.modelled) := by
  cases h with
  | nothing h => exact .inr ⟨rfl, h⟩
  | _ => exact .inl rfl

theorem idOf_mem_ids (h : p.Part r part) (htype : r.type ∈ ResourceType.modelled) :
    p.idOf r.logicalId ∈ part.ids := by
  rcases h.entries with hentries | ⟨-, hnot⟩
  · rw [Model.ids, hentries]
    exact List.mem_singleton_self _
  · exact absurd htype hnot

theorem linkable (h : p.Part r part) (hid : id ∈ part.links) : p.Linkable id := by
  rcases Model.mem_links_iff.1 hid with ⟨e, he, hid⟩ | hid
  · rcases h.entries with hentries | ⟨hentries, -⟩
    · rw [hentries] at he
      obtain rfl := List.mem_singleton.1 he
      exact linkable_dependsOn hid
    · simp [hentries] at he
  · cases h with
    | table => simp at hid
    | function =>
      have hsources : (p.function r).value.eventSources = [] := rfl
      simp [hsources] at hid
    | restApi =>
      obtain ⟨route, hroute, hid⟩ : ∃ route ∈ (p.restApi r).value.routes,
        route.target = some id := by simpa using hid
      exact linkable_routes (.inl rfl) hroute hid
    | httpApi =>
      obtain ⟨route, hroute, hid⟩ : ∃ route ∈ (p.httpApi r).value.routes,
        route.target = some id := by simpa using hid
      exact linkable_routes (.inr rfl) hroute hid
    | bus =>
      have hrules : (p.bus r).rules = [] := rfl
      simp [hrules] at hid
    | stateMachine => exact linkable_invokes (by simpa using hid)
    | queue => exact linkable_deadLetterTarget (by simpa using hid)
    | topic =>
      obtain ⟨s, hs, hid⟩ : ∃ s ∈ (p.topic r).value.subscriptions,
        s.target = some id := by simpa using hid
      exact linkable_subscriptions hs hid
    | nothing => simp at hid

end Part

theorem extends_addEntry (m : Model) : m.Extends p.Linkable (p.addEntry m r).value := by
  obtain ⟨part, hpart, hvalue⟩ := addEntry_cases m
  rw [hvalue]
  exact .merge fun _ => hpart.linkable

/-! ### What belongs to entries -/

theorem forall₂_changeAt {α : Type} {f : α → α} {R : α → α → Prop} (hrefl : ∀ x, R x x)
    (hf : ∀ x, R x (f x)) (l : List α) (i : Nat) : List.Forall₂ R l (changeAt f l i) := by
  induction l generalizing i with
  | nil => simp [changeAt]
  | cons x rest ih =>
    cases i with
    | zero => exact .cons (hf x) (List.forall₂_same.2 fun x _ => hrefl x)
    | succ i => exact .cons (hrefl x) (ih i)

/-- An event source mapping changes nothing about a function but what feeds it. -/
theorem extends_attachEventSource (m : Model) :
    m.Extends p.Linkable { m with functions := (p.attachEventSource r m.functions).value } := by
  unfold attachEventSource
  simp only [Noted.value_bind]
  split
  · exact .refl m
  split
  · exact .refl m
  next i _ _ source hsource =>
  refine .functions (forall₂_changeAt (fun _ => ⟨rfl, fun _ => .inl⟩) (fun f => ?_) _ i)
  split
  · exact ⟨rfl, fun _ => .inl⟩
  · refine ⟨rfl, fun id hid => (List.mem_append.1 hid).imp_right fun hid => ?_⟩
    obtain rfl := List.mem_singleton.1 hid
    exact linkable_of_bind_link? (List.Subset.refl _) hsource

theorem linkable_targets_ruleOf {properties : Json} (h : id ∈ (p.ruleOf r properties).targets) :
    p.Linkable id := by
  obtain ⟨arn, -, hid⟩ := List.mem_filterMap.1 h
  exact linkable_of_link? (List.Subset.refl _) hid

/-- A rule changes nothing about its bus but the rules of the bus. -/
theorem extends_addRule {m : Model} {rule : Model.Rule}
    (hrule : ∀ id ∈ rule.targets, p.Linkable id) (i : Nat) :
    m.Extends p.Linkable { m with
      buses := changeAt (fun b => { b with rules := b.rules ++ [rule] }) m.buses i } := by
  refine .buses (forall₂_changeAt (fun _ => ⟨rfl, fun _ => .inl⟩) (fun b => ⟨rfl, ?_⟩) m.buses i)
  refine fun rule' hrule' => (List.mem_append.1 hrule').imp_right fun hrule' => ?_
  obtain rfl := List.mem_singleton.1 hrule'
  exact hrule

/-- A subscription changes nothing about a topic but its subscriptions. -/
theorem extends_attachSubscription (m : Model) :
    m.Extends p.Linkable { m with topics := (p.attachSubscription r m.topics).value } := by
  unfold attachSubscription
  dsimp only
  split
  · next i _ =>
    refine .topics (forall₂_changeAt (fun _ => ⟨rfl, fun _ => .inl⟩) (fun t => ⟨rfl, ?_⟩) _ i)
    refine fun s hs => (List.mem_append.1 hs).imp_right fun hs => ?_
    obtain rfl := List.mem_singleton.1 hs
    exact fun _ => linkable_subscription
  · exact .refl m

/-! ### Whole templates -/

/-- Everything that may be linked to is there, and nothing else is linked to. -/
structure Sound (p : Projector) (out : Projection) : Prop where
  ids : ∀ id, p.Linkable id → id ∈ out.model.ids
  links : ∀ id ∈ out.model.links, p.Linkable id
  detached : ∀ d ∈ out.detached, ∀ id ∈ d.rule.targets, p.Linkable id

namespace Sound

variable {out : Projection}

theorem extend (h : p.Sound out) {m : Model} (hm : out.model.Extends p.Linkable m) :
    p.Sound { out with model := m } where
  ids := fun id hid => hm.ids (h.ids id hid)
  links := fun id hid => (hm.links hid).elim (h.links id) fun h => h
  detached := h.detached

/-- A rule is put on a bus or left over, and its targets may be linked to. -/
theorem attachRule (h : p.Sound out) : p.Sound (p.attachRule r out).value := by
  unfold Projector.attachRule
  simp only [Noted.value_bind]
  split
  · next i _ =>
    exact h.extend (extends_addRule (fun _ => linkable_targets_ruleOf) i)
  · refine ⟨h.ids, h.links, fun d hd => ?_⟩
    rcases List.mem_append.1 hd with hd | hd
    · exact h.detached d hd
    · obtain rfl := List.mem_singleton.1 hd
      exact fun _ => linkable_targets_ruleOf

theorem attach (h : p.Sound out) : p.Sound (p.attach out r).value := by
  unfold Projector.attach
  split
  · exact h.extend (extends_attachEventSource out.model)
  split
  · exact h.attachRule
  split
  · exact h.extend (extends_attachSubscription out.model)
  · exact h

end Sound

theorem mem_included_of_resource? (h : p.resource? id = some r) : r ∈ p.included := by
  obtain ⟨hmem, hincluded, -⟩ := resource?_eq_some h
  exact List.mem_filter.2 ⟨hmem, hincluded⟩

/-- All entries of included resources are there once they have been added. -/
theorem idOf_mem_ids_foldl {rs : List Resource} (hr : r ∈ rs)
    (htype : r.type ∈ ResourceType.modelled) (m : Model) :
    p.idOf r.logicalId ∈ (rs.foldl (fun m r => (p.addEntry m r).value) m).ids := by
  obtain ⟨before, after, rfl⟩ := List.append_of_mem hr
  rw [List.foldl_append, List.foldl_cons]
  set m := before.foldl (fun m r => (p.addEntry m r).value) m
  obtain ⟨part, hpart, hvalue⟩ := p.addEntry_cases m
  refine (Model.Extends.foldl (fun m r _ => p.extends_addEntry m) _).ids ?_
  rw [hvalue]
  exact Model.mem_ids_merge.2 (.inr (hpart.idOf_mem_ids htype))

end Projector

namespace Template

/-- What a template stands for in its own context. -/
def projection (t : Template) : Projection := (t.project t.context.value).value

/-- The template with its own context. -/
def projector (t : Template) : Projector := { template := t, ctx := t.context.value }

theorem projection_eq (t : Template) : t.projection =
    t.projector.included.foldl (fun out r => (t.projector.attach out r).value)
      { model := t.projector.included.foldl (fun m r => (t.projector.addEntry m r).value) {} } := by
  rw [projection, project]
  simp only [Noted.value_bind, Noted.value_foldlM]
  rfl

/-- A projection links to included resources that become entries, and has all their entries. -/
theorem sound_projection (t : Template) : t.projector.Sound t.projection := by
  set p := t.projector
  have hentries : Model.Extends p.Linkable {}
      (p.included.foldl (fun m r => (p.addEntry m r).value) {}) :=
    .foldl (fun m r _ => Projector.extends_addEntry m) {}
  rw [projection_eq]
  refine List.foldlRecOn _ _ ⟨?_, ?_, by simp⟩ fun out h r _ => h.attach
  · rintro _ ⟨r, hr, htype, rfl⟩
    exact Projector.idOf_mem_ids_foldl (Projector.mem_included_of_resource? hr) htype {}
  · exact fun id hid => (hentries.links hid).elim (fun h => absurd h List.not_mem_nil) fun h => h

end Template

end LocalCloud
