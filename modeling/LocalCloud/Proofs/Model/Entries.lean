import LocalCloud.Proofs.Model.RuleConservation
import LocalCloud.Proofs.Text.Joining

/-!
# One entry for each resource

The entries of a model come in one list for each kind of node (`Model.entriesOf`).  A template fills
each list with the entries of its included resources of the types that become this kind
(`Template.entriesOf_projection`), and nothing that is done later adds an entry but the bus that is
made for rules that ask for the default bus (`Model.entriesOf_ofTemplates`).  As no name of a stack
has a slash in it, an id tells which resource its entry stands for (`Projector.idOf_inj`), so that
all ids differ and every entry gets a node of its own (`Model.nodes_of_graph`).
-/

namespace LocalCloud

namespace ResourceType

/-- The types whose resources become entries, with the kind of node that they become. -/
def kinds : List (String × NodeType) :=
  [(table, .table), (function, .function), (restApi, .apiGateway), (httpApi, .apiGateway),
    (eventBus, .eventBus), (stateMachine, .stateMachine), (queue, .queue), (topic, .topic)]

/-- The kind of node that resources of a type become. -/
def kind? (type : String) : Option NodeType := kinds.lookup type

theorem isSome_kind?_iff {type : String} : (kind? type).isSome ↔ type ∈ modelled := by
  have hkeys : modelled = kinds.map (·.1) := rfl
  rw [kind?, List.lookup_isSome_iff, hkeys]
  simp

end ResourceType

theorem NodeType.nodup_all : all.Nodup := by decide

namespace Model

/-- The entries of one kind. -/
def entriesOf (m : Model) : NodeType → List Entry
  | .table => m.tables.map (·.toEntry)
  | .function => m.functions.map (·.toEntry)
  | .apiGateway => m.apis.map (·.toEntry)
  | .eventBus => m.buses.map (·.toEntry)
  | .stateMachine => m.stateMachines.map (·.toEntry)
  | .queue => m.queues.map (·.toEntry)
  | .topic => m.topics.map (·.toEntry)

theorem entries_eq (m : Model) : m.entries = NodeType.all.flatMap m.entriesOf := by
  simp [entries, NodeType.all, entriesOf]

theorem entriesOf_merge (m other : Model) (kind : NodeType) :
    (m.merge other).entriesOf kind = m.entriesOf kind ++ other.entriesOf kind := by
  cases kind <;> exact List.map_append

theorem entriesOf_foldl_merge (ms : List Model) (m : Model) (kind : NodeType) :
    (ms.foldl merge m).entriesOf kind = m.entriesOf kind ++ ms.flatMap (·.entriesOf kind) := by
  induction ms generalizing m with
  | nil => simp
  | cons part rest ih =>
    rw [List.foldl_cons, ih, entriesOf_merge, List.append_assoc, List.flatMap_cons]

end Model

namespace Projector

variable {p : Projector} {r : Resource} {out : Projection}

/-- The entries of the included resources that become nodes of one kind. -/
def entriesOf (p : Projector) (kind : NodeType) : List Model.Entry :=
  (p.included.filter fun r => ResourceType.kind? r.type == some kind).map p.entry

/-- The entries of the included resources of the types that become entries. -/
def ownEntries (p : Projector) : List Model.Entry :=
  (p.included.filter fun r => ResourceType.modelled.contains r.type).map p.entry

/-- A resource adds its entry to the list of its kind, and nothing to the others. -/
theorem entriesOf_addEntry (m : Model) (r : Resource) (kind : NodeType) :
    (p.addEntry m r).value.entriesOf kind = m.entriesOf kind ++
      ([r].filter fun r => ResourceType.kind? r.type == some kind).map p.entry := by
  have hadded : ∀ {m' : Model} {type : String} {own : NodeType}, (r.type == type) = true →
      ResourceType.kind? type = some own →
      (∀ kind, m'.entriesOf kind = m.entriesOf kind ++ if own = kind then [p.entry r] else []) →
      m'.entriesOf kind = m.entriesOf kind ++
        ([r].filter fun r => ResourceType.kind? r.type == some kind).map p.entry := by
    intro m' type own htype hown hm'
    rw [← beq_iff_eq.1 htype] at hown
    by_cases hkind : own = kind <;> simp [hm', hown, hkind]
  -- in each branch but the last one the type is that of the list that is longer now
  unfold addEntry
  split_ifs
  case neg =>
    have hnone : ResourceType.kind? r.type = none := by
      simp_all [ResourceType.kind?, ResourceType.kinds]
    simp [hnone]
  all_goals
    rename_i htype
    refine hadded htype rfl fun kind => ?_
    cases kind <;> first | exact List.map_append | exact (List.append_nil _).symm

theorem entriesOf_foldl_addEntry (rs : List Resource) (m : Model) (kind : NodeType) :
    (rs.foldl (fun m r => (p.addEntry m r).value) m).entriesOf kind = m.entriesOf kind ++
      (rs.filter fun r => ResourceType.kind? r.type == some kind).map p.entry := by
  induction rs generalizing m with
  | nil => simp
  | cons r rest ih =>
    rw [List.foldl_cons, ih, entriesOf_addEntry, List.append_assoc, ← List.map_append,
      ← List.filter_append]
    rfl

/-! What belongs to an entry changes nothing that all entries have. -/

theorem map_changeAt {α β : Type} {f : α → α} {g : α → β} (hf : ∀ x, g (f x) = g x) (l : List α)
    (i : Nat) : (changeAt f l i).map g = l.map g :=
  Model.map_eq_of_forall₂ (R := fun x y => g y = g x) (fun _ _ h => h)
    (forall₂_changeAt (R := fun x y => g y = g x) (fun _ => rfl) hf l i)

theorem map_toEntry_attachEventSource (r : Resource) (functions : List Model.ComputeFunction) :
    (p.attachEventSource r functions).value.map (·.toEntry) = functions.map (·.toEntry) := by
  unfold attachEventSource
  simp only [Noted.value_bind]
  split
  · rfl
  split
  · rfl
  · refine map_changeAt (fun f => ?_) functions _
    split <;> rfl

theorem map_toEntry_attachSubscription (r : Resource) (topics : List Model.Topic) :
    (p.attachSubscription r topics).value.map (·.toEntry) = topics.map (·.toEntry) := by
  unfold attachSubscription
  dsimp only
  split
  · simp only [Noted.value_bind, Noted.value_pure]
    refine map_changeAt ?_ topics _
    exact fun _ => rfl
  · rfl

theorem entriesOf_attach (out : Projection) (r : Resource) (kind : NodeType) :
    (p.attach out r).value.model.entriesOf kind = out.model.entriesOf kind := by
  unfold attach
  split
  · cases kind with
    | function => exact map_toEntry_attachEventSource r _
    | _ => rfl
  split
  · unfold attachRule
    simp only [Noted.value_bind]
    split
    · cases kind with
      | eventBus =>
        refine map_changeAt ?_ out.model.buses _
        exact fun _ => rfl
      | _ => rfl
    · rfl
  split
  · cases kind with
    | topic => exact map_toEntry_attachSubscription r _
    | _ => rfl
  · rfl

/-! ### Ids -/

/-- Where no name of a stack has a slash in it, an id tells the stack and the logical id. -/
theorem idOf_inj {q : Projector} {first second : String}
    (hp : '/' ∉ p.template.stack.toList) (hq : '/' ∉ q.template.stack.toList)
    (h : p.idOf first = q.idOf second) :
    p.template.stack = q.template.stack ∧ first = second := by
  have hchars := congrArg String.toList h
  simp only [idOf, String.toList_append, List.append_assoc] at hchars
  have hsame : p.template.stack = q.template.stack :=
    String.toList_inj.1 (Text.append_mark_inj hp hq hchars).1
  rw [idOf, idOf, hsame] at h
  exact ⟨hsame, (String.append_right_inj _).1 h⟩

/-- The entries of a template in which each logical id occurs once have different ids. -/
theorem nodup_ids_ownEntries (hids : (p.template.resources.map (·.logicalId)).Nodup) :
    (p.ownEntries.map (·.id)).Nodup := by
  have hnodup : (((p.included.filter fun r => ResourceType.modelled.contains r.type).map
      (·.logicalId)).map p.idOf).Nodup := by
    refine List.Nodup.map idOf_injective (hids.sublist ?_)
    exact (List.filter_sublist.trans List.filter_sublist).map _
  rw [List.map_map] at hnodup
  rw [ownEntries, List.map_map]
  exact hnodup

theorem exists_of_mem_ids_ownEntries {id : String}
    (h : id ∈ p.ownEntries.map (·.id)) : ∃ logicalId, id = p.idOf logicalId := by
  obtain ⟨e, he, rfl⟩ := List.mem_map.1 h
  obtain ⟨r, -, rfl⟩ := List.mem_map.1 he
  exact ⟨r.logicalId, rfl⟩

end Projector

/-- The lists of a projection hold the entries of the included resources of the types that become
entries, in the order of the template. -/
theorem Template.entriesOf_projection (t : Template) (kind : NodeType) :
    t.projection.model.entriesOf kind = t.projector.entriesOf kind := by
  have hentries := Projector.entriesOf_foldl_addEntry (p := t.projector) t.projector.included {} kind
  have hnone : ({} : Model).entriesOf kind = [] := by cases kind <;> rfl
  rw [hnone, List.nil_append] at hentries
  rw [projection_eq]
  refine List.foldlRecOn
    (motive := fun out : Projection => out.model.entriesOf kind = t.projector.entriesOf kind)
    _ _ hentries fun out h r _ => ?_
  rw [Projector.entriesOf_attach, h]

namespace Model

/-- The entries of the templates, and that of the bus that is made if there are rules that ask for
the default bus where no bus has that name. -/
theorem entriesOf_ofTemplates (templates : List Template) (kind : NodeType) :
    (ofTemplates templates).entriesOf kind = templates.flatMap (·.projector.entriesOf kind) ++
      if kind = .eventBus then (implicitBuses (sentTo templates .implicit)).map (·.toEntry)
      else [] := by
  have hmerged : (merged templates).entriesOf kind =
      templates.flatMap (·.projector.entriesOf kind) := by
    have hnone : ({} : Model).entriesOf kind = [] := by cases kind <;> rfl
    rw [merged, entriesOf_foldl_merge, hnone, List.nil_append, List.flatMap_map]
    exact List.flatMap_congr fun t _ => t.entriesOf_projection kind
  by_cases hkind : kind = .eventBus
  · subst hkind
    have hbuses : (ofTemplates templates).entriesOf .eventBus =
        (ofTemplates templates).buses.map (·.toEntry) := rfl
    rw [if_pos rfl, hbuses, buses_ofTemplates, List.map_append, map_toEntry_routed,
      ← buses_merged, ← hmerged]
    rfl
  · have hsame : (ofTemplates templates).entriesOf kind = (merged templates).entriesOf kind := by
      rw [ofTemplates, value_attachRules]
      cases kind <;> first | rfl | exact absurd rfl hkind
    rw [if_neg hkind, hsame, hmerged, List.append_nil]

/-! ### Ids -/

/-- Everything that stands for an entry, or for none: the included resources of all templates, each
with the kind of node that it becomes and what its entry has, and the bus that is made. -/
def sources (templates : List Template) : List (Option NodeType × Entry) :=
  templates.flatMap (fun t =>
      t.projector.included.map fun r => (ResourceType.kind? r.type, t.projector.entry r)) ++
    (implicitBuses (sentTo templates .implicit)).map fun b => (some .eventBus, b.toEntry)

theorem entriesOf_eq_sources (templates : List Template) (kind : NodeType) :
    (ofTemplates templates).entriesOf kind =
      ((sources templates).filter (·.1 == some kind)).map (·.2) := by
  have himplicit : (((implicitBuses (sentTo templates .implicit)).map fun b =>
      (some NodeType.eventBus, b.toEntry)).filter (·.1 == some kind)).map (·.2) =
        if kind = .eventBus then (implicitBuses (sentTo templates .implicit)).map (·.toEntry)
        else [] := by
    cases sentTo templates .implicit <;> cases kind <;> rfl
  rw [entriesOf_ofTemplates, sources, List.filter_append, List.map_append, himplicit,
    List.filter_flatMap, List.map_flatMap]
  congr 1
  refine List.flatMap_congr fun t _ => ?_
  rw [List.filter_map, List.map_map]
  rfl

/-- Sorted by kind, all that has one of the kinds is there once. -/
theorem perm_flatMap_filter {α κ : Type} [DecidableEq κ] (key : α → Option κ) (xs : List α)
    {kinds : List κ} (hkinds : kinds.Nodup) :
    (kinds.flatMap fun kind => xs.filter (key · == some kind)).Perm
      (xs.filter fun x => kinds.any (key x == some ·)) := by
  induction kinds with
  | nil => simp
  | cons kind rest ih =>
    obtain ⟨hnew, hrest⟩ := List.nodup_cons.1 hkinds
    have hfirst : (xs.filter fun x => (kind :: rest).any (key x == some ·)).filter
        (key · == some kind) = xs.filter (key · == some kind) := by
      rw [List.filter_filter]
      refine List.filter_congr fun x _ => ?_
      rw [List.any_cons, Bool.and_or_distrib_left, Bool.and_self, Bool.or_eq_left_iff_imp,
        Bool.and_eq_true]
      exact And.left
    have hothers : (xs.filter fun x => (kind :: rest).any (key x == some ·)).filter
        (!key · == some kind) = xs.filter fun x => rest.any (key x == some ·) := by
      rw [List.filter_filter]
      refine List.filter_congr fun x _ => ?_
      cases hx : key x == some kind with
      | true => simpa [beq_iff_eq.1 hx] using List.forall_mem_ne.2 hnew
      | false => simp [hx]
    have hsplit := List.filter_append_perm (key · == some kind)
      (xs.filter fun x => (kind :: rest).any (key x == some ·))
    rw [hfirst, hothers] at hsplit
    rw [List.flatMap_cons]
    exact ((ih hrest).append_left _).trans hsplit

/-- There is one entry for each included resource of a type that becomes one, and none for anything
else but the bus that is made. -/
theorem perm_entries (templates : List Template) : (ofTemplates templates).entries.Perm
    (templates.flatMap (·.projector.ownEntries) ++
      (implicitBuses (sentTo templates .implicit)).map (·.toEntry)) := by
  have hany : ∀ kind? : Option NodeType, NodeType.all.any (kind? == some ·) = kind?.isSome := by
    rintro (_ | kind)
    · rfl
    · cases kind <;> rfl
  have hkinds := (perm_flatMap_filter (·.1) (sources templates) NodeType.nodup_all).map (·.2)
  simp only [List.map_flatMap, hany] at hkinds
  rw [entries_eq, List.flatMap_congr fun kind _ => entriesOf_eq_sources templates kind]
  refine hkinds.trans (.of_eq ?_)
  rw [sources, List.filter_append, List.map_append, List.filter_flatMap, List.map_flatMap]
  congr 1
  · refine List.flatMap_congr fun t _ => ?_
    rw [List.filter_map, List.map_map, Projector.ownEntries]
    congr 1
    refine List.filter_congr fun r _ => ?_
    rw [Function.comp_apply, Bool.eq_iff_iff, ResourceType.isSome_kind?_iff, List.contains_iff_mem]
  · cases sentTo templates .implicit <;> rfl

variable {templates : List Template}

/-- The ids of all entries differ. -/
theorem nodup_ids_ofTemplates (hstacks : (templates.map (·.stack)).Nodup)
    (hslash : ∀ t ∈ templates, '/' ∉ t.stack.toList)
    (hids : ∀ t ∈ templates, (t.resources.map (·.logicalId)).Nodup) :
    (ofTemplates templates).ids.Nodup := by
  rw [ids, ((perm_entries templates).map _).nodup_iff, List.map_append, List.map_flatMap,
    List.nodup_append]
  -- the ids of one template, of two templates, of the bus that is made, and of it and a template
  refine ⟨List.nodup_flatMap.2 ⟨fun t ht => ?_, ?_⟩, ?_, ?_⟩
  · exact Projector.nodup_ids_ownEntries (hids t ht)
  · refine (List.pairwise_map.1 hstacks).imp_of_mem fun {t other} ht hother hne id hid hid' => ?_
    obtain ⟨first, rfl⟩ := Projector.exists_of_mem_ids_ownEntries hid
    obtain ⟨second, heq⟩ := Projector.exists_of_mem_ids_ownEntries hid'
    exact hne (Projector.idOf_inj (hslash t ht) (hslash other hother) heq).1
  · cases sentTo templates .implicit <;> simp [implicitBuses]
  · intro id hid other hother heq
    obtain ⟨t, -, hid⟩ := List.mem_flatMap.1 hid
    obtain ⟨logicalId, rfl⟩ := Projector.exists_of_mem_ids_ownEntries hid
    have hdefault : other = defaultBus := by
      cases hrules : sentTo templates .implicit <;> simp_all [implicitBuses, implicitBus]
    exact t.projector.idOf_ne_defaultBus logicalId (heq.trans hdefault)

/-! ### Nodes -/

/-- Every entry has a node of its kind. -/
theorem mem_graphNodes_of_mem_entriesOf {m : Model} {kind : NodeType} {e : Entry}
    (h : e ∈ m.entriesOf kind) : ∃ config, ⟨e.id, kind, config⟩ ∈ m.graphNodes := by
  cases kind <;>
    · obtain ⟨x, hx, rfl⟩ := List.mem_map.1 h
      refine ⟨x.toJson, ?_⟩
      simp only [graphNodes, List.mem_append, List.mem_map]
      grind

/-- Where the ids of a model differ, its graph has a node for each entry, of the kind of the list
in which the entry is. -/
theorem nodes_of_graph {m : Model} {g : Graph} (hnodup : m.ids.Nodup)
    (hg : m.graph.run.value = .ok g) : g.size = m.resourceCount ∧
      ∀ kind, ∀ e ∈ m.entriesOf kind, (g.node? e.id).map (·.type) = some kind := by
  have hformed := Graph.formed_of_build hg
  have hnodes : g.nodes.Perm m.graphNodes := by
    rw [Graph.eq_of_build hg]
    exact Graph.perm_collectNodes (by rwa [ids_graphNodes])
  constructor
  · have hlength := congrArg List.length (ids_graphNodes (m := m))
    rw [List.length_map, ids, List.length_map] at hlength
    rw [Graph.size, hnodes.length_eq, hlength, resourceCount]
  · intro kind e he
    obtain ⟨config, hnode⟩ := mem_graphNodes_of_mem_entriesOf he
    rw [hformed.node?_eq_some (hnodes.mem_iff.2 hnode)]
    rfl

/-- Where the names of the stacks differ and have no slash in them, the ids of all entries differ.
There is one entry for each included resource of a type that becomes one, in the list of its kind,
and no other but that of the bus that is made.  The graph has as many nodes as there are entries,
and that of each entry has the kind of the list in which the entry is.  Each logical id occurs once
in every template that is read (`Template.nodup_of_read`). -/
theorem ofTemplates_nodes (hstacks : (templates.map (·.stack)).Nodup)
    (hslash : ∀ t ∈ templates, '/' ∉ t.stack.toList)
    (hids : ∀ t ∈ templates, (t.resources.map (·.logicalId)).Nodup) :
    (ofTemplates templates).ids.Nodup ∧
    (ofTemplates templates).entries.Perm (templates.flatMap (·.projector.ownEntries) ++
      (implicitBuses (sentTo templates .implicit)).map (·.toEntry)) ∧
    (∀ kind, (ofTemplates templates).entriesOf kind =
      templates.flatMap (·.projector.entriesOf kind) ++
        if kind = .eventBus then (implicitBuses (sentTo templates .implicit)).map (·.toEntry)
        else []) ∧
    ∃ g, (ofTemplates templates).graph.run.value = .ok g ∧
      g.size = (ofTemplates templates).resourceCount ∧
      ∀ kind, ∀ e ∈ (ofTemplates templates).entriesOf kind,
        (g.node? e.id).map (·.type) = some kind := by
  have hnodup := nodup_ids_ofTemplates hstacks hslash hids
  obtain ⟨g, hg⟩ := graph_ofTemplates templates
  exact ⟨hnodup, perm_entries templates, entriesOf_ofTemplates templates, g, hg,
    nodes_of_graph hnodup hg⟩

/-- A stack with the names of another one in it: its table has the logical id of a function there,
and its topic has the id of that function for a logical id. -/
def mailDesk : Template where
  stack := "Mail"
  resources :=
    [{ logicalId := "Worker", type := ResourceType.table, properties := .null, dependsOn := [],
       condition := none, metadata := [] },
     { logicalId := "Shop/Worker", type := ResourceType.topic, properties := .null,
       dependsOn := [], condition := none, metadata := [] }]

/-- The worker of the shop, the bus that its rule asks for, and both entries of the mail desk have
nodes; the queue that is excluded has none. -/
theorem mailDesk_nodes :
    (ofTemplates [pausedOrders, mailDesk]).ids =
      ["Mail/Worker", "Shop/Worker", "default", "Mail/Shop/Worker"] ∧
    ∃ g, (ofTemplates [pausedOrders, mailDesk]).graph.run.value = .ok g ∧ g.size = 4 ∧
      (g.node? "Mail/Worker").map (·.type) = some .table ∧
      (g.node? "Shop/Worker").map (·.type) = some .function ∧
      (g.node? "default").map (·.type) = some .eventBus ∧
      (g.node? "Mail/Shop/Worker").map (·.type) = some .topic := by
  obtain ⟨-, -, -, g, hg, hsize, htypes⟩ := ofTemplates_nodes
    (by decide : ([pausedOrders, mailDesk].map (·.stack)).Nodup) (by decide) (by decide)
  have hfound : ∀ kind id, id ∈ ((ofTemplates [pausedOrders, mailDesk]).entriesOf kind).map (·.id) →
      (g.node? id).map (·.type) = some kind := by
    intro kind id hid
    obtain ⟨e, he, rfl⟩ := List.mem_map.1 hid
    exact htypes kind e he
  refine ⟨by decide +kernel, g, hg, hsize.trans (by decide +kernel), ?_, ?_, ?_, ?_⟩
  · exact hfound .table _ (by decide +kernel)
  · exact hfound .function _ (by decide +kernel)
  · exact hfound .eventBus _ (by decide +kernel)
  · exact hfound .topic _ (by decide +kernel)

end Model

end LocalCloud
