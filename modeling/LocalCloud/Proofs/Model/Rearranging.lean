import LocalCloud.Proofs.Graph.Shape
import LocalCloud.Proofs.Model.Entries

/-!
# Models merged in another order

A model is rearranged when the same entries stand in it in another order, and their rules have the
same targets (`Rearranged`).  Its graph keeps its nodes and its edges, and so it is started alike
(`Rearranged.exists_samePlan`).  Models are rearranged when they are merged in another order
(`Rearranged.foldl_merge`), and they are still so with the rules that templates leave over, unless
these have a choice between buses of one name (`Rearranged.attachRules`).
-/

namespace LocalCloud.Model

/-- A bus has a rule with the given target. -/
def Targets (buses : List Bus) (bus target : String) : Prop :=
  ∃ b ∈ buses, b.id = bus ∧ target ∈ b.rules.flatMap (·.targets)

theorem targets_append {buses others : List Bus} {bus target : String} :
    Targets (buses ++ others) bus target ↔ Targets buses bus target ∨ Targets others bus target := by
  simp only [Targets, List.mem_append, or_and_right, exists_or]

/-- Two models with the same entries and links, in whatever order. -/
structure Rearranged (m m' : Model) : Prop where
  tables : m.tables.Perm m'.tables
  functions : m.functions.Perm m'.functions
  apis : m.apis.Perm m'.apis
  buses : (m.buses.map (·.toEntry)).Perm (m'.buses.map (·.toEntry))
  rules : ∀ bus target, Targets m.buses bus target ↔ Targets m'.buses bus target
  stateMachines : m.stateMachines.Perm m'.stateMachines
  queues : m.queues.Perm m'.queues
  topics : m.topics.Perm m'.topics

namespace Rearranged

variable {m m' m'' : Model}

theorem refl (m : Model) : Rearranged m m :=
  ⟨.refl _, .refl _, .refl _, .refl _, fun _ _ => .rfl, .refl _, .refl _, .refl _⟩

theorem trans (h : Rearranged m m') (h' : Rearranged m' m'') : Rearranged m m'' where
  tables := h.tables.trans h'.tables
  functions := h.functions.trans h'.functions
  apis := h.apis.trans h'.apis
  buses := h.buses.trans h'.buses
  rules := fun bus target => (h.rules bus target).trans (h'.rules bus target)
  stateMachines := h.stateMachines.trans h'.stateMachines
  queues := h.queues.trans h'.queues
  topics := h.topics.trans h'.topics

/-! ### Merging -/

theorem merge (h : Rearranged m m') (other : Model) :
    Rearranged (m.merge other) (m'.merge other) where
  tables := h.tables.append_right _
  functions := h.functions.append_right _
  apis := h.apis.append_right _
  buses := by simpa only [Model.merge, List.map_append] using h.buses.append_right _
  rules := fun bus target => by
    simp only [Model.merge, targets_append, h.rules]
  stateMachines := h.stateMachines.append_right _
  queues := h.queues.append_right _
  topics := h.topics.append_right _

theorem merge_merge (m a b : Model) :
    Rearranged ((m.merge a).merge b) ((m.merge b).merge a) := by
  have hswap : ∀ {α : Type} (xs ys zs : List α), (xs ++ ys ++ zs).Perm (xs ++ zs ++ ys) := by
    intro α xs ys zs
    rw [List.append_assoc, List.append_assoc]
    exact List.perm_append_comm.append_left xs
  exact {
    tables := hswap _ _ _
    functions := hswap _ _ _
    apis := hswap _ _ _
    buses := (hswap _ _ _).map _
    rules := fun bus target => by
      simp only [Model.merge, targets_append]
      tauto
    stateMachines := hswap _ _ _
    queues := hswap _ _ _
    topics := hswap _ _ _ }

/-- Models may be merged in any order. -/
theorem foldl_merge {ms ms' : List Model} (hms : ms.Perm ms') (h : Rearranged m m') :
    Rearranged (ms.foldl Model.merge m) (ms'.foldl Model.merge m') := by
  induction hms generalizing m m' with
  | nil => exact h
  | cons part _ ih => exact ih (h.merge part)
  | swap a b rest =>
    have hrest : ∀ {m m' : Model}, Rearranged m m' →
        Rearranged (rest.foldl Model.merge m) (rest.foldl Model.merge m') := by
      induction rest with
      | nil => exact fun h => h
      | cons part rest ih => exact fun h => ih (h.merge part)
    exact hrest (((h.merge b).merge a).trans (merge_merge m' b a))
  | trans _ _ ih ih' => exact (ih h).trans (ih' (.refl m'))

/-! ### Graphs -/

theorem entries (h : Rearranged m m') : m.entries.Perm m'.entries :=
  ((((((h.tables.map _).append (h.functions.map _)).append (h.apis.map _)).append h.buses).append
    (h.stateMachines.map _)).append (h.queues.map _)).append (h.topics.map _)

theorem nameable (h : Rearranged m m') : m.nameable.Perm m'.nameable := by
  have hbuses : ∀ buses : List Bus, (buses.filter (·.id != defaultBus)).map (·.toEntry) =
      (buses.map (·.toEntry)).filter (·.id != defaultBus) := fun buses => by
    rw [List.filter_map]
    rfl
  rw [Model.nameable, Model.nameable, hbuses, hbuses]
  exact ((((h.tables.map _).append (h.queues.map _)).append (h.topics.map _)).append
    (h.buses.filter _)).append (h.stateMachines.map _)

theorem mem_functionEdges (h : Rearranged m m') {f : ComputeFunction} {edge : GraphEdge} :
    edge ∈ m.functionEdges f ↔ edge ∈ m'.functionEdges f := by
  simp only [functionEdges, List.mem_append, List.mem_flatMap, List.mem_map, List.mem_filter,
    h.nameable.mem_iff]

theorem mem_graphEdges (h : Rearranged m m') {edge : GraphEdge} :
    edge ∈ m.graphEdges ↔ edge ∈ m'.graphEdges := by
  have hbuses : ∀ buses : List Bus, (∃ b ∈ buses, edge.source ∈ b.rules.flatMap (·.targets) ∧
      edge.target = b.id ∧ edge.type = .triggers) ↔
        Targets buses edge.target edge.source ∧ edge.type = .triggers := by
    intro buses
    constructor
    · rintro ⟨b, hb, hsource, htarget, htype⟩
      exact ⟨⟨b, hb, htarget.symm, hsource⟩, htype⟩
    · rintro ⟨⟨b, hb, htarget, hsource⟩, htype⟩
      exact ⟨b, hb, hsource, htarget.symm, htype⟩
  simp only [mem_graphEdges_iff, hbuses, h.rules, h.mem_functionEdges, h.functions.mem_iff,
    h.apis.mem_iff, h.topics.mem_iff, h.queues.mem_iff, h.stateMachines.mem_iff,
    h.entries.mem_iff]

/-- The graphs of models with the same entries and links come about together, and they are started
alike. -/
theorem exists_samePlan (h : Rearranged m m') {g : Graph} (hg : m.graph.run.value = .ok g) :
    ∃ g', m'.graph.run.value = .ok g' ∧ g.SamePlan g' := by
  have hids : ∀ id, id ∈ m.graphNodes.map (·.id) ↔ id ∈ m'.graphNodes.map (·.id) := by
    intro id
    rw [ids_graphNodes, ids_graphNodes, ids, ids, (h.entries.map _).mem_iff]
  obtain ⟨g', hg'⟩ : ∃ g', m'.graph.run.value = .ok g' := by
    refine Graph.build_ok_iff.2 fun edge hedge => ?_
    have hends := Graph.build_ok_iff.1 ⟨g, hg⟩ edge (h.mem_graphEdges.2 hedge)
    rwa [hids, hids] at hends
  refine ⟨g', hg', (Graph.sameShape_of_build hg hg' hids fun ends => ?_).samePlan⟩
  simp only [List.mem_map, h.mem_graphEdges]

end Rearranged

/-! ### Rules that are left over -/

section Detached

variable {buses : List Bus} {ds : List DetachedRule} {bus target : String}

theorem asksForImplicit_iff {d : DetachedRule} : asksForImplicit buses d ↔
    (∀ e ∈ buses.map (·.toEntry), e.name ≠ d.busName) ∧ d.busName = defaultBus := by
  simp [asksForImplicit, placeOf?, busNamed?]

theorem targets_implicitBuses {rules : List Rule} :
    Targets (implicitBuses rules) bus target ↔
      bus = defaultBus ∧ target ∈ rules.flatMap (·.targets) := by
  cases rules with
  | nil => simp [Targets, implicitBuses]
  | cons first more => simp [Targets, implicitBuses, implicitBus, eq_comm]

theorem targets_routed {α : Type} {place? : α → Option Nat} {rule : α → Rule} {xs : List α} :
    Targets (routed place? rule xs buses) bus target ↔ Targets buses bus target ∨
      ∃ x ∈ xs, target ∈ (rule x).targets ∧
        ∃ i b, buses[i]? = some b ∧ place? x = some i ∧ b.id = bus := by
  constructor
  · rintro ⟨_, hb, hid, htarget⟩
    obtain ⟨i, hi, rfl⟩ := List.mem_mapIdx.1 hb
    rw [List.flatMap_append, List.mem_append] at htarget
    rcases htarget with htarget | htarget
    · exact .inl ⟨buses[i], List.getElem_mem hi, hid, htarget⟩
    · obtain ⟨_, hrule, htarget⟩ := List.mem_flatMap.1 htarget
      obtain ⟨x, hx, rfl⟩ := List.mem_map.1 hrule
      obtain ⟨hx, hplace⟩ := List.mem_filter.1 hx
      exact .inr ⟨x, hx, htarget, i, buses[i], List.getElem?_eq_getElem hi, beq_iff_eq.1 hplace, hid⟩
  · rintro (⟨b, hb, hid, htarget⟩ | ⟨x, hx, htarget, i, b, hb, hplace, hid⟩)
    · obtain ⟨i, hi, rfl⟩ := List.mem_iff_getElem.1 hb
      refine ⟨_, List.mem_mapIdx.2 ⟨i, hi, rfl⟩, hid, ?_⟩
      rw [List.flatMap_append]
      exact List.mem_append_left _ htarget
    · obtain ⟨hi, rfl⟩ := List.getElem?_eq_some_iff.1 hb
      refine ⟨_, List.mem_mapIdx.2 ⟨i, hi, rfl⟩, hid, ?_⟩
      rw [List.flatMap_append]
      refine List.mem_append_right _ (List.mem_flatMap.2 ⟨rule x, ?_, htarget⟩)
      exact List.mem_map_of_mem (List.mem_filter.2 ⟨hx, beq_iff_eq.2 hplace⟩)

/-- No two entries have the name that one of the rules asks for. -/
def Unambiguous (entries : List Entry) (ds : List DetachedRule) : Prop :=
  ∀ d ∈ ds, ∀ e ∈ entries, ∀ e' ∈ entries, e.name = d.busName → e'.name = d.busName → e.id = e'.id

/-- Where names of buses are not shared, a rule that is left over goes to the bus with the name it
asks for, wherever it is; else it goes to the bus that is made, if it asks for the default bus. -/
theorem targets_withDetached (hnames : Unambiguous (buses.map (·.toEntry)) ds) :
    Targets (withDetached buses ds) bus target ↔ Targets buses bus target ∨
      ∃ d ∈ ds, target ∈ d.rule.targets ∧
        ((∃ e ∈ buses.map (·.toEntry), e.name = d.busName ∧ e.id = bus) ∨
          ((∀ e ∈ buses.map (·.toEntry), e.name ≠ d.busName) ∧ d.busName = defaultBus ∧
            bus = defaultBus)) := by
  have hplace : ∀ d ∈ ds, (∃ i b, buses[i]? = some b ∧ placeOf? buses d = some i ∧ b.id = bus) ↔
      ∃ e ∈ buses.map (·.toEntry), e.name = d.busName ∧ e.id = bus := by
    intro d hd
    constructor
    · rintro ⟨i, b, hb, hplace, hid⟩
      obtain ⟨hi, hname, -⟩ := List.findIdx?_eq_some_iff_getElem.1 hplace
      obtain ⟨_, rfl⟩ := List.getElem?_eq_some_iff.1 hb
      exact ⟨_, List.mem_map_of_mem (List.getElem_mem hi), beq_iff_eq.1 hname, hid⟩
    · rintro ⟨e, he, hname, hid⟩
      obtain ⟨b, hb, rfl⟩ := List.mem_map.1 he
      obtain ⟨i, hplace⟩ := Option.isSome_iff_exists.1
        ((isSome_busNamed? buses d.busName).trans (List.any_eq_true.2 ⟨b, hb, beq_iff_eq.2 hname⟩))
      obtain ⟨hi, hfirst, -⟩ := List.findIdx?_eq_some_iff_getElem.1 hplace
      refine ⟨i, _, List.getElem?_eq_getElem hi, hplace, ?_⟩
      have hsame := hnames d hd _ (List.mem_map_of_mem (List.getElem_mem hi)) _ he
        (beq_iff_eq.1 hfirst) hname
      exact hsame.trans hid
  rw [withDetached, targets_append, targets_routed, targets_implicitBuses]
  simp only [List.mem_flatMap, List.mem_map (f := DetachedRule.rule), List.mem_filter,
    asksForImplicit_iff]
  constructor
  · rintro ((h | ⟨d, hd, htarget, h⟩) | ⟨rfl, _, ⟨d, ⟨hd, hnone, hdefault⟩, rfl⟩, htarget⟩)
    · exact .inl h
    · exact .inr ⟨d, hd, htarget, .inl ((hplace d hd).1 h)⟩
    · exact .inr ⟨d, hd, htarget, .inr ⟨hnone, hdefault, rfl⟩⟩
  · rintro (h | ⟨d, hd, htarget, h | ⟨hnone, hdefault, rfl⟩⟩)
    · exact .inl (.inl h)
    · exact .inl (.inr ⟨d, hd, htarget, (hplace d hd).2 h⟩)
    · exact .inr ⟨rfl, _, ⟨d, ⟨hd, hnone, hdefault⟩, rfl⟩, htarget⟩

theorem Unambiguous.of_perm {entries entries' : List Entry} {ds' : List DetachedRule}
    (h : Unambiguous entries ds) (hentries : entries.Perm entries') (hds : ds.Perm ds') :
    Unambiguous entries' ds' := by
  simpa only [Unambiguous, hentries.mem_iff, hds.mem_iff] using h

theorem perm_implicitBuses {rules rules' : List Rule} (h : rules.Perm rules') :
    ((implicitBuses rules).map (·.toEntry)).Perm ((implicitBuses rules').map (·.toEntry)) := by
  cases rules with
  | nil =>
    obtain rfl := h.nil_eq
    exact .refl _
  | cons first more =>
    cases rules' with
    | nil => exact absurd h.length_eq (by simp)
    | cons first' more' => exact .refl _

/-- Attaching the rules that are left over, in any order, leaves rearranged models rearranged, if no
two buses have a name that the rules ask for. -/
theorem Rearranged.attachRules {m m' : Model} (h : Rearranged m m') {ds' : List DetachedRule}
    (hds : ds.Perm ds') (hnames : Unambiguous (m.buses.map (·.toEntry)) ds) :
    Rearranged (m.attachRules ds).value (m'.attachRules ds').value := by
  have hasks : asksForImplicit m.buses = asksForImplicit m'.buses := by
    funext d
    rw [Bool.eq_iff_iff]
    simp only [asksForImplicit_iff, h.buses.mem_iff]
  rw [value_attachRules, value_attachRules]
  exact {
    tables := h.tables
    functions := h.functions
    apis := h.apis
    buses := by
      rw [withDetached, withDetached, List.map_append, List.map_append, map_toEntry_routed,
        map_toEntry_routed, hasks]
      exact h.buses.append (perm_implicitBuses ((hds.filter _).map _))
    rules := fun bus target => by
      simp only [targets_withDetached hnames, targets_withDetached (hnames.of_perm h.buses hds),
        h.rules, h.buses.mem_iff, hds.mem_iff]
    stateMachines := h.stateMachines
    queues := h.queues
    topics := h.topics }

end Detached

/-! ### Models of templates -/

section Templates

variable {templates templates' : List Template}

theorem graph_merged (templates : List Template) :
    ∃ g, (merged templates).graph.run.value = .ok g := by
  refine graph_ok_iff.2 fun id hid => ?_
  rcases mem_links_foldl_merge.1 hid with hid | ⟨part, hpart, hid⟩
  · exact absurd hid List.not_mem_nil
  · obtain ⟨t, ht, rfl⟩ := List.mem_map.1 hpart
    refine mem_ids_foldl_merge.2 (.inr ⟨_, hpart, ?_⟩)
    exact Template.mem_ids_of_mem_links (List.mem_append_left _ hid)

theorem rearranged_merged (h : templates.Perm templates') :
    Rearranged (merged templates) (merged templates') :=
  .foldl_merge (h.map _) (.refl _)

/-- Templates in another order have the same entries and links, unless buses share a name that a
rule of another template asks for. -/
theorem rearranged_ofTemplates (h : templates.Perm templates')
    (hnames : Unambiguous ((merged templates).buses.map (·.toEntry))
      (templates.flatMap (·.projection.detached))) :
    Rearranged (ofTemplates templates) (ofTemplates templates') :=
  (rearranged_merged h).attachRules (h.flatMap_right _) hnames

/-- Templates in another order are started alike, under the same condition. -/
theorem samePlan_ofTemplates (h : templates.Perm templates')
    (hnames : Unambiguous ((merged templates).buses.map (·.toEntry))
      (templates.flatMap (·.projection.detached))) :
    ∃ g g', (ofTemplates templates).graph.run.value = .ok g ∧
      (ofTemplates templates').graph.run.value = .ok g' ∧ g.SamePlan g' := by
  obtain ⟨g, hg⟩ := graph_ofTemplates templates
  obtain ⟨g', hg', hplan⟩ := (rearranged_ofTemplates h hnames).exists_samePlan hg
  exact ⟨g, g', hg, hg', hplan⟩

/-- A stack with one bus. -/
def branch (stack : String) : Template where
  stack
  resources :=
    [{ logicalId := "Bus", type := ResourceType.eventBus, dependsOn := [], condition := none,
       properties := .object [("Name", .string "jobs")], metadata := [] }]

/-- A stack with a rule that asks for a bus by its name. -/
def dispatcher : Template where
  stack := "Main"
  resources :=
    [{ logicalId := "Nightly", type := ResourceType.eventRule, dependsOn := [], condition := none,
       properties := .object [("EventBusName", .string "jobs")], metadata := [] }]

/-- Where buses share a name, their order decides which of them gets a rule that asks for it. -/
example :
    ((ofTemplates [branch "East", branch "West", dispatcher]).buses.map fun b =>
      (b.id, b.rules.length)) = [("East/Bus", 1), ("West/Bus", 0)] ∧
    ((ofTemplates [branch "West", branch "East", dispatcher]).buses.map fun b =>
      (b.id, b.rules.length)) = [("West/Bus", 1), ("East/Bus", 0)] := by
  decide +kernel

end Templates

/-- Graphs that are built from nodes with the same ids, such as the same nodes in another order, and
from edges that join the same nodes, in whatever order, however often and of whatever types, are
started alike.  So it makes no difference in which order models are merged, and the graph of merged
templates can always be built. -/
theorem plan_ignores_order :
    (∀ {nodes nodes' : List GraphNode} {edges edges' : List GraphEdge} {g h : Graph},
      (Graph.build nodes edges).run.value = .ok g → (Graph.build nodes' edges').run.value = .ok h →
      (∀ id, id ∈ nodes.map (·.id) ↔ id ∈ nodes'.map (·.id)) →
      (∀ ends, ends ∈ edges.map GraphEdge.ends ↔ ends ∈ edges'.map GraphEdge.ends) →
      g.SamePlan h) ∧
    (∀ {ms ms' : List Model}, ms.Perm ms' → ∀ {g : Graph},
      (ms.foldl merge {}).graph.run.value = .ok g →
      ∃ g', (ms'.foldl merge {}).graph.run.value = .ok g' ∧ g.SamePlan g') ∧
    ∀ templates : List Template,
      ∃ g, ((templates.map (·.projection.model)).foldl merge {}).graph.run.value = .ok g := by
  refine ⟨fun hg hh hnodes hedges => ?_, fun hms _ hg => ?_, graph_merged⟩
  · exact (Graph.sameShape_of_build hg hh hnodes hedges).samePlan
  · exact (Rearranged.foldl_merge hms (.refl {})).exists_samePlan hg

/-- A queue, a function and a topic. -/
def deskNodes : List GraphNode :=
  [⟨"Orders", .queue, .null⟩, ⟨"Worker", .function, .null⟩, ⟨"Mail", .topic, .null⟩]

/-- The worker waits for the orders, and the mail for the worker. -/
def deskEdges : List GraphEdge :=
  [⟨"Orders", "Worker", .triggers⟩, ⟨"Worker", "Mail", .dependsOn⟩]

/-- The same edges the other way round, one of them twice and for other reasons. -/
def otherEdges : List GraphEdge :=
  [⟨"Worker", "Mail", .dependsOn⟩, ⟨"Orders", "Worker", .invokes⟩,
    ⟨"Orders", "Worker", .dataDependency⟩]

theorem desk_plan :
    (∃ g h, (Graph.build deskNodes deskEdges).run.value = .ok g ∧
      (Graph.build deskNodes.reverse otherEdges).run.value = .ok h ∧ g.edges ≠ h.edges ∧
      g.SamePlan h) ∧
    ∃ g g', ([pausedOrders.projection.model, mailDesk.projection.model].foldl merge
        {}).graph.run.value = .ok g ∧
      ([mailDesk.projection.model, pausedOrders.projection.model].foldl merge
        {}).graph.run.value = .ok g' ∧ g.SamePlan g' := by
  obtain ⟨hshape, hmerge, htemplates⟩ := plan_ignores_order
  obtain ⟨g, hg⟩ := Graph.build_ok_iff.2 (by decide : ∀ edge ∈ deskEdges,
    edge.source ∈ deskNodes.map (·.id) ∧ edge.target ∈ deskNodes.map (·.id))
  obtain ⟨h, hh⟩ := Graph.build_ok_iff.2 (by decide : ∀ edge ∈ otherEdges,
    edge.source ∈ deskNodes.reverse.map (·.id) ∧ edge.target ∈ deskNodes.reverse.map (·.id))
  obtain ⟨whole, hwhole⟩ := htemplates [pausedOrders, mailDesk]
  obtain ⟨swapped, hswapped, hplan⟩ := hmerge (List.Perm.swap _ _ _) hwhole
  refine ⟨⟨g, h, hg, hh, ?_, hshape hg hh (fun id => ?_) fun ends => ?_⟩,
    whole, swapped, hwhole, hswapped, hplan⟩
  · rw [Graph.edges_of_build hg, Graph.edges_of_build hh]
    decide
  · rw [List.map_reverse, List.mem_reverse]
  · simp only [deskEdges, otherEdges, GraphEdge.ends, List.map_cons, List.map_nil, List.mem_cons,
      List.not_mem_nil, or_false]
    tauto

end LocalCloud.Model
