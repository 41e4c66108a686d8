import LocalCloud.Model.Graph
import LocalCloud.Proofs.Graph.Formation
import Mathlib.Data.List.Forall2

/-!
# The links of a model

A model links to an entry by its id, from entries of every kind and from what belongs to them
(`links`).  Its graph can be built exactly when all these ids are ids of its entries
(`graph_ok_iff`): of all edges only those of the links could end outside.
-/

namespace LocalCloud

namespace Model

variable {m : Model} {id : String}

/-- The ids of all entries. -/
def ids (m : Model) : List String := m.entries.map (·.id)

/-- All ids that a model links to, with repetitions. -/
def links (m : Model) : List String :=
  m.entries.flatMap (·.dependsOn) ++ m.functions.flatMap (·.eventSources) ++
    m.apis.flatMap (fun a => a.routes.filterMap (·.target)) ++
    m.buses.flatMap (fun b => b.rules.flatMap (·.targets)) ++
    m.stateMachines.flatMap (·.invokes) ++
    m.queues.flatMap (fun q => q.deadLetterTarget.toList) ++
    m.topics.flatMap (fun t => t.subscriptions.filterMap (·.target))

theorem mem_ids_iff : id ∈ m.ids ↔
    (∃ x ∈ m.tables, x.id = id) ∨ (∃ x ∈ m.functions, x.id = id) ∨ (∃ x ∈ m.apis, x.id = id) ∨
    (∃ x ∈ m.buses, x.id = id) ∨ (∃ x ∈ m.stateMachines, x.id = id) ∨
    (∃ x ∈ m.queues, x.id = id) ∨ (∃ x ∈ m.topics, x.id = id) := by
  simp [ids, entries]

theorem mem_links_iff : id ∈ m.links ↔
    (∃ e ∈ m.entries, id ∈ e.dependsOn) ∨ (∃ f ∈ m.functions, id ∈ f.eventSources) ∨
    (∃ a ∈ m.apis, id ∈ a.routes.filterMap (·.target)) ∨
    (∃ b ∈ m.buses, id ∈ b.rules.flatMap (·.targets)) ∨
    (∃ s ∈ m.stateMachines, id ∈ s.invokes) ∨
    (∃ q ∈ m.queues, id ∈ q.deadLetterTarget.toList) ∨
    (∃ t ∈ m.topics, id ∈ t.subscriptions.filterMap (·.target)) := by
  simp only [links, List.mem_append, List.mem_flatMap, or_assoc]

theorem ids_graphNodes : m.graphNodes.map (·.id) = m.ids := by
  simp [graphNodes, ids, entries, Function.comp_def]

/-! ### Edges -/

/-- The edges into each of some entries from what it names. -/
theorem mem_edges_into {α : Type} {xs : List α} {sources : α → List String} {target : α → String}
    {type : EdgeType} {edge : GraphEdge} :
    edge ∈ xs.flatMap (fun x => (sources x).map (⟨·, target x, type⟩)) ↔
      ∃ x ∈ xs, edge.source ∈ sources x ∧ edge.target = target x ∧ edge.type = type := by
  simp only [List.mem_flatMap, List.mem_map]
  constructor
  · rintro ⟨x, hx, source, hsource, rfl⟩
    exact ⟨x, hx, hsource, rfl, rfl⟩
  · rintro ⟨x, hx, hsource, htarget, htype⟩
    exact ⟨x, hx, edge.source, hsource, by rw [← htarget, ← htype]⟩

theorem nameable_subset_entries : m.nameable ⊆ m.entries := by
  intro e he
  simp only [nameable, entries, List.mem_append, List.mem_map, List.mem_filter] at he ⊢
  grind

/-- A function waits for entries that its environment names, and for what feeds it. -/
theorem ends_of_mem_functionEdges {f : ComputeFunction} {edge : GraphEdge}
    (h : edge ∈ m.functionEdges f) :
    (edge.source ∈ m.ids ∨ edge.source ∈ f.eventSources) ∧ edge.target = f.id := by
  simp only [functionEdges, List.mem_append, List.mem_flatMap, List.mem_map, List.mem_filter] at h
  rcases h with ⟨_, _, e, ⟨he, _⟩, rfl⟩ | ⟨source, hsource, rfl⟩
  · exact ⟨.inl (List.mem_map_of_mem (nameable_subset_entries he)), rfl⟩
  · exact ⟨.inr hsource, rfl⟩

theorem mem_graphEdges_iff {edge : GraphEdge} : edge ∈ m.graphEdges ↔
    (∃ f ∈ m.functions, edge ∈ m.functionEdges f) ∨
    (∃ a ∈ m.apis, edge.source ∈ a.routes.filterMap (·.target) ∧ edge.target = a.id ∧
      edge.type = .triggers) ∨
    (∃ b ∈ m.buses, edge.source ∈ b.rules.flatMap (·.targets) ∧ edge.target = b.id ∧
      edge.type = .triggers) ∨
    (∃ t ∈ m.topics, edge.source ∈ t.subscriptions.filterMap (·.target) ∧ edge.target = t.id ∧
      edge.type = .triggers) ∨
    (∃ q ∈ m.queues, edge.source ∈ q.deadLetterTarget.toList ∧ edge.target = q.id ∧
      edge.type = .dataDependency) ∨
    (∃ s ∈ m.stateMachines, edge.source ∈ s.invokes ∧ edge.target = s.id ∧
      edge.type = .invokes) ∨
    (∃ e ∈ m.entries, edge.source ∈ e.dependsOn ∧ edge.target = e.id ∧
      edge.type = .dependsOn) := by
  have hfunctions : edge ∈ m.functions.flatMap m.functionEdges ↔
      ∃ f ∈ m.functions, edge ∈ m.functionEdges f := List.mem_flatMap
  have hdeclared : m.entries.flatMap declaredEdges =
      m.entries.flatMap fun e => e.dependsOn.map (⟨·, e.id, .dependsOn⟩) := rfl
  simp only [graphEdges, List.mem_append, hfunctions, hdeclared, mem_edges_into, or_assoc]

theorem exists_edge_of_mem_links (h : id ∈ m.links) :
    ∃ edge ∈ m.graphEdges, edge.source = id := by
  simp only [mem_graphEdges_iff]
  rcases mem_links_iff.1 h with ⟨e, he, hid⟩ | ⟨f, hf, hid⟩ | ⟨a, ha, hid⟩ | ⟨b, hb, hid⟩ |
    ⟨s, hs, hid⟩ | ⟨q, hq, hid⟩ | ⟨t, ht, hid⟩
  · exact ⟨⟨id, e.id, .dependsOn⟩, by grind, rfl⟩
  · refine ⟨⟨id, f.id, .triggers⟩, .inl ⟨f, hf, ?_⟩, rfl⟩
    exact List.mem_append_right _ (List.mem_map_of_mem hid)
  · exact ⟨⟨id, a.id, .triggers⟩, by grind, rfl⟩
  · exact ⟨⟨id, b.id, .triggers⟩, by grind, rfl⟩
  · exact ⟨⟨id, s.id, .invokes⟩, by grind, rfl⟩
  · exact ⟨⟨id, q.id, .dataDependency⟩, by grind, rfl⟩
  · exact ⟨⟨id, t.id, .triggers⟩, by grind, rfl⟩

theorem ends_of_mem_graphEdges {edge : GraphEdge} (h : edge ∈ m.graphEdges) :
    (edge.source ∈ m.ids ∨ edge.source ∈ m.links) ∧ edge.target ∈ m.ids := by
  rw [mem_links_iff]
  rcases mem_graphEdges_iff.1 h with ⟨f, hf, hedge⟩ | ⟨a, ha, hsource, htarget, -⟩ |
    ⟨b, hb, hsource, htarget, -⟩ | ⟨t, ht, hsource, htarget, -⟩ | ⟨q, hq, hsource, htarget, -⟩ |
    ⟨s, hs, hsource, htarget, -⟩ | ⟨e, he, hsource, htarget, -⟩
  · obtain ⟨hsource, htarget⟩ := ends_of_mem_functionEdges hedge
    exact ⟨by grind, mem_ids_iff.2 (by grind)⟩
  · exact ⟨.inr (by grind), mem_ids_iff.2 (by grind)⟩
  · exact ⟨.inr (by grind), mem_ids_iff.2 (by grind)⟩
  · exact ⟨.inr (by grind), mem_ids_iff.2 (by grind)⟩
  · exact ⟨.inr (by grind), mem_ids_iff.2 (by grind)⟩
  · exact ⟨.inr (by grind), mem_ids_iff.2 (by grind)⟩
  · exact ⟨.inr (by grind), htarget ▸ List.mem_map_of_mem he⟩

theorem graph_ok_iff : (∃ g, m.graph.run.value = .ok g) ↔ ∀ id ∈ m.links, id ∈ m.ids := by
  rw [graph, Graph.build_ok_iff, ids_graphNodes]
  constructor
  · intro hedges id hid
    obtain ⟨edge, hedge, rfl⟩ := exists_edge_of_mem_links hid
    exact (hedges edge hedge).1
  · intro hlinks edge hedge
    obtain ⟨hsource, htarget⟩ := ends_of_mem_graphEdges hedge
    exact ⟨hsource.elim (fun h => h) (hlinks _), htarget⟩

/-! ### Larger models -/

section Forall₂

variable {α β : Type} {R : α → α → Prop} {xs ys : List α}

theorem exists_of_forall₂ {y : α} (h : List.Forall₂ R xs ys) (hy : y ∈ ys) : ∃ x ∈ xs, R x y := by
  induction h with
  | nil => simp at hy
  | cons hxy _ ih =>
    rcases List.mem_cons.1 hy with rfl | hy
    · exact ⟨_, List.mem_cons_self, hxy⟩
    · obtain ⟨x, hx, hR⟩ := ih hy
      exact ⟨x, List.mem_cons_of_mem _ hx, hR⟩

theorem map_eq_of_forall₂ {g : α → β} (hg : ∀ x y, R x y → g y = g x) (h : List.Forall₂ R xs ys) :
    ys.map g = xs.map g := by
  induction h with
  | nil => rfl
  | cons hxy _ ih => rw [List.map_cons, List.map_cons, hg _ _ hxy, ih]

end Forall₂

variable {m₁ m₂ m₃ : Model} {P : String → Prop}

theorem mem_ids_merge {other : Model} : id ∈ (m.merge other).ids ↔ id ∈ m.ids ∨ id ∈ other.ids := by
  simp only [ids, entries, merge, List.map_append, List.mem_append]
  grind

theorem mem_links_merge {other : Model} :
    id ∈ (m.merge other).links ↔ id ∈ m.links ∨ id ∈ other.links := by
  simp only [links, entries, merge, List.map_append, List.flatMap_append, List.mem_append]
  grind

/-- A model with at least the entries of another one, which links to nothing more than what the
other one links to and what `P` allows. -/
structure Extends (P : String → Prop) (m m' : Model) : Prop where
  ids : ∀ {id}, id ∈ m.ids → id ∈ m'.ids
  links : ∀ {id}, id ∈ m'.links → id ∈ m.links ∨ P id

namespace Extends

theorem refl (m : Model) : Extends P m m := ⟨fun h => h, .inl⟩

theorem trans (h : Extends P m₁ m₂) (h' : Extends P m₂ m₃) : Extends P m₁ m₃ where
  ids := fun hid => h'.ids (h.ids hid)
  links := fun hid => (h'.links hid).elim h.links .inr

theorem mono {Q : String → Prop} (h : Extends P m₁ m₂) (hPQ : ∀ id, P id → Q id) :
    Extends Q m₁ m₂ where
  ids := h.ids
  links := fun hid => (h.links hid).imp_right (hPQ _)

theorem foldl {α : Type} {f : Model → α → Model} {xs : List α}
    (hf : ∀ m, ∀ x ∈ xs, Extends P m (f m x)) (m : Model) : Extends P m (xs.foldl f m) := by
  refine List.foldlRecOn xs f (.refl m) fun m' h x hx => ?_
  exact h.trans (hf m' x hx)

theorem merge {other : Model} (h : ∀ id ∈ other.links, P id) : Extends P m (m.merge other) where
  ids := fun hid => mem_ids_merge.2 (.inl hid)
  links := fun hid => (mem_links_merge.1 hid).imp_right (h _)

/-! Entries of one kind may change in what belongs to them. -/

theorem functions {functions : List ComputeFunction}
    (h : List.Forall₂ (fun f f' => f'.toEntry = f.toEntry ∧
      ∀ id ∈ f'.eventSources, id ∈ f.eventSources ∨ P id) m.functions functions) :
    Extends P m { m with functions } := by
  have hsame : { m with functions }.entries = m.entries := by
    simp only [entries, map_eq_of_forall₂ (fun _ _ h => h.1) h]
  refine ⟨fun hid => by rwa [Model.ids, hsame], fun {id} hid => ?_⟩
  rw [mem_links_iff, hsame] at hid
  rw [mem_links_iff]
  rcases hid with hid | ⟨f', hf', hid⟩ | hid
  · exact .inl (.inl hid)
  · obtain ⟨f, hf, -, hlinks⟩ := exists_of_forall₂ h hf'
    exact (hlinks id hid).imp_left fun hid => .inr (.inl ⟨f, hf, hid⟩)
  · exact .inl (.inr (.inr hid))

theorem buses {buses : List Bus}
    (h : List.Forall₂ (fun b b' => b'.toEntry = b.toEntry ∧
      ∀ rule ∈ b'.rules, rule ∈ b.rules ∨ ∀ id ∈ rule.targets, P id) m.buses buses) :
    Extends P m { m with buses } := by
  have hsame : { m with buses }.entries = m.entries := by
    simp only [entries, map_eq_of_forall₂ (fun _ _ h => h.1) h]
  refine ⟨fun hid => by rwa [Model.ids, hsame], fun {id} hid => ?_⟩
  rw [mem_links_iff, hsame] at hid
  rw [mem_links_iff]
  rcases hid with hid | hid | hid | ⟨b', hb', hid⟩ | hid
  · exact .inl (.inl hid)
  · exact .inl (.inr (.inl hid))
  · exact .inl (.inr (.inr (.inl hid)))
  · obtain ⟨rule, hrule, hid⟩ := List.mem_flatMap.1 hid
    obtain ⟨b, hb, -, hlinks⟩ := exists_of_forall₂ h hb'
    rcases hlinks rule hrule with hrule | hrule
    · exact .inl (.inr (.inr (.inr (.inl ⟨b, hb, List.mem_flatMap.2 ⟨rule, hrule, hid⟩⟩))))
    · exact .inr (hrule id hid)
  · exact .inl (.inr (.inr (.inr (.inr hid))))

theorem topics {topics : List Topic}
    (h : List.Forall₂ (fun t t' => t'.toEntry = t.toEntry ∧
      ∀ s ∈ t'.subscriptions, s ∈ t.subscriptions ∨ ∀ id ∈ s.target, P id) m.topics topics) :
    Extends P m { m with topics } := by
  have hsame : { m with topics }.entries = m.entries := by
    simp only [entries, map_eq_of_forall₂ (fun _ _ h => h.1) h]
  refine ⟨fun hid => by rwa [Model.ids, hsame], fun {id} hid => ?_⟩
  rw [mem_links_iff, hsame] at hid
  rw [mem_links_iff]
  rcases hid with hid | hid | hid | hid | hid | hid | ⟨t', ht', hid⟩
  · exact .inl (.inl hid)
  · exact .inl (.inr (.inl hid))
  · exact .inl (.inr (.inr (.inl hid)))
  · exact .inl (.inr (.inr (.inr (.inl hid))))
  · exact .inl (.inr (.inr (.inr (.inr (.inl hid)))))
  · exact .inl (.inr (.inr (.inr (.inr (.inr (.inl hid))))))
  · obtain ⟨s, hs, hid⟩ := List.mem_filterMap.1 hid
    obtain ⟨t, ht, -, hlinks⟩ := exists_of_forall₂ h ht'
    rcases hlinks s hs with hs | hs
    · refine .inl (.inr (.inr (.inr (.inr (.inr (.inr ⟨t, ht, ?_⟩))))))
      exact List.mem_filterMap.2 ⟨s, hs, hid⟩
    · exact .inr (hs id hid)

end Extends

end Model

end LocalCloud
