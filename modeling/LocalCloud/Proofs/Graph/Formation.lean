import LocalCloud.Graph.Basic
import Mathlib.Data.List.Nodup
import Mathlib.Data.String.Basic
import Mathlib.Logic.Relation

/-!
# Graphs that are built

A graph comes about exactly when all its edges join nodes (`build_ok_iff`).  It has its nodes in
ascending order, each id once, and its edges lead from nodes to nodes (`formed_of_build`).
-/

namespace LocalCloud

/-- What is left of a list without its repetitions holds nothing twice. -/
theorem nodup_eraseDups {α : Type} [DecidableEq α] (xs : List α) : xs.eraseDups.Nodup := by
  cases xs with
  | nil => exact List.nodup_nil
  | cons x rest =>
    rw [List.eraseDups_cons, List.nodup_cons]
    refine ⟨?_, nodup_eraseDups _⟩
    simp [List.mem_eraseDups]
termination_by xs.length
decreasing_by exact Nat.lt_succ_of_le (List.length_filter_le _ rest)

namespace Graph

variable {nodes known : List GraphNode} {edges : List GraphEdge} {id : String}

theorem mem_ids_insertNode {node : GraphNode} :
    id ∈ (insertNode node nodes).map (·.id) ↔ id ∈ nodes.map (·.id) ∨ id = node.id := by
  fun_induction insertNode node nodes with
  | case1 => simp
  | case2 head rest _ => rw [List.map_cons, List.mem_cons, or_comm]
  | case3 head rest _ ih => rw [List.map_cons, List.mem_cons, ih, List.map_cons, List.mem_cons,
      or_assoc]

theorem mem_ids_foldl {f : List GraphNode → GraphNode → List GraphNode}
    (hf : ∀ known node, id ∈ (f known node).map (·.id) ↔ id ∈ known.map (·.id) ∨ id = node.id) :
    id ∈ (nodes.foldl f known).map (·.id) ↔
      id ∈ known.map (·.id) ∨ id ∈ nodes.map (·.id) := by
  induction nodes generalizing known with
  | nil => simp
  | cons node rest ih => rw [List.foldl_cons, ih, hf, List.map_cons, List.mem_cons, or_assoc]

/-- Collecting nodes loses none of their ids and makes up none. -/
theorem mem_ids_collectNodes :
    id ∈ (collectNodes nodes).value.map (·.id) ↔ id ∈ nodes.map (·.id) := by
  rw [collectNodes, Noted.value_foldlM, mem_ids_foldl]
  · simp
  · intro known node
    split
    · next hknown =>
      obtain ⟨same, hsame, hid⟩ := List.any_eq_true.1 hknown
      have hnode : node.id ∈ known.map (·.id) := List.mem_map.2 ⟨same, hsame, by simpa using hid⟩
      exact ⟨.inl, fun h => h.elim (fun h => h) fun h => h ▸ hnode⟩
    · exact mem_ids_insertNode

theorem joins_iff {edge : GraphEdge} : joins nodes edge ↔
    edge.source ∈ nodes.map (·.id) ∧ edge.target ∈ nodes.map (·.id) := by
  simp [joins]

theorem build_of_find?_none
    (h : edges.find? (fun edge => !joins (collectNodes nodes).value edge) = none) :
    (build nodes edges).run.value =
      .ok { nodes := (collectNodes nodes).value, edges := edges.eraseDups } := by
  simp only [build, ExceptT.run_bind, ExceptT.run_lift, bind_map_left, Noted.value_bind, h]
  rfl

theorem build_of_find?_some {edge : GraphEdge}
    (h : edges.find? (fun edge => !joins (collectNodes nodes).value edge) = some edge) :
    (build nodes edges).run.value = .error (.danglingEdge edge.source edge.target) := by
  simp only [build, ExceptT.run_bind, ExceptT.run_lift, bind_map_left, Noted.value_bind, h]
  rfl

/-- A graph comes about exactly when both ends of every edge are ids of nodes. -/
theorem build_ok_iff : (∃ g, (build nodes edges).run.value = .ok g) ↔
    ∀ edge ∈ edges, edge.source ∈ nodes.map (·.id) ∧ edge.target ∈ nodes.map (·.id) := by
  simp only [← @mem_ids_collectNodes nodes, ← joins_iff]
  cases hfind : edges.find? fun edge => !joins (collectNodes nodes).value edge with
  | none =>
    rw [build_of_find?_none hfind]
    simpa using hfind
  | some edge =>
    rw [build_of_find?_some hfind]
    have hdangling : ¬ joins (collectNodes nodes).value edge := by
      simpa using List.find?_some hfind
    exact ⟨by simp, fun h => absurd (h edge (List.mem_of_find?_eq_some hfind)) hdangling⟩

/-! ## What is built -/

theorem eq_of_build {g : Graph} (h : (build nodes edges).run.value = .ok g) :
    g = { nodes := (collectNodes nodes).value, edges := edges.eraseDups } := by
  cases hfind : edges.find? fun edge => !joins (collectNodes nodes).value edge with
  | none =>
    rw [build_of_find?_none hfind] at h
    exact (Except.ok.inj h).symm
  | some edge =>
    rw [build_of_find?_some hfind] at h
    contradiction

/-- A graph has just the edges it was built from, each once. -/
theorem edges_of_build {g : Graph} (h : (build nodes edges).run.value = .ok g) :
    g.edges = edges.eraseDups := by
  rw [eq_of_build h]

/-- A graph has the ids of the nodes it was built from. -/
theorem mem_ids_of_build {g : Graph} (h : (build nodes edges).run.value = .ok g) :
    id ∈ g.ids ↔ id ∈ nodes.map (·.id) := by
  rw [eq_of_build h]
  exact mem_ids_collectNodes

/-- There is an edge from one node to another, of whatever type. -/
def Leads (g : Graph) (a b : String) : Prop :=
  ∃ edge ∈ g.edges, edge.source = a ∧ edge.target = b

/-- No way along the edges leads from a node back to it. -/
def Acyclic (g : Graph) : Prop := ∀ id, ¬ Relation.TransGen g.Leads id id

/-- What holds of every graph that is built. -/
structure Formed (g : Graph) : Prop where
  ascending : g.ids.Pairwise (· < ·)
  source_mem : ∀ {a b}, g.Leads a b → a ∈ g.ids
  target_mem : ∀ {a b}, g.Leads a b → b ∈ g.ids

theorem pairwise_insertNode {node : GraphNode} (h : (nodes.map (·.id)).Pairwise (· < ·))
    (hnew : node.id ∉ nodes.map (·.id)) :
    ((insertNode node nodes).map (·.id)).Pairwise (· < ·) := by
  fun_induction insertNode node nodes with
  | case1 => exact List.pairwise_singleton _ _
  | case2 head rest hlt =>
    rw [List.map_cons, List.pairwise_cons]
    refine ⟨fun id hid => ?_, h⟩
    rcases List.mem_cons.1 hid with rfl | hid
    · exact hlt
    · exact String.lt_trans hlt ((List.pairwise_cons.1 h).1 id hid)
  | case3 head rest hge ih =>
    obtain ⟨hhead, hrest⟩ := List.pairwise_cons.1 h
    rw [List.map_cons, List.mem_cons, not_or] at hnew
    rw [List.map_cons, List.pairwise_cons]
    refine ⟨fun id hid => ?_, ih hrest hnew.2⟩
    rcases mem_ids_insertNode.1 hid with hid | rfl
    · exact hhead id hid
    · exact lt_of_le_of_ne (String.not_lt.1 hge) (Ne.symm hnew.1)

theorem pairwise_collectNodes (nodes : List GraphNode) :
    ((collectNodes nodes).value.map (·.id)).Pairwise (· < ·) := by
  have hnil : (([] : List GraphNode).map (·.id)).Pairwise (· < ·) := List.Pairwise.nil
  rw [collectNodes, Noted.value_foldlM]
  refine List.foldlRecOn (motive := fun known : List GraphNode =>
    (known.map (·.id)).Pairwise (· < ·)) nodes _ hnil fun known h node _ => ?_
  split
  · exact h
  · next hnew =>
    refine pairwise_insertNode h fun hid => hnew ?_
    obtain ⟨same, hsame, hid⟩ := List.mem_map.1 hid
    exact List.any_eq_true.2 ⟨same, hsame, beq_iff_eq.2 hid⟩

theorem perm_insertNode (node : GraphNode) (nodes : List GraphNode) :
    (insertNode node nodes).Perm (node :: nodes) := by
  fun_induction insertNode node nodes with
  | case1 => exact .refl _
  | case2 => exact .refl _
  | case3 head rest _ ih => exact (ih.cons head).trans (.swap node head rest)

/-- Nodes with different ids are all kept. -/
theorem perm_collectNodes (h : (nodes.map (·.id)).Nodup) :
    (collectNodes nodes).value.Perm nodes := by
  have hall : ∀ known : List GraphNode, ((known ++ nodes).map (·.id)).Nodup →
      (nodes.foldlM (fun (known : List GraphNode) (node : GraphNode) =>
        if known.any (·.id == node.id) then Noted.instead known (.duplicateNode node.id)
        else pure (insertNode node known)) known).value.Perm (known ++ nodes) := by
    clear h
    induction nodes with
    | nil => simp
    | cons node rest ih =>
      intro known hnodup
      have hmoved : (insertNode node known ++ rest).Perm (known ++ node :: rest) :=
        ((perm_insertNode node known).append_right rest).trans List.perm_middle.symm
      have hnew : ¬ known.any (·.id == node.id) := by
        intro hany
        obtain ⟨same, hsame, hid⟩ := List.any_eq_true.1 hany
        rw [List.map_append] at hnodup
        exact (List.nodup_append.1 hnodup).2.2 _ (List.mem_map_of_mem hsame) node.id
          (by simp) (beq_iff_eq.1 hid)
      rw [List.foldlM_cons, Noted.value_bind, if_neg hnew, Noted.value_pure]
      exact (ih _ ((hmoved.map _).nodup_iff.2 hnodup)).trans hmoved
  exact hall [] h

variable {g : Graph} {a b : String}

theorem formed_of_build (h : (build nodes edges).run.value = .ok g) : g.Formed := by
  cases hfind : edges.find? fun edge => !joins (collectNodes nodes).value edge with
  | some edge =>
    rw [build_of_find?_some hfind] at h
    contradiction
  | none =>
    rw [build_of_find?_none hfind] at h
    obtain rfl := Except.ok.inj h
    have hjoins : ∀ edge ∈ edges.eraseDups, joins (collectNodes nodes).value edge := by
      intro edge hedge
      simpa using List.find?_eq_none.1 hfind edge (List.mem_eraseDups.1 hedge)
    exact {
      ascending := pairwise_collectNodes nodes
      source_mem := by
        rintro _ _ ⟨edge, hedge, rfl, -⟩
        exact (joins_iff.1 (hjoins edge hedge)).1
      target_mem := by
        rintro _ _ ⟨edge, hedge, -, rfl⟩
        exact (joins_iff.1 (hjoins edge hedge)).2 }

theorem Formed.nodup (h : g.Formed) : g.ids.Nodup := Ascending.nodup_of_pairwise h.ascending

/-- A node is found by its id. -/
theorem Formed.node?_eq_some (h : g.Formed) {node : GraphNode} (hnode : node ∈ g.nodes) :
    g.node? node.id = some node := by
  obtain ⟨found, hfound⟩ : ∃ found, g.node? node.id = some found := by
    refine Option.isSome_iff_exists.1 (List.find?_isSome.2 ⟨node, hnode, ?_⟩)
    exact beq_self_eq_true _
  have hid : found.id = node.id := by simpa using List.find?_some hfound
  rw [hfound, List.inj_on_of_nodup_map h.nodup (List.mem_of_find?_eq_some hfound) hnode hid]

/-! ## Neighbours -/

theorem mem_dependents_iff : b ∈ g.dependents a ↔ g.Leads a b := by
  simp only [dependents, Leads, Ascending.mem_ofList, List.mem_map, List.mem_filter, beq_iff_eq]
  grind

theorem mem_dependencies_iff : a ∈ g.dependencies b ↔ g.Leads a b := by
  simp only [dependencies, Leads, Ascending.mem_ofList, List.mem_map, List.mem_filter, beq_iff_eq]
  grind

theorem nodup_dependents (g : Graph) (id : String) : (g.dependents id).Nodup :=
  Ascending.nodup_of_pairwise (Ascending.pairwise_ofList _)

end Graph

end LocalCloud
