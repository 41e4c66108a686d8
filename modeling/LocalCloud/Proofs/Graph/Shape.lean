import LocalCloud.Proofs.Graph.Cycles
import LocalCloud.Startup.Waves
import Mathlib.Data.List.Sort

/-!
# Graphs of one shape

Two graphs have one shape when they have the same nodes and their edges lead from the same nodes to
the same nodes, for whatever reasons and however often (`SameShape`).  The neighbours of a node are
kept in ascending order, and ordering and searching look at nothing else, so that graphs of one shape
have the same order, cut into the same waves, and the same cycles (`SameShape.samePlan`).
-/

namespace LocalCloud

/-- The nodes that an edge joins. -/
def GraphEdge.ends (edge : GraphEdge) : String × String := (edge.source, edge.target)

namespace Graph

variable {g h : Graph} {a b : String}

/-- The waves into which the order of a graph is cut. -/
def waves (g : Graph) (mode : StartupMode) :
    Except GraphFailure (Except StartFailure (List (List String))) :=
  g.order.map fun order => planWaves order g.dependencies mode

/-- Two graphs that are started alike, or have the same to be said against it. -/
structure SamePlan (g h : Graph) : Prop where
  order : g.order = h.order
  cycles : g.cycles = h.cycles
  dependencies : ∀ id, g.dependencies id = h.dependencies id
  dependents : ∀ id, g.dependents id = h.dependents id
  waves : ∀ mode, g.waves mode = h.waves mode

/-- Two graphs with the same nodes, every one of which waits for the same nodes. -/
structure SameShape (g h : Graph) : Prop where
  ids : g.ids = h.ids
  dependencies : g.dependencies = h.dependencies
  dependents : g.dependents = h.dependents

/-- The shape of a graph is which nodes it has and which of them its edges join. -/
theorem sameShape_of_leads (hg : g.Formed) (hh : h.Formed)
    (hids : ∀ id, id ∈ g.ids ↔ id ∈ h.ids) (hleads : ∀ a b, g.Leads a b ↔ h.Leads a b) :
    SameShape g h where
  ids := hg.ascending.eq_of_mem_iff hh.ascending hids
  dependencies := by
    funext id
    refine (Ascending.pairwise_ofList _).eq_of_mem_iff (Ascending.pairwise_ofList _) fun x => ?_
    exact mem_dependencies_iff.trans ((hleads x id).trans mem_dependencies_iff.symm)
  dependents := by
    funext id
    refine (Ascending.pairwise_ofList _).eq_of_mem_iff (Ascending.pairwise_ofList _) fun x => ?_
    exact mem_dependents_iff.trans ((hleads id x).trans mem_dependents_iff.symm)

namespace SameShape

/-! ### Ordering -/

theorem size (s : SameShape g h) : g.size = h.size := by
  have hlength := congrArg List.length s.ids
  simpa [Graph.ids, Graph.size] using hlength

theorem initial (s : SameShape g h) : g.initial = h.initial := by
  simp only [Graph.initial, s.ids, s.dependents]

theorem advance (s : SameShape g h) (p : Progress) : g.advance p = h.advance p := by
  simp only [Graph.advance, s.dependents]

theorem finish (s : SameShape g h) (p : Progress) : g.finish p = h.finish p := by
  fun_induction Graph.finish g p with
  | case1 p hready => rw [Graph.finish, dif_pos hready]
  | case2 p hready _ ih =>
    rw [ih, s.advance]
    conv_rhs => rw [Graph.finish, dif_neg hready]

theorem order (s : SameShape g h) : g.order = h.order := by
  simp only [Graph.order, s.initial, s.finish, s.size]

/-! ### Searching for cycles -/

theorem visit (s : SameShape g h) (path : List String) (node : String) (t : Search) :
    g.visit path node t = h.visit path node t := by
  induction path, node, t using Graph.visit.induct g with
  | case1 path node t ih =>
    have hlook : g.look path = h.look path := by
      funext t next
      unfold look
      rw [← s.ids]
      split
      · rfl
      next hpath =>
      split
      · rfl
      split
      · next hid => exact ih t next hpath hid
      · rfl
    rw [visit_eq, visit_eq, hlook, s.dependents]

theorem cycles (s : SameShape g h) : g.cycles = h.cycles := by
  simp only [Graph.cycles, s.ids, s.visit]

/-- Graphs of one shape are started alike. -/
theorem samePlan (s : SameShape g h) : SamePlan g h where
  order := s.order
  cycles := s.cycles
  dependencies := congrFun s.dependencies
  dependents := congrFun s.dependents
  waves := fun mode => by rw [waves, waves, s.order, s.dependencies]

end SameShape

/-! ### Graphs that are built -/

variable {nodes nodes' : List GraphNode} {edges edges' : List GraphEdge}

theorem leads_of_build (hg : (build nodes edges).run.value = .ok g) :
    g.Leads a b ↔ (a, b) ∈ edges.map GraphEdge.ends := by
  simp only [Leads, edges_of_build hg, List.mem_eraseDups, List.mem_map, GraphEdge.ends,
    Prod.mk.injEq]

/-- Neither the order in which nodes and edges are given makes a difference to the shape, nor how
often they are given, nor their types. -/
theorem sameShape_of_build (hg : (build nodes edges).run.value = .ok g)
    (hh : (build nodes' edges').run.value = .ok h)
    (hnodes : ∀ id, id ∈ nodes.map (·.id) ↔ id ∈ nodes'.map (·.id))
    (hedges : ∀ ends, ends ∈ edges.map GraphEdge.ends ↔ ends ∈ edges'.map GraphEdge.ends) :
    SameShape g h := by
  refine sameShape_of_leads (formed_of_build hg) (formed_of_build hh) (fun id => ?_) fun a b => ?_
  · rw [mem_ids_of_build hg, mem_ids_of_build hh, hnodes]
  · rw [leads_of_build hg, leads_of_build hh, hedges]

end Graph

end LocalCloud
