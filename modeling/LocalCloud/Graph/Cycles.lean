import LocalCloud.Graph.Basic
import LocalCloud.Unseen

/-!
# Finding cycles

A depth-first search from every node in ascending order, with the neighbours of a node in
ascending order too.  Each edge that leads back to the path of the search closes a cycle, which
is reported from the node it leads back to around to that node.

The search is recursive, with the path as an argument.  Round by round, with the path on a stack and a
mark for each node, it finds the same (`Graph.sweep_cycles`).
-/

namespace LocalCloud.Graph

/-- What a search knows so far. -/
structure Search where
  /-- The nodes that have been searched to the end. -/
  done : List String := []
  /-- The cycles, in the order in which they were closed. -/
  cycles : List (List String) := []

/-- The cycle that an edge from the head of the path back to `node` closes. -/
def closeCycle (path : List String) (node : String) : List String :=
  (path.takeWhile (· != node) ++ [node]).reverse ++ [node]

/-- The search from `node`, the path to which is `path`, itself first.  A node is searched to the
end once all its neighbours have been looked at. -/
def visit (g : Graph) (path : List String) (node : String) (s : Search) : Search :=
  let s := (g.dependents node).foldl (fun s next =>
    if _ : next ∈ path then { s with cycles := s.cycles ++ [closeCycle path next] }
    else if next ∈ s.done then s
    else if _ : next ∈ g.ids then visit g (next :: path) next s
    else s) s
  { s with done := node :: s.done }
termination_by unseen g.ids path
decreasing_by exact unseen_cons_lt ‹_› ‹_›

/-- The cycles that the search closes. -/
def cycles (g : Graph) : List (List String) :=
  (g.ids.foldl (fun s id => if id ∈ s.done then s else visit g [id] id s) {}).cycles

end LocalCloud.Graph
