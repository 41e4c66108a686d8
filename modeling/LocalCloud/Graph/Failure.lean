import LocalCloud.Startup.Failure

/-!
# Why a graph cannot be built or ordered
-/

namespace LocalCloud

/-- What is wrong with a graph. -/
inductive GraphFailure where
  /-- An edge ends at a node that the graph does not have. -/
  | danglingEdge (source target : String)
  /-- The graph has cycles. -/
  | cycle (cycles : List (List String))
  /-- The nodes that a cycle keeps from being ordered. -/
  | unordered (nodes : List String)
  deriving DecidableEq

def GraphFailure.message : GraphFailure → String
  | .danglingEdge source target =>
    "edge " ++ source ++ " -> " ++ target ++ " references an unknown node"
  | .cycle cycles => "dependency cycle detected: " ++ describeCycles cycles
  | .unordered nodes => "cannot order nodes blocked by a cycle: " ++ Text.join ", " nodes

end LocalCloud
