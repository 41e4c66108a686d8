import LocalCloud.Graph.Basic
import LocalCloud.Startup.Provider
import LocalCloud.Text.Cut
import LocalCloud.Text.Quoted

/-!
# Which providers serve which nodes

A registry holds a factory for each kind of node that can be served.  The providers of a graph are
those that the factories make for its nodes, in the order of the nodes.
-/

namespace LocalCloud

/-- What makes the providers of a node: a name and a behaviour for each. -/
abbrev Factory := GraphNode → List (String × Script)

/-- The factories, each kind of node once. -/
structure Registry where
  factories : List (NodeType × Factory) := []

namespace Registry

/-- The registry with a factory for a kind of node instead of any earlier one. -/
def register (r : Registry) (type : NodeType) (factory : Factory) : Registry :=
  { factories := (type, factory) :: r.factories.filter (·.1 != type) }

/-- The factory for a kind of node. -/
def factory? (r : Registry) (type : NodeType) : Option Factory := r.factories.lookup type

/-- Whether there is a factory for a kind of node. -/
def has (r : Registry) (type : NodeType) : Bool := (r.factory? type).isSome

/-- The providers of a node. -/
def serve (r : Registry) (node : GraphNode) : Noted (List Provider) :=
  match r.factory? node.type with
  | none => Noted.instead [] (.noProvider node.type.text node.id)
  | some factory => pure ((factory node).map fun (name, script) => ⟨name, node.id, script⟩)

/-- The providers of all nodes of a graph, in the order of the nodes. -/
def instantiate (r : Registry) (g : Graph) : Noted (List Provider) :=
  List.flatten <$> g.nodes.mapM r.serve

/-- The kinds of nodes that have a factory, in their order, each with a capital letter. -/
def text (r : Registry) : String :=
  let kinds := (NodeType.all.filter r.has).map fun type => type.text.capitalize
  "ProviderRegistry \x7b node_types: [" ++ Text.join ", " kinds ++ "] \x7d"

end Registry

/-- A provider with the node it serves. -/
def Provider.text (p : Provider) : String :=
  "ManagedProvider \x7b node_id: " ++ Text.quote p.node ++ ", name: " ++ Text.quote p.name ++
    " \x7d"

end LocalCloud
