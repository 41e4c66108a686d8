import LocalCloud.Ascending
import LocalCloud.Warning

/-!
# Dependency graphs

An edge runs from a dependency to the node that waits for it.  `Graph.build` is the only way to
make a graph: the nodes come out in ascending order of their ids, the edges without repetition
and all of them between nodes.
-/

namespace LocalCloud

/-- The kind of service that a node stands for. -/
inductive NodeType where
  | table
  | function
  | apiGateway
  | eventBus
  | stateMachine
  | queue
  | topic
  deriving DecidableEq, Inhabited

namespace NodeType

/-- All kinds, in their order. -/
def all : List NodeType := [table, function, apiGateway, eventBus, stateMachine, queue, topic]

/-- The word for a kind. -/
def text : NodeType → String
  | table => "table"
  | function => "function"
  | apiGateway => "apiGateway"
  | eventBus => "eventBus"
  | stateMachine => "stateMachine"
  | queue => "queue"
  | topic => "topic"

/-- The kind for a word. -/
def ofText? (s : String) : Option NodeType := all.find? (·.text == s)

end NodeType

/-- Why one node waits for another. -/
inductive EdgeType where
  | triggers
  | dataDependency
  | invokes
  | dependsOn
  deriving DecidableEq, Inhabited

namespace EdgeType

/-- The word for a reason. -/
def text : EdgeType → String
  | triggers => "triggers"
  | dataDependency => "dataDependency"
  | invokes => "invokes"
  | dependsOn => "dependsOn"

/-- The reason for a word. -/
def ofText? (s : String) : Option EdgeType :=
  [triggers, dataDependency, invokes, dependsOn].find? (·.text == s)

end EdgeType

/-- A node with what its provider has to know. -/
structure GraphNode where
  id : String
  type : NodeType
  config : Json
  deriving Inhabited

/-- `target` starts after `source`. -/
structure GraphEdge where
  source : String
  target : String
  type : EdgeType
  deriving DecidableEq, Inhabited

/-- A dependency graph. -/
structure Graph where
  /-- The nodes, in ascending order of their ids. -/
  nodes : List GraphNode := []
  /-- The edges, in the order in which they were first given. -/
  edges : List GraphEdge := []
  deriving Inhabited

namespace Graph

/-- Puts a node at its place among nodes in ascending order. -/
def insertNode (node : GraphNode) : List GraphNode → List GraphNode
  | [] => [node]
  | head :: rest => if node.id < head.id then node :: head :: rest else head :: insertNode node rest

/-- The nodes in ascending order; of two nodes with one id the first is kept. -/
def collectNodes (nodes : List GraphNode) : Noted (List GraphNode) :=
  nodes.foldlM (fun known node =>
    if known.any (·.id == node.id) then
      Noted.instead known (.duplicateNode node.id)
    else pure (insertNode node known)) []

/-- Whether both ends of an edge are among the nodes. -/
def joins (nodes : List GraphNode) (edge : GraphEdge) : Bool :=
  nodes.any (·.id == edge.source) && nodes.any (·.id == edge.target)

/-- The graph of the given nodes and edges, unless an edge ends outside. -/
def build (nodes : List GraphNode) (edges : List GraphEdge) : Attempt GraphFailure Graph := do
  let nodes ← ExceptT.lift (collectNodes nodes)
  match edges.find? fun edge => !joins nodes edge with
  | some edge => throw (.danglingEdge edge.source edge.target)
  | none => pure { nodes, edges := edges.eraseDups }

variable (g : Graph)

/-- The ids of the nodes, ascending. -/
def ids : List String := g.nodes.map (·.id)

/-- The node with an id. -/
def node? (id : String) : Option GraphNode := g.nodes.find? (·.id == id)

/-- How many nodes there are. -/
def size : Nat := g.nodes.length

/-- The ids that a node waits for, ascending. -/
def dependencies (id : String) : List String :=
  Ascending.ofList ((g.edges.filter (·.target == id)).map (·.source))

/-- The ids that wait for a node, ascending. -/
def dependents (id : String) : List String :=
  Ascending.ofList ((g.edges.filter (·.source == id)).map (·.target))

end Graph

end LocalCloud
