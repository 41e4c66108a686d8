import LocalCloud.Graph.Cycles
import LocalCloud.Graph.Order
import LocalCloud.Model.Graph
import LocalCloud.Startup.Orchestrator
import LocalCloud.Startup.Registry

/-!
# Topologies

A topology is all that is needed to start an application: its model, the graph of the model and an
order of the graph.  A model with a cycle has none.
-/

namespace LocalCloud

/-- A model with its graph and an order of the graph, dependencies first. -/
structure Topology where
  model : Model
  graph : Graph
  order : List String

namespace Topology

/-- The topology of a model. -/
def ofModel (model : Model) : Attempt GraphFailure Topology := do
  let graph ← model.graph
  match graph.cycles with
  | cycle :: more => throw (.cycle (cycle :: more))
  | [] =>
    let order ← ExceptT.mk (pure graph.order)
    pure { model, graph, order }

/-- The waves of the whole order. -/
def waves (t : Topology) (mode : StartupMode) : Except StartFailure (List (List String)) :=
  planWaves t.order t.graph.dependencies mode

/-- Starts the providers that a registry has for a topology.  A node without a provider is left
out of the order, so that nobody waits for it. -/
def launch {σ : Type} (t : Topology) (registry : Registry) (w : World σ) (o : Orchestrator)
    (s : σ) : Noted (Orchestrator.Passage σ StartFailure) := do
  let providers ← registry.instantiate t.graph
  let order := t.order.filter fun id => providers.any (·.node == id)
  o.start w s t.graph providers order

end Topology

end LocalCloud
