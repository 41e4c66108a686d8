import LocalCloud.Graph.Basic
import LocalCloud.Model.ToJson

/-!
# The graph of a model

Each entry is a node.  Edges come from the links of the model and from the environment of
functions: a function waits for a resource that one of its variables names.
-/

namespace LocalCloud

/-- Whether a text names a resource: it is the name, an attribute of it (`name.Arn`), or an
identifier that ends in the name behind `/` or `:`. -/
def namesResource (text name : String) : Bool :=
  !name.isEmpty &&
    (text == name ||
      Text.startsWith (name ++ ".") text ||
      Text.endsWith ("/" ++ name) text || Text.endsWith (":" ++ name) text)

namespace Model

variable (m : Model)

/-- The nodes of the entries, kind by kind. -/
def graphNodes : List GraphNode :=
  m.tables.map (fun x => ⟨x.id, .table, x.toJson⟩) ++
    m.functions.map (fun x => ⟨x.id, .function, x.toJson⟩) ++
    m.apis.map (fun x => ⟨x.id, .apiGateway, x.toJson⟩) ++
    m.buses.map (fun x => ⟨x.id, .eventBus, x.toJson⟩) ++
    m.stateMachines.map (fun x => ⟨x.id, .stateMachine, x.toJson⟩) ++
    m.queues.map (fun x => ⟨x.id, .queue, x.toJson⟩) ++
    m.topics.map (fun x => ⟨x.id, .topic, x.toJson⟩)

/-- The entries that a function can name in its environment.  The bus that every account has is
none of them. -/
def nameable : List Entry :=
  m.tables.map (·.toEntry) ++ m.queues.map (·.toEntry) ++ m.topics.map (·.toEntry) ++
    (m.buses.filter (·.id != defaultBus)).map (·.toEntry) ++ m.stateMachines.map (·.toEntry)

/-- The edges into a function. -/
def functionEdges (f : ComputeFunction) : List GraphEdge :=
  f.environment.flatMap (fun (_, value) =>
    (m.nameable.filter fun e => namesResource value e.name).map fun e =>
      ⟨e.id, f.id, .dataDependency⟩) ++
    f.eventSources.map fun source => ⟨source, f.id, .triggers⟩

/-- The edges from the declared dependencies of an entry. -/
def declaredEdges (e : Entry) : List GraphEdge :=
  e.dependsOn.map fun needed => ⟨needed, e.id, .dependsOn⟩

/-- All edges of a model, with repetitions. -/
def graphEdges : List GraphEdge :=
  m.functions.flatMap m.functionEdges ++
    m.apis.flatMap (fun a => (a.routes.filterMap (·.target)).map (⟨·, a.id, .triggers⟩)) ++
    m.buses.flatMap (fun b => (b.rules.flatMap (·.targets)).map (⟨·, b.id, .triggers⟩)) ++
    m.topics.flatMap (fun t =>
      (t.subscriptions.filterMap (·.target)).map (⟨·, t.id, .triggers⟩)) ++
    m.queues.flatMap (fun q => q.deadLetterTarget.toList.map (⟨·, q.id, .dataDependency⟩)) ++
    m.stateMachines.flatMap (fun s => s.invokes.map (⟨·, s.id, .invokes⟩)) ++
    m.entries.flatMap declaredEdges

/-- The dependency graph of a model. -/
def graph : Attempt GraphFailure Graph := Graph.build m.graphNodes m.graphEdges

end Model

end LocalCloud
