import LocalCloud.Digest.Bundle
import LocalCloud.Json.Printer
import LocalCloud.Model.ToJson
import LocalCloud.Topology

/-!
# What an application consists of, as text and as JSON

The entries of the model, the edges of its graph, and the assets with the digests of their
bundles.  A bundle that cannot be read has no digest.
-/

namespace LocalCloud

/-- An asset with the digest of its bundle. -/
structure AssetReport where
  hash : String
  path : Path
  digest : Option String

/-- The assets of a topology with their digests. -/
def Topology.assetReports (t : Topology) (disk : Disk) : Noted (List AssetReport) :=
  t.model.assets.mapM fun (hash, path) =>
    match disk.digest path with
    | .ok digest => pure ⟨hash, path, some digest⟩
    | .error failure => Noted.instead ⟨hash, path, none⟩ (.digestFailed failure)

namespace Model

/-- Where the code of a function is, in words. -/
def Code.text : Code → String
  | .asset hash none => "asset " ++ hash
  | .asset hash (some path) => "asset " ++ hash ++ " at " ++ path.text
  | .inline _ => "inline"
  | .unknown => "unknown code"

def Table.text (t : Table) : String := "  table      " ++ t.id ++ " (" ++ t.name ++ ")\n"

def ComputeFunction.text (f : ComputeFunction) : String :=
  "  function   " ++ f.id ++ " (" ++ f.name ++ ", " ++ f.runtime.getD "?" ++ ", " ++
    f.code.text ++ ")\n"

def Route.text (r : Route) : String :=
  "               " ++ r.method ++ " " ++ r.path ++ " -> " ++ r.target.getD "-" ++ "\n"

def Api.text (a : Api) : String :=
  "  api        " ++ a.id ++ " (" ++ toString a.routes.length ++ " routes)\n" ++
    String.join (a.routes.map Route.text)

def Bus.text (b : Bus) : String :=
  "  bus        " ++ b.id ++ " (" ++ toString b.rules.length ++ " rules)\n"

def StateMachine.text (s : StateMachine) : String :=
  "  statemachine " ++ s.id ++ " (" ++ s.name ++ ")\n"

def Queue.text (q : Queue) : String := "  queue      " ++ q.id ++ " (" ++ q.name ++ ")\n"

def Topic.text (t : Topic) : String :=
  "  topic      " ++ t.id ++ " (" ++ toString t.subscriptions.length ++ " subscriptions)\n"

/-- The lines of all entries, kind by kind. -/
def text (m : Model) : String :=
  "Resources: " ++ toString m.resourceCount ++ "\n" ++
    String.join
      (m.tables.map Table.text ++ m.functions.map ComputeFunction.text ++ m.apis.map Api.text ++
        m.buses.map Bus.text ++ m.stateMachines.map StateMachine.text ++
        m.queues.map Queue.text ++ m.topics.map Topic.text)

end Model

/-- The line of an edge. -/
def GraphEdge.text (e : GraphEdge) : String :=
  "  " ++ e.source ++ " -> " ++ e.target ++ " [" ++ e.type.text ++ "]\n"

/-- The line of an asset. -/
def AssetReport.text (a : AssetReport) : String :=
  "  " ++ a.hash ++ " " ++ a.digest.getD "(missing)" ++ " " ++ a.path.text ++ "\n"

namespace Topology

/-- A topology in words. -/
def inspectionText (t : Topology) (assets : List AssetReport) : String :=
  let edges := t.graph.edges
  t.model.text ++ "\nEdges: " ++ toString edges.length ++ "\n" ++
    String.join (edges.map GraphEdge.text) ++
    if assets.isEmpty then ""
    else
      "\nAssets: " ++ toString assets.length ++ "\n" ++ String.join (assets.map AssetReport.text)

/-- A topology as JSON. -/
def inspectionJson (t : Topology) (assets : List AssetReport) : Json :=
  .object
    [("model", t.model.toJson),
     ("nodes", .array (t.graph.nodes.map fun n =>
       .object
         [("id", .string n.id), ("node_type", .string n.type.text), ("config", n.config)])),
     ("edges", .array (t.graph.edges.map fun e =>
       .object
         [("from", .string e.source), ("to", .string e.target),
          ("edge_type", .string e.type.text)])),
     ("order", Json.ofStrings t.order),
     ("assets", .array (assets.map fun a =>
       .object
         [("hash", .string a.hash), ("path", .string a.path.text),
          ("digest", Json.ofString? a.digest)]))]

end Topology

end LocalCloud
