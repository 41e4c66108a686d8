import LocalCloud.Model.Basic

/-!
# The model as JSON

The form in which an entry is handed to its provider and in which a model is shown.  Fields stand
in a fixed order: what identifies the entry, what is particular to its kind, and at the end its
place in the construct tree and its declared dependencies.
-/

namespace LocalCloud

namespace Json

/-- A natural number, or `null` for none. -/
def ofNat? : Option Nat → Json
  | some n => ofNat n
  | none => .null

end Json

/-- The assets as an object of paths by hash. -/
def Assets.toJson (assets : Assets) : Json :=
  .object (assets.map fun (hash, path) => (hash, .string path.text))

namespace Model

/-- An entry as JSON, the fields of its kind in the middle. -/
def Entry.toJson (e : Entry) (own : Json.Fields) : Json :=
  .object
    ([("id", .string e.id), ("stack", .string e.stack), ("logical_id", .string e.logicalId),
      ("name", .string e.name)] ++ own ++
     [("construct_path", Json.ofString? e.constructPath),
      ("depends_on", Json.ofStrings e.dependsOn)])

def KeyAttribute.toJson (k : KeyAttribute) : Json :=
  .object [("name", .string k.name), ("attribute_type", .string k.type)]

/-- A key attribute, or `null` for none. -/
def keyToJson : Option KeyAttribute → Json
  | some k => k.toJson
  | none => .null

def Table.toJson (t : Table) : Json :=
  t.toEntry.toJson
    [("partition_key", keyToJson t.partitionKey),
     ("sort_key", keyToJson t.sortKey),
     ("global_indexes", Json.ofStrings t.globalIndexes),
     ("stream_enabled", .bool t.streamEnabled)]

def Code.toJson : Code → Json
  | .asset hash path =>
    .object
      [("kind", .string "asset"), ("hash", .string hash),
       ("path", Json.ofString? (path.map (·.text)))]
  | .inline source => .object [("kind", .string "inline"), ("source", .string source)]
  | .unknown => .object [("kind", .string "unknown")]

def ComputeFunction.toJson (f : ComputeFunction) : Json :=
  f.toEntry.toJson
    [("handler", Json.ofString? f.handler),
     ("runtime", Json.ofString? f.runtime),
     ("timeout_secs", Json.ofNat? f.timeoutSeconds),
     ("memory_mb", Json.ofNat? f.memoryMegabytes),
     ("environment", .object (f.environment.map fun (name, value) => (name, .string value))),
     ("code", f.code.toJson),
     ("event_sources", Json.ofStrings f.eventSources)]

/-- The word for a kind of API. -/
def Protocol.text : Protocol → String
  | .rest => "rest"
  | .http => "http"

def Route.toJson (r : Route) : Json :=
  .object
    [("method", .string r.method), ("path", .string r.path), ("target", Json.ofString? r.target)]

def Api.toJson (a : Api) : Json :=
  a.toEntry.toJson
    [("protocol", .string a.protocol.text), ("routes", .array (a.routes.map Route.toJson))]

def Rule.toJson (r : Rule) : Json :=
  .object
    [("logical_id", .string r.logicalId), ("name", .string r.name), ("pattern", r.pattern),
     ("schedule", Json.ofString? r.schedule), ("targets", Json.ofStrings r.targets)]

def Bus.toJson (b : Bus) : Json :=
  b.toEntry.toJson [("rules", .array (b.rules.map Rule.toJson))]

def StateMachine.toJson (s : StateMachine) : Json :=
  s.toEntry.toJson [("definition", s.definition), ("invokes", Json.ofStrings s.invokes)]

def Queue.toJson (q : Queue) : Json :=
  q.toEntry.toJson
    [("fifo", .bool q.fifo),
     ("visibility_timeout_secs", Json.ofNat? q.visibilityTimeoutSeconds),
     ("dead_letter_target", Json.ofString? q.deadLetterTarget)]

def Subscription.toJson (s : Subscription) : Json :=
  .object
    [("protocol", .string s.protocol), ("endpoint", .string s.endpoint),
     ("target", Json.ofString? s.target)]

def Topic.toJson (t : Topic) : Json :=
  t.toEntry.toJson [("subscriptions", .array (t.subscriptions.map Subscription.toJson))]

/-- A whole model as JSON. -/
def toJson (m : Model) : Json :=
  .object
    [("tables", .array (m.tables.map Table.toJson)),
     ("functions", .array (m.functions.map ComputeFunction.toJson)),
     ("apis", .array (m.apis.map Api.toJson)),
     ("buses", .array (m.buses.map Bus.toJson)),
     ("state_machines", .array (m.stateMachines.map StateMachine.toJson)),
     ("queues", .array (m.queues.map Queue.toJson)),
     ("topics", .array (m.topics.map Topic.toJson)),
     ("assets", m.assets.toJson)]

end Model

end LocalCloud
