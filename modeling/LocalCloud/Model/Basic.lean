import LocalCloud.Assembly.Assets

/-!
# The application model

What an application consists of, once its templates have been read and resolved: tables,
functions, APIs, event buses, state machines, queues and topics, with the links between them as
ids of entries, and the assets that its functions run.
-/

namespace LocalCloud.Model

/-- What every entry has. -/
structure Entry where
  /-- The id of the entry in the whole application: `stack/logicalId`. -/
  id : String
  stack : String
  logicalId : String
  /-- The local identifier. -/
  name : String
  constructPath : Option String
  /-- The ids that the entry waits for by declaration. -/
  dependsOn : List String
  deriving DecidableEq, Inhabited

/-- A key attribute of a table. -/
structure KeyAttribute where
  name : String
  type : String
  deriving DecidableEq, Inhabited

/-- A key-value table. -/
structure Table extends Entry where
  partitionKey : Option KeyAttribute
  sortKey : Option KeyAttribute
  globalIndexes : List String
  streamEnabled : Bool
  deriving DecidableEq, Inhabited

/-- Where the code of a function is. -/
inductive Code where
  /-- In a bundle, whose path is filled in once all assets are known. -/
  | asset (hash : String) (path : Option Path)
  /-- In the template itself. -/
  | inline (source : String)
  | unknown
  deriving DecidableEq, Inhabited

/-- A compute function. -/
structure ComputeFunction extends Entry where
  handler : Option String
  runtime : Option String
  timeoutSeconds : Option Nat
  memoryMegabytes : Option Nat
  /-- The resolved environment variables, in order. -/
  environment : List (String × String)
  code : Code
  /-- The ids of the queues and tables that feed the function. -/
  eventSources : List String
  deriving DecidableEq, Inhabited

/-- The two kinds of API. -/
inductive Protocol where
  | rest
  | http
  deriving DecidableEq, Inhabited

/-- A route of an API. -/
structure Route where
  method : String
  path : String
  /-- The id of the function behind the route. -/
  target : Option String
  deriving DecidableEq, Inhabited

/-- An API with its routes. -/
structure Api extends Entry where
  protocol : Protocol
  routes : List Route
  deriving DecidableEq, Inhabited

/-- A rule on an event bus. -/
structure Rule where
  logicalId : String
  name : String
  pattern : Json
  schedule : Option String
  /-- The ids of the targets. -/
  targets : List String
  deriving Inhabited

/-- An event bus. -/
structure Bus extends Entry where
  rules : List Rule
  deriving Inhabited

/-- A state machine. -/
structure StateMachine extends Entry where
  /-- The definition as a value, or its text if that is not JSON. -/
  definition : Json
  /-- The ids of the functions that the definition names. -/
  invokes : List String
  deriving Inhabited

/-- A message queue. -/
structure Queue extends Entry where
  fifo : Bool
  visibilityTimeoutSeconds : Option Nat
  /-- The id of the dead-letter queue. -/
  deadLetterTarget : Option String
  deriving DecidableEq, Inhabited

/-- A subscription to a topic. -/
structure Subscription where
  protocol : String
  endpoint : String
  /-- The id of the entry behind the endpoint. -/
  target : Option String
  deriving DecidableEq, Inhabited

/-- A topic. -/
structure Topic extends Entry where
  subscriptions : List Subscription
  deriving DecidableEq, Inhabited

end LocalCloud.Model

namespace LocalCloud

/-- An application. -/
structure Model where
  tables : List Model.Table := []
  functions : List Model.ComputeFunction := []
  apis : List Model.Api := []
  buses : List Model.Bus := []
  stateMachines : List Model.StateMachine := []
  queues : List Model.Queue := []
  topics : List Model.Topic := []
  assets : Assets := []
  deriving Inhabited

namespace Model

/-- The name of the bus that every account has. -/
def defaultBus : String := "default"

variable (m : Model)

/-- What the entries of all kinds have in common, kind by kind. -/
def entries : List Entry :=
  m.tables.map (·.toEntry) ++ m.functions.map (·.toEntry) ++ m.apis.map (·.toEntry) ++
    m.buses.map (·.toEntry) ++ m.stateMachines.map (·.toEntry) ++ m.queues.map (·.toEntry) ++
    m.topics.map (·.toEntry)

/-- How many entries there are. -/
def resourceCount : Nat := m.entries.length

/-- Whether there is neither an entry nor an asset. -/
def isEmpty : Bool := m.resourceCount == 0 && m.assets.isEmpty

/-- The model with all of another one behind it; of two assets with one hash the first is kept. -/
def merge (other : Model) : Model :=
  { tables := m.tables ++ other.tables
    functions := m.functions ++ other.functions
    apis := m.apis ++ other.apis
    buses := m.buses ++ other.buses
    stateMachines := m.stateMachines ++ other.stateMachines
    queues := m.queues ++ other.queues
    topics := m.topics ++ other.topics
    assets := Assets.merge m.assets other.assets }

/-- The model with every entry changed by `f`. -/
def mapEntries (f : Entry → Entry) : Model :=
  { m with
    tables := m.tables.map fun x => { x with toEntry := f x.toEntry }
    functions := m.functions.map fun x => { x with toEntry := f x.toEntry }
    apis := m.apis.map fun x => { x with toEntry := f x.toEntry }
    buses := m.buses.map fun x => { x with toEntry := f x.toEntry }
    stateMachines := m.stateMachines.map fun x => { x with toEntry := f x.toEntry }
    queues := m.queues.map fun x => { x with toEntry := f x.toEntry }
    topics := m.topics.map fun x => { x with toEntry := f x.toEntry } }

/-- The code with the path of its bundle, if the bundle is known. -/
def Code.link (assets : Assets) : Code → Code
  | .asset hash path => .asset hash ((assets.lookup hash).or path)
  | code => code

/-- The model in which every function knows the path of its bundle. -/
def linkAssets : Model :=
  { m with functions := m.functions.map fun f => { f with code := f.code.link m.assets } }

/-- The path of the bundle that a function runs. -/
def ComputeFunction.codePath? (f : ComputeFunction) : Option Path :=
  match f.code with
  | .asset _ path => path
  | _ => none

end Model

end LocalCloud
