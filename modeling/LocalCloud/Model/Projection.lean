import LocalCloud.Expression.Mention
import LocalCloud.Json.Reader
import LocalCloud.Model.Basic
import LocalCloud.Template.Context

/-!
# Projecting a template

The entries of a model that a template stands for.  Properties are read from the resolved
resource; links between resources are found in the raw properties, by the names that these
mention, and kept only where the resource is included and of a type that fits.

Resources of some types are no entries but belong to one: methods and routes to their API, and
event source mappings, rules and subscriptions to what they name.  A rule whose bus is not in its
own template is left over for the assembly as a whole (`DetachedRule`).
-/

namespace LocalCloud

/-! ## The resource types that the projection knows -/

namespace ResourceType

def table : String := "AWS::DynamoDB::Table"
def function : String := "AWS::Lambda::Function"
def eventSourceMapping : String := "AWS::Lambda::EventSourceMapping"
def restApi : String := "AWS::ApiGateway::RestApi"
def restResource : String := "AWS::ApiGateway::Resource"
def restMethod : String := "AWS::ApiGateway::Method"
def httpApi : String := "AWS::ApiGatewayV2::Api"
def httpRoute : String := "AWS::ApiGatewayV2::Route"
def httpIntegration : String := "AWS::ApiGatewayV2::Integration"
def eventBus : String := "AWS::Events::EventBus"
def eventRule : String := "AWS::Events::Rule"
def stateMachine : String := "AWS::StepFunctions::StateMachine"
def queue : String := "AWS::SQS::Queue"
def topic : String := "AWS::SNS::Topic"
def subscription : String := "AWS::SNS::Subscription"

/-- The types whose resources become entries. -/
def modelled : List String :=
  [table, function, restApi, httpApi, eventBus, stateMachine, queue, topic]

end ResourceType

/-- A rule whose bus is not in its own template. -/
structure DetachedRule where
  stack : String
  busName : String
  rule : Model.Rule
  deriving Inhabited

/-- What a template stands for. -/
structure Projection where
  model : Model := {}
  detached : List DetachedRule := []
  deriving Inhabited

/-! ## Reading resolved properties -/

namespace Json

/-- The text of a field, unless it is empty. -/
def textAt? (v : Json) (key : String) : Option String :=
  ((v.get? key).map plainText).filter (!·.isEmpty)

/-- The natural number in a field, written as a number or as a text. -/
def naturalAt? (v : Json) (key : String) : Option Nat :=
  match v.get? key with
  | some (.number n) => n.asNatural?
  | some (.string s) => Text.readTrimmedWord? s
  | _ => none

/-- Whether a field is true, written as a truth value or as a text. -/
def truthAt (v : Json) (key : String) : Bool :=
  match v.get? key with
  | some (.bool b) => b
  | some (.string s) => Text.lower s == "true"
  | _ => false

end Json

/-! ## A template with its context -/

/-- A template together with the context that its expressions are resolved against. -/
structure Projector where
  template : Template
  ctx : Context

namespace Projector

variable (p : Projector)

/-- The id of the entry with a logical id. -/
def idOf (logicalId : String) : String := p.template.stack ++ "/" ++ logicalId

/-- The local identifier of a resource. -/
def nameOf (r : Resource) : String := (p.ctx.resource? r.logicalId).getD r.logicalId

/-- The resolved properties of a resource. -/
def properties (r : Resource) : Noted Json := Expression.resolve p.ctx r.properties

/-- The included resources in the order of the template. -/
def included : List Resource := p.template.resources.filter (·.isIncluded p.ctx)

/-- The included resource with a logical id. -/
def resource? (logicalId : String) : Option Resource :=
  (p.template.resource? logicalId).filter (·.isIncluded p.ctx)

/-- The included resources of one of the types that a raw value refers to. -/
def referenced (raw : Json) (types : List String) : List Resource :=
  ((Expression.references raw).filterMap p.resource?).filter fun r => types.contains r.type

/-- The id of the first such resource. -/
def link? (raw : Json) (types : List String) : Option String :=
  (p.referenced raw types).head?.map fun r => p.idOf r.logicalId

/-- Whether a raw property refers to a logical id. -/
def refersTo (raw : Option Json) (logicalId : String) : Bool :=
  match raw with
  | some v => (Expression.references v).contains logicalId
  | none => false

/-- What the entry of a resource has like every other. -/
def entry (r : Resource) : Model.Entry :=
  { id := p.idOf r.logicalId
    stack := p.template.stack
    logicalId := r.logicalId
    name := p.nameOf r
    constructPath := r.constructPath?
    dependsOn := ((r.dependsOn.filterMap p.resource?).filter fun d =>
      ResourceType.modelled.contains d.type).map fun d => p.idOf d.logicalId }

/-! ## Entries -/

/-- A key attribute; an attribute that is not declared is a text. -/
def keyAttribute (types : List (String × String)) (name : String) : Model.KeyAttribute :=
  { name, type := (types.lookup name).getD "S" }

/-- The last attribute of a key schema with the given role. -/
def keyOf (types : List (String × String)) (schema : List Json) (role : String) :
    Option Model.KeyAttribute :=
  let named := schema.filterMap fun key => do
    let name ← key.textAt? "AttributeName"
    if key.textAt? "KeyType" = some role then some name else none
  named.getLast?.map (keyAttribute types)

/-- The declared types of attributes, the last declaration of an attribute first. -/
def attributeTypes (properties : Json) : List (String × String) :=
  ((properties.itemsAt "AttributeDefinitions").filterMap fun a => do
    let name ← a.textAt? "AttributeName"
    some (name, (a.textAt? "AttributeType").getD "S")).reverse

def table (r : Resource) : Noted Model.Table := do
  let props ← p.properties r
  let types := attributeTypes props
  let schema := props.itemsAt "KeySchema"
  pure
    { p.entry r with
      partitionKey := keyOf types schema "HASH"
      sortKey := keyOf types schema "RANGE"
      globalIndexes := (props.itemsAt "GlobalSecondaryIndexes").filterMap (·.textAt? "IndexName")
      streamEnabled := (props.at? ["StreamSpecification", "StreamViewType"]).isSome }

/-- The hash in a bucket key such as `assets/abc.zip`. -/
def hashOfKey? (key : String) : Option String :=
  let file := Text.afterLast '/' key
  let hash := (Text.before? ".zip" file).getD file
  if hash.isEmpty then none else some hash

/-- Where the code of a function is: in the bundle that its metadata points to, else in the
bundle that its bucket key names, else in the template. -/
def codeOf (r : Resource) (properties : Json) : Model.Code :=
  let byMetadata := r.bundlePath?.bind Assets.hashOfPath?
  let byKey := ((properties.at? ["Code", "S3Key"]).bind Json.asString?).bind hashOfKey?
  match byMetadata.or byKey with
  | some hash => .asset hash none
  | none =>
    match properties.at? ["Code", "ZipFile"] with
    | some source => .inline source.plainText
    | none => .unknown

def function (r : Resource) : Noted Model.ComputeFunction := do
  let props ← p.properties r
  let vars := ((props.at? ["Environment", "Variables"]).bind Json.asObject?).getD []
  pure
    { p.entry r with
      handler := props.textAt? "Handler"
      runtime := props.textAt? "Runtime"
      timeoutSeconds := props.naturalAt? "Timeout"
      memoryMegabytes := props.naturalAt? "MemorySize"
      environment := vars.map fun (name, value) => (name, value.plainText)
      code := codeOf r props
      eventSources := [] }

/-- The first name that a raw property refers to. -/
def firstReference? (raw : Option Json) : Option String :=
  raw.bind fun v => (Expression.references v).head?

/-- The segments of the path above a resource of an API, the last one first; `seen` are the
resources that have been passed. -/
def restSegments (seen : List String) (current : Option String) : Noted (List String) :=
  match current with
  | none => pure []
  | some id =>
    match h : p.resource? id with
    | none => pure []
    | some node =>
      if node.type != ResourceType.restResource then pure []
      else if _ : id ∈ seen then Noted.instead [] (.parentLoop p.template.stack id)
      else do
        let segment ← (node.property? "PathPart").toList.mapM (Expression.resolveText p.ctx)
        have : id ∈ p.template.resources.map (·.logicalId) := by
          obtain ⟨h, -⟩ := Option.filter_eq_some_iff.1 h
          exact List.mem_map.2 ⟨node, List.mem_of_find?_eq_some h, by
            simpa using List.find?_some h⟩
        let above ← restSegments (id :: seen) (firstReference? (node.property? "ParentId"))
        pure (segment ++ above)
termination_by unseen (p.template.resources.map (·.logicalId)) seen
decreasing_by exact unseen_cons_lt ‹_› ‹_›

/-- The path of a resource of an API, rebuilt by following the parents up to the root. -/
def restPath (resourceId : Option Json) : Noted String := do
  let segments ← p.restSegments [] (firstReference? resourceId)
  pure ("/" ++ Text.join "/" segments.reverse)

def restRoute (method : Resource) : Noted Model.Route := do
  let props ← p.properties method
  let path ← p.restPath (method.property? "ResourceId")
  pure
    { method := Text.upper ((props.textAt? "HttpMethod").getD "ANY")
      path
      target := (method.property? "Integration").bind (p.link? · [ResourceType.function]) }

/-- The method and the path that a route key names. -/
def splitRouteKey (key : String) : String × String :=
  match Text.divide? ' ' key with
  | some (method, path) => (Text.upper method, path)
  | none => ("ANY", key)

/-- The function behind an HTTP route: what the integration that it names invokes. -/
def httpTarget? (route : Resource) : Option String := do
  let target ← route.property? "Target"
  let integration ← (p.referenced target [ResourceType.httpIntegration]).head?
  let uri ← integration.property? "IntegrationUri"
  p.link? uri [ResourceType.function]

def httpRoute (route : Resource) : Noted Model.Route := do
  let key ← match route.property? "RouteKey" with
    | some key => Expression.resolveText p.ctx key
    | none => pure ""
  let (method, path) := splitRouteKey key
  pure { method, path, target := p.httpTarget? route }

/-- The included resources of a type that name `api` in a property. -/
def partsOf (type property : String) (api : Resource) : List Resource :=
  p.included.filter fun r => r.type == type && refersTo (r.property? property) api.logicalId

def restApi (r : Resource) : Noted Model.Api := do
  let routes ← (p.partsOf ResourceType.restMethod "RestApiId" r).mapM p.restRoute
  pure { p.entry r with protocol := .rest, routes }

def httpApi (r : Resource) : Noted Model.Api := do
  let routes ← (p.partsOf ResourceType.httpRoute "ApiId" r).mapM p.httpRoute
  pure { p.entry r with protocol := .http, routes }

def bus (r : Resource) : Model.Bus := { p.entry r with rules := [] }

/-- A text with the placeholders of a substitution map replaced, one key after another. -/
def substituteAll (substitutions : List (String × String)) (text : String) : String :=
  substitutions.foldl (fun text (key, value) =>
    String.ofList
      (Text.replaceAll ("$\x7b" ++ key ++ "\x7d").toList value.toList text.toList)) text

/-- The definition of a state machine: its text read as JSON if it is, else its value. -/
def definitionOf (r : Resource) : Noted Json := do
  let raw := ((r.property? "DefinitionSubstitutions").bind Json.asObject?).getD []
  let substitutions ← raw.mapM fun (key, value) => do
    let value ← Expression.resolveText p.ctx value
    pure (key, value)
  match r.property? "DefinitionString", r.property? "Definition" with
  | some raw, _ => do
    let text ← Expression.resolveText p.ctx raw
    let text := substituteAll substitutions text
    pure ((Json.read? text).getD (.string text))
  | none, some raw => Expression.resolve p.ctx raw
  | none, none => pure .null

def stateMachine (r : Resource) : Noted Model.StateMachine := do
  let definition ← p.definitionOf r
  let sources := ["DefinitionString", "Definition", "DefinitionSubstitutions"].filterMap r.property?
  let functions := sources.flatMap (p.referenced · [ResourceType.function])
  pure
    { p.entry r with
      definition
      invokes := (functions.map fun f => p.idOf f.logicalId).eraseDups }

def queue (r : Resource) : Noted Model.Queue := do
  let props ← p.properties r
  let deadLetter := (r.property? "RedrivePolicy").bind (·.get? "deadLetterTargetArn")
  pure
    { p.entry r with
      fifo := props.truthAt "FifoQueue" || Text.endsWith ".fifo" (p.nameOf r)
      visibilityTimeoutSeconds := props.naturalAt? "VisibilityTimeout"
      deadLetterTarget := deadLetter.bind (p.link? · [ResourceType.queue]) }

/-- The text of a raw property, empty if it is missing. -/
def textOf (raw : Option Json) : Noted String :=
  match raw with
  | some v => Expression.resolveText p.ctx v
  | none => pure ""

def subscription (endpoint protocol : Option Json) : Noted Model.Subscription := do
  let protocol ← p.textOf protocol
  let text ← p.textOf endpoint
  pure
    { protocol
      endpoint := text
      target := endpoint.bind (p.link? · ResourceType.modelled) }

def topic (r : Resource) : Noted Model.Topic := do
  let raw := ((r.property? "Subscription").bind Json.asArray?).getD []
  let subscriptions ← raw.mapM fun s => p.subscription (s.get? "Endpoint") (s.get? "Protocol")
  pure { p.entry r with subscriptions }

/-- The model with the entry of a resource, if its type becomes one. -/
def addEntry (m : Model) (r : Resource) : Noted Model :=
  if r.type == ResourceType.table then do
    pure { m with tables := m.tables ++ [← p.table r] }
  else if r.type == ResourceType.function then do
    pure { m with functions := m.functions ++ [← p.function r] }
  else if r.type == ResourceType.restApi then do
    pure { m with apis := m.apis ++ [← p.restApi r] }
  else if r.type == ResourceType.httpApi then do
    pure { m with apis := m.apis ++ [← p.httpApi r] }
  else if r.type == ResourceType.eventBus then
    pure { m with buses := m.buses ++ [p.bus r] }
  else if r.type == ResourceType.stateMachine then do
    pure { m with stateMachines := m.stateMachines ++ [← p.stateMachine r] }
  else if r.type == ResourceType.queue then do
    pure { m with queues := m.queues ++ [← p.queue r] }
  else if r.type == ResourceType.topic then do
    pure { m with topics := m.topics ++ [← p.topic r] }
  else pure m

/-! ## Resources that belong to an entry -/

/-- The list with its item at a position changed. -/
def changeAt {α : Type} (f : α → α) (l : List α) (i : Nat) : List α := l.modify i f

/-- The function that an event source mapping names: by a link, else by its local identifier. -/
def mappedFunction? (r : Resource) (functions : List Model.ComputeFunction) :
    Noted (Option Nat) :=
  match r.property? "FunctionName" with
  | none => pure none
  | some raw =>
    let byLink := (p.link? raw [ResourceType.function]).bind fun id =>
      functions.findIdx? (·.id == id)
    match byLink with
    | some i => pure (some i)
    | none => do
      let name ← Expression.resolveText p.ctx raw
      pure (functions.findIdx? (·.name == name))

/-- The functions after an event source mapping; a source is not taken twice. -/
def attachEventSource (r : Resource) (functions : List Model.ComputeFunction) :
    Noted (List Model.ComputeFunction) := do
  match ← p.mappedFunction? r functions with
  | none =>
    Noted.instead functions (.mappingWithoutFunction p.template.stack r.logicalId)
  | some i =>
    match (r.property? "EventSourceArn").bind (p.link? · ResourceType.modelled) with
    | none => pure functions
    | some source =>
      pure (changeAt (fun f =>
        if f.eventSources.contains source then f
        else { f with eventSources := f.eventSources ++ [source] }) functions i)

/-- The rule that a resource describes. -/
def ruleOf (r : Resource) (properties : Json) : Model.Rule :=
  let targets := ((r.property? "Targets").bind Json.asArray?).getD []
  { logicalId := r.logicalId
    name := (properties.textAt? "Name").getD (p.nameOf r)
    pattern := (properties.get? "EventPattern").getD .null
    schedule := properties.textAt? "ScheduleExpression"
    targets := (targets.filterMap (·.get? "Arn")).filterMap (p.link? · ResourceType.modelled) }

/-- The projection after a rule: on the bus that it links to, else on the bus that has the name,
else detached. -/
def attachRule (r : Resource) (out : Projection) : Noted Projection := do
  let props ← p.properties r
  let rule := p.ruleOf r props
  let buses := out.model.buses
  let byLink := ((r.property? "EventBusName").bind (p.link? · [ResourceType.eventBus])).bind
    fun id => buses.findIdx? (·.id == id)
  let busName := (props.textAt? "EventBusName").getD Model.defaultBus
  match byLink.or (buses.findIdx? (·.name == busName)) with
  | some i =>
    let buses := changeAt (fun b : Model.Bus => { b with rules := b.rules ++ [rule] }) buses i
    pure { out with model := { out.model with buses } }
  | none =>
    pure { out with detached := out.detached ++ [⟨p.template.stack, busName, rule⟩] }

/-- The topics after a subscription that is a resource of its own. -/
def attachSubscription (r : Resource) (topics : List Model.Topic) : Noted (List Model.Topic) :=
  let target := ((r.property? "TopicArn").bind (p.link? · [ResourceType.topic])).bind
    fun id => topics.findIdx? (·.id == id)
  match target with
  | some i => do
    let s ← p.subscription (r.property? "Endpoint") (r.property? "Protocol")
    pure (changeAt (fun t : Model.Topic => { t with subscriptions := t.subscriptions ++ [s] })
      topics i)
  | none => Noted.instead topics (.subscriptionWithoutTopic p.template.stack r.logicalId)

/-- The projection after a resource that belongs to an entry, if its type does. -/
def attach (out : Projection) (r : Resource) : Noted Projection :=
  if r.type == ResourceType.eventSourceMapping then do
    let functions ← p.attachEventSource r out.model.functions
    pure { out with model := { out.model with functions } }
  else if r.type == ResourceType.eventRule then p.attachRule r out
  else if r.type == ResourceType.subscription then do
    let topics ← p.attachSubscription r out.model.topics
    pure { out with model := { out.model with topics } }
  else pure out

end Projector

/-- What a template stands for in a context: first the entries, then all that belongs to them. -/
def Template.project (t : Template) (ctx : Context) : Noted Projection := do
  let p : Projector := { template := t, ctx }
  let model ← p.included.foldlM p.addEntry {}
  p.included.foldlM p.attach { model }

end LocalCloud
