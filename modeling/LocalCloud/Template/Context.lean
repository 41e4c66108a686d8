import LocalCloud.Expression.Condition
import LocalCloud.Template.Basic
import LocalCloud.Unseen

/-!
# The context of a template

What the expressions of a template are resolved against: the defaults of its parameters, a local
identifier and the type of each of its resources, and the values of its conditions.  A condition
is evaluated after the conditions that it names, wherever they are declared; a condition that is
met again while it is being evaluated counts as true.
-/

namespace LocalCloud

/-- The property that carries the explicit name of a resource. -/
def nameProperty? : String → Option String
  | "AWS::DynamoDB::Table" => some "TableName"
  | "AWS::Lambda::Function" => some "FunctionName"
  | "AWS::SQS::Queue" => some "QueueName"
  | "AWS::SNS::Topic" => some "TopicName"
  | "AWS::StepFunctions::StateMachine" => some "StateMachineName"
  | "AWS::Events::EventBus" => some "Name"
  | "AWS::Events::Rule" => some "Name"
  | "AWS::ApiGateway::RestApi" => some "Name"
  | "AWS::ApiGatewayV2::Api" => some "Name"
  | _ => none

/-- A logical id with nothing but ASCII letters, digits, `-` and `_`. -/
def sanitize (logicalId : String) : String :=
  String.ofList (logicalId.toList.filter fun c => c.isAlphanum || c == '-' || c == '_')

/-- The local identifier of a resource: its explicit name if that is written out and not empty,
else its sanitized logical id. -/
def Resource.physicalId (r : Resource) : String :=
  match (nameProperty? r.type).bind r.property? with
  | some (.string name) => if name.isEmpty then sanitize r.logicalId else name
  | _ => sanitize r.logicalId

/-- Whether the condition of a resource, if it has one, lets it exist. -/
def Resource.isIncluded (r : Resource) (ctx : Context) : Bool :=
  match r.condition with
  | some name => ctx.holds name
  | none => true

mutual

/-- The conditions that an expression names. -/
def namedConditions : Json → List String
  | .object fields =>
    match fields with
    | [("Condition", .string name)] => [name]
    | fields => fieldConditions fields
  | .array items => itemConditions items
  | _ => []

/-- The conditions that the items of a list name. -/
def itemConditions : List Json → List String
  | [] => []
  | item :: rest => namedConditions item ++ itemConditions rest

/-- The conditions that the values of fields name. -/
def fieldConditions : List (String × Json) → List String
  | [] => []
  | (_, value) :: rest => namedConditions value ++ fieldConditions rest

end

namespace Template

/-- The context before any condition has been evaluated. -/
def baseContext (t : Template) : Context :=
  let ctx : Context := { stack := some t.stack }
  let ctx := t.parameters.foldl (fun ctx (name, default_) =>
    match default_ with
    | some value => ctx.bindResource name value.plainText
    | none => ctx) ctx
  t.resources.foldl (fun ctx r =>
    (ctx.bindResource r.logicalId r.physicalId).bindType r.logicalId r.type) ctx

/-- The context with the value of a condition and of all that it needs.  `visiting` are the
conditions whose evaluation has begun. -/
def bindNamed (t : Template) (visiting : List String) (ctx : Context) (name : String) :
    Noted Context :=
  if (ctx.condition? name).isSome then pure ctx
  else
    match h : t.conditions.lookup name with
    | none => pure ctx
    | some expression =>
      if _ : name ∈ visiting then Noted.instead ctx (.conditionCycle name)
      else do
        let ctx ← (namedConditions expression).foldlM (fun ctx needed =>
          have : name ∈ t.conditions.map (·.1) := Json.key_mem_of_lookup h
          bindNamed t (name :: visiting) ctx needed) ctx
        let value ← Expression.evaluate ctx expression
        pure (ctx.bindCondition name value)
termination_by unseen (t.conditions.map (·.1)) visiting
decreasing_by exact unseen_cons_lt ‹_› ‹_›

/-- The context of a template. -/
def context (t : Template) : Noted Context :=
  (t.conditions.map (·.1)).foldlM (t.bindNamed []) t.baseContext

end Template

end LocalCloud
