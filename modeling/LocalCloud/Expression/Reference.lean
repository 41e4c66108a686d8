import LocalCloud.Expression.Context
import LocalCloud.Warning

/-!
# Resolving a name

A name stands for the local identifier bound to it, else for a pseudo parameter, else for a
placeholder ARN made from its type and the name itself.  The placeholder depends on nothing but
these two, so that a name without a binding is the same text wherever it occurs.
-/

namespace LocalCloud.Expression

/-- The service and the kind of a resource type such as `AWS::SQS::Queue`, in lower case. -/
def serviceAndKind? (type : String) : Option (String × String) :=
  match Text.splitAll "::".toList type.toList with
  | _ :: service :: kind :: _ =>
    if service = [] ∨ kind = [] then none
    else some (Text.lower (String.ofList service), Text.lower (String.ofList kind))
  | _ => none

/-- The ARN that stands for a name without a local identifier. -/
def placeholderArn (id : String) (type : Option String) : String :=
  match type.bind serviceAndKind? with
  | some (service, kind) =>
    "arn:ldk:" ++ service ++ ":" ++ localRegion ++ ":" ++ localAccount ++ ":" ++ kind ++ "/" ++ id
  | none => "arn:ldk:unknown:" ++ localRegion ++ ":" ++ localAccount ++ ":resource/" ++ id

/-- The values of the names that every template may use.  Those of the stack need a stack. -/
def pseudoParameter? (ctx : Context) : String → Option Json
  | "AWS::StackName" => ctx.stack.map .string
  | "AWS::StackId" => ctx.stack.map fun name =>
    .string ("arn:ldk:cloudformation:" ++ localRegion ++ ":" ++ localAccount ++ ":stack/" ++ name)
  | "AWS::AccountId" => some (.string localAccount)
  | "AWS::Region" => some (.string localRegion)
  | "AWS::Partition" => some (.string "aws")
  | "AWS::URLSuffix" => some (.string "localhost")
  | "AWS::NoValue" => some .null
  | _ => none

/-- The value of a name that is bound or a pseudo parameter. -/
def known? (ctx : Context) (id : String) : Option Json :=
  match ctx.resource? id with
  | some identifier => some (.string identifier)
  | none => pseudoParameter? ctx id

/-- The value of a name.  Only a name whose type is unknown too is worth a warning. -/
def resolveRef (ctx : Context) (id : String) : Noted Json :=
  match known? ctx id with
  | some value => pure value
  | none =>
    let arn := placeholderArn id (ctx.type? id)
    match ctx.type? id with
    | some _ => pure (.string arn)
    | none => Noted.instead (.string arn) (.unresolvedReference id arn)

/-- The value of a name as part of a text. -/
def refText (ctx : Context) (id : String) : Noted String := Json.plainText <$> resolveRef ctx id

/-- The value of an attribute of a name. -/
def attributeText (ctx : Context) (id attr : String) : Noted String :=
  (· ++ "." ++ attr) <$> refText ctx id

end LocalCloud.Expression
