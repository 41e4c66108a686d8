import LocalCloud.Assembly.Failure
import LocalCloud.Json.Basic

/-!
# Stack templates

The records of a template as they are written, nothing resolved yet: its resources in the order
of the template, its conditions, and its parameters.
-/

namespace LocalCloud

/-- A resource of a template. -/
structure Resource where
  logicalId : String
  type : String
  /-- The raw properties, `null` when there are none. -/
  properties : Json
  /-- The logical ids that the resource waits for by declaration. -/
  dependsOn : List String
  /-- The condition under which the resource exists. -/
  condition : Option String
  metadata : Json.Fields
  deriving Inhabited

namespace Resource

/-- A raw property. -/
def property? (r : Resource) (key : String) : Option Json := r.properties.get? key

/-- The construct path that was written down with the resource. -/
def constructPath? (r : Resource) : Option String :=
  (r.metadata.lookup "aws:cdk:path").bind Json.asString?

/-- The logical ids in a `DependsOn`: one or a list, in which anything but texts is passed over. -/
def readDependsOn (logicalId : String) : Option Json → Except Defect (List String)
  | none | some .null => .ok []
  | some (.string one) => .ok [one]
  | some (.array many) => .ok (many.filterMap Json.asString?)
  | some _ => .error (.dependsOnShape logicalId)

/-- The resource that a value describes. -/
def ofJson (logicalId : String) (raw : Json) : Except Defect Resource :=
  match raw with
  | .object fields =>
    match (fields.lookup "Type").bind Json.asString? with
    | none => .error (.resourceWithoutType logicalId)
    | some type => do
      let dependsOn ← readDependsOn logicalId (fields.lookup "DependsOn")
      .ok
        { logicalId, type, dependsOn
          properties := (fields.lookup "Properties").getD .null
          condition := (fields.lookup "Condition").bind Json.asString?
          metadata := ((fields.lookup "Metadata").bind Json.asObject?).getD [] }
  | _ => .error (.resourceNotObject logicalId)

end Resource

/-- A stack template. -/
structure Template where
  stack : String
  /-- The resources in the order of the template, each logical id once. -/
  resources : List Resource := []
  /-- The condition expressions by name. -/
  conditions : Json.Fields := []
  /-- The parameters with their defaults. -/
  parameters : List (String × Option Json) := []
  deriving Inhabited

namespace Template

/-- The fields of a section, none when the section is missing. -/
def readSection (fields : Json.Fields) (name : String) : Except Defect Json.Fields :=
  match fields.lookup name with
  | none | some .null => .ok []
  | some (.object entries) => .ok entries
  | some _ => .error (.sectionNotObject name)

/-- The template in a document, for the stack with the given name. -/
def read (raw : Json) (stack : String) : Except Defect Template :=
  match raw with
  | .object fields => do
    let resources ← readSection fields "Resources"
    let resources ← resources.mapM fun (logicalId, raw) => Resource.ofJson logicalId raw
    let conditions ← readSection fields "Conditions"
    let parameters ← readSection fields "Parameters"
    let parameters := parameters.map fun (name, decl) => (name, decl.get? "Default")
    .ok { stack, resources, conditions, parameters }
  | _ => .error .templateNotObject

/-- The template in a document read from `source`. -/
def ofDocument (raw : Json) (stack : String) (source : Path) : Except AssemblyFailure Template :=
  (read raw stack).mapError (.malformed source)

/-- The resource with a logical id. -/
def resource? (t : Template) (logicalId : String) : Option Resource :=
  t.resources.find? (·.logicalId == logicalId)

end Template

end LocalCloud
