import LocalCloud.Assembly.Failure
import LocalCloud.Json.Basic

/-!
# The construct tree

The tree of constructs that an application was written as.  A node whose attributes carry a
resource type stands for a resource of a template; the others only group nodes.  Searches go
through the tree in pre-order, a node before its children and the children from first to last.
-/

namespace LocalCloud

/-- A node of the construct tree. -/
structure Construct where
  id : String
  /-- The ids from the root down to the node, with slashes between them. -/
  path : String
  /-- The resource type, if the node stands for a resource. -/
  type : Option String
  attributes : Json.Fields
  children : List Construct
  deriving Inhabited

namespace Construct

/-- The attribute that carries a resource type. -/
def typeAttribute : String := "aws:cdk:cloudformation:type"

/-- The path of a node that does not write its path down itself. -/
def defaultPath (parentPath id : String) : String :=
  if parentPath.isEmpty then id else parentPath ++ "/" ++ id

/-- The node that a value describes, `key` being its name among its siblings. -/
def ofJson (raw : Json) (key parentPath : String) : Except Defect Construct :=
  match raw with
  | .object fields =>
    let id := ((fields.lookup "id").bind Json.asString?).getD key
    let path := ((fields.lookup "path").bind Json.asString?).getD (defaultPath parentPath id)
    let attributes := ((fields.lookup "attributes").bind Json.asObject?).getD []
    let type := (attributes.lookup typeAttribute).bind Json.asString?
    let node := fun children => { id, path, type, attributes, children : Construct }
    match h : fields.lookup "children" with
    | none | some .null => .ok (node [])
    | some (.object children) => do
      let children ← children.attach.mapM fun ⟨(key, child), hmem⟩ =>
        have := Json.sizeOf_lt_of_lookup h
        have := List.sizeOf_lt_of_mem hmem
        ofJson child key path
      .ok (node children)
    | some (.array children) => do
      let children ← children.attach.mapM fun ⟨child, hmem⟩ =>
        have := Json.sizeOf_lt_of_lookup h
        have := List.sizeOf_lt_of_mem hmem
        ofJson child "" path
      .ok (node children)
    | some _ => .error (.childrenShape path)
  | _ => .error (.constructNotObject key)
termination_by sizeOf raw
decreasing_by all_goals simp_all; omega

/-- The tree in a document read from `source`. -/
def ofDocument (raw : Json) (source : Path) : Except AssemblyFailure Construct :=
  match raw.get? "tree" with
  | none => .error (.malformed source .treeMissing)
  | some root => (ofJson root "" "").mapError (.malformed source)

mutual

/-- All nodes in pre-order. -/
def nodes : Construct → List Construct
  | .mk id path type attributes children =>
    .mk id path type attributes children :: nodesOfAll children

/-- All nodes of several trees, one tree after another. -/
def nodesOfAll : List Construct → List Construct
  | [] => []
  | node :: rest => node.nodes ++ nodesOfAll rest

end

mutual

/-- How many nodes a tree has. -/
def size : Construct → Nat
  | .mk _ _ _ _ children => sizeOfAll children + 1

/-- How many nodes several trees have. -/
def sizeOfAll : List Construct → Nat
  | [] => 0
  | node :: rest => node.size + sizeOfAll rest

end

theorem size_eq (node : Construct) : node.size = sizeOfAll node.children + 1 := by
  cases node; rfl

theorem sizeOfAll_append (l r : List Construct) :
    sizeOfAll (l ++ r) = sizeOfAll l + sizeOfAll r := by
  induction l with
  | nil => simp [sizeOfAll]
  | cons node rest ih => simp [sizeOfAll, ih]; omega

/-- The nodes with a type in the trees on a stack.  A node is taken from the top and its children
are put there in its place, so that a deep tree needs no deep recursion. -/
def typedOnStack : List Construct → List Construct
  | [] => []
  | node :: stack =>
    let rest := typedOnStack (node.children ++ stack)
    if node.type.isSome then node :: rest else rest
termination_by stack => sizeOfAll stack
decreasing_by simp only [sizeOfAll_append, sizeOfAll, size_eq]; omega

/-- The nodes that stand for resources, in pre-order. -/
def typed (root : Construct) : List Construct := typedOnStack [root]

mutual

/-- The first node with the given path. -/
def find? (path : String) : Construct → Option Construct
  | .mk id own type attributes children =>
    if own = path then some (.mk id own type attributes children) else findInAll? path children

/-- The first node with the given path in several trees. -/
def findInAll? (path : String) : List Construct → Option Construct
  | [] => none
  | node :: rest => (node.find? path).or (findInAll? path rest)

end

/-- The path of the resource with a logical id in a stack: of the first node that stands for a
resource, lies under the stack, and whose path ends in the logical id, perhaps followed by
`Resource`. -/
def pathOf? (root : Construct) (stack logicalId : String) : Option String :=
  (root.typed.find? fun node =>
    Text.startsWith (stack ++ "/") node.path &&
      (Text.endsWith ("/" ++ logicalId) node.path ||
        Text.endsWith ("/" ++ logicalId ++ "/Resource") node.path)).map (·.path)

end Construct

end LocalCloud
