import LocalCloud.Expression.Hole
import LocalCloud.Expression.Intrinsic

/-!
# The names that a value mentions

Links between resources are found in the raw values, before anything is resolved: by the names
in `Ref`, in front of the dot of `GetAtt`, and in the holes of `Sub` that are not variables.
Pseudo parameters are no links.
-/

namespace LocalCloud.Expression

/-- The name that a `GetAtt` argument starts with. -/
def attributeOwner? : Json → Option String
  | .array (.string id :: _) => some id
  | .string dotted => some (Text.upTo '.' dotted)
  | _ => none

/-- The template of a `Sub` argument. -/
def subTemplate? : Json → Option String
  | .string template => some template
  | .array (.string template :: _) => some template
  | _ => none

/-- The owners of the names in the holes of a template that are no variables. -/
def holeOwners (template : Option String) (vars : Json.Fields) : List String :=
  match template with
  | none => []
  | some template =>
    ((holeNames template).filter fun name => (vars.lookup name).isNone).map (Text.upTo '.')

mutual

/-- All names in a value, in order, with repetitions. -/
def mentions : Json → List String
  | .object [(key, argument)] =>
    match Intrinsic.ofKey? key with
    | some .ref =>
      match argument with
      | .string id => [id]
      | _ => []
    | some .getAtt => (attributeOwner? argument).toList
    | some .sub =>
      match argument with
      | .array (first :: .object vars :: rest) =>
        holeOwners (subTemplate? (.array (first :: .object vars :: rest))) vars ++
          fieldMentions vars
      | argument => holeOwners (subTemplate? argument) []
    | _ => mentions argument
  | .object fields => fieldMentions fields
  | .array items => itemMentions items
  | _ => []

/-- All names in the items of a list. -/
def itemMentions : List Json → List String
  | [] => []
  | item :: rest => mentions item ++ itemMentions rest

/-- All names in the values of fields. -/
def fieldMentions : List (String × Json) → List String
  | [] => []
  | (_, value) :: rest => mentions value ++ fieldMentions rest

end

/-- Whether a name may be a link. -/
def isLink (id : String) : Bool := !id.isEmpty && !Text.startsWith "AWS::" id

/-- The names that a value refers to, in the order in which they first occur. -/
def references (value : Json) : List String :=
  ((mentions value).filter isLink).eraseDups

end LocalCloud.Expression
