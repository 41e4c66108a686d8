import LocalCloud.Expression.Hole
import LocalCloud.Expression.Intrinsic
import LocalCloud.Expression.Reference
import LocalCloud.Text.Base64
import LocalCloud.Text.Numeral

/-!
# Resolving expressions

Resolving goes through a value: each call of an intrinsic function is replaced by what it stands for
in a context, all else stays as it is, in its place.  Resolving cannot fail; what makes no sense
becomes an empty text and a warning.

The rules for one value are `step`; they are given two functions for the values inside it, one
for those a level below and one for the values of a variable map, which count as two levels
below.  `resolveWithin` ties the knot for a number of levels, and below the last level every
value is an empty text.
-/

namespace LocalCloud.Expression

/-- What is left of a call that cannot be made sense of. -/
def unresolvable (i : Intrinsic) (reason : String) (argument : Json) : Noted Json :=
  Noted.instead (.string "") (.unresolvable i.name reason argument)

/-- What is left of a value that lies too deep. -/
def tooDeep : Noted Json := Noted.instead (.string "") .nestedTooDeep

/-- The zones that the local region has. -/
def localZones : List String := ["local-1a", "local-1b", "local-1c"]

section Calls

-- `inner` resolves a value one level below the call.
variable (inner : Json → Noted Json)

def resolveGetAtt (ctx : Context) (argument : Json) : Noted Json :=
  match argument with
  | .array [.string id, attr] => do
    let attr ← inner attr
    let text ← attributeText ctx id attr.plainText
    pure (.string text)
  | .array _ => unresolvable .getAtt "expected [logicalId, attribute]" argument
  | .string dotted =>
    match Text.divide? '.' dotted with
    | some (id, attr) => Json.string <$> attributeText ctx id attr
    | none => unresolvable .getAtt "expected \"logicalId.attribute\"" argument
  | _ => unresolvable .getAtt "expected a list or dotted string" argument

def resolveJoin (argument : Json) : Noted Json :=
  match argument with
  | .array [delimiter, parts] => do
    let delimiter ← inner delimiter
    let parts ← inner parts
    match parts with
    | .array items => pure (.string (Text.join delimiter.plainText (items.map Json.plainText)))
    | _ => unresolvable .join "second argument is not a list" argument
  | _ => unresolvable .join "expected [delimiter, [parts...]]" argument

/-- The position that an index value stands for. -/
def indexOf? : Json → Option Nat
  | .number n => n.asNatural?
  | .string s => Text.readTrimmedWord? s
  | _ => none

/-- Of a list that is written out only the chosen item is resolved; any other list is resolved
first. -/
def resolveSelect (argument : Json) : Noted Json :=
  match argument with
  | .array [index, items] => do
    let index ← inner index
    match indexOf? index, items with
    | none, _ => unresolvable .select "index is not a non-negative integer" argument
    | some i, .array written =>
      match written[i]? with
      | some item => inner item
      | none => Noted.instead (.string "") (.selectOutOfRange i (some written.length))
    | some i, items => do
      match ← inner items with
      | .array resolved =>
        match resolved[i]? with
        | some item => pure item
        | none => Noted.instead (.string "") (.selectOutOfRange i none)
      | _ => unresolvable .select "second argument is not a list" argument
  | _ => unresolvable .select "expected [index, [items...]]" argument

def resolveSplit (argument : Json) : Noted Json :=
  match argument with
  | .array [delimiter, source] => do
    let delimiter ← inner delimiter
    if delimiter.plainText.isEmpty then unresolvable .split "delimiter is empty" argument
    else
      let source ← inner source
      let pieces := Text.splitAll delimiter.plainText.toList source.plainText.toList
      pure (.array (pieces.map fun piece => .string (String.ofList piece)))
  | _ => unresolvable .split "expected [delimiter, string]" argument

def resolveIf (ctx : Context) (argument : Json) : Noted Json :=
  match argument with
  | .array [.string condition, whenTrue, whenFalse] =>
    inner (if ctx.holds condition then whenTrue else whenFalse)
  | _ => unresolvable .ifElse "expected [condition, whenTrue, whenFalse]" argument

end Calls

section Substitution

-- `deeper` resolves the value of a variable.
variable (deeper : Json → Noted Json)

/-- What a name in a hole stands for: a variable, a name that is bound as a whole, or an
attribute behind the first dot. -/
def holeValue (ctx : Context) (vars : Json.Fields) (name : String) : Noted String :=
  match vars.lookup name with
  | some value => Json.plainText <$> deeper value
  | none =>
    match known? ctx name with
    | some value => pure value.plainText
    | none =>
      match Text.divide? '.' name with
      | some (id, attr) => attributeText ctx id attr
      | none => refText ctx name

/-- What a piece of a template becomes. -/
def fillPiece (ctx : Context) (vars : Json.Fields) (template : String) :
    Piece → Noted (List Char)
  | .letter c => pure [c]
  | .unclosed rest =>
    Noted.instead (Piece.unclosed rest).text (.unterminatedHole template)
  | .hole raw =>
    match escaped? raw with
    | some text => pure text
    | none => String.toList <$> holeValue deeper ctx vars (String.ofList (Text.trim raw))

/-- A template with its holes filled. -/
def fill (ctx : Context) (vars : Json.Fields) (template : String) : Noted Json := do
  let pieces ← (scan template.toList).mapM (fillPiece deeper ctx vars template)
  pure (.string (String.ofList pieces.flatten))

def resolveSub (ctx : Context) (argument : Json) : Noted Json :=
  match argument with
  | .string template => fill deeper ctx [] template
  | .array [.string template] => fill deeper ctx [] template
  | .array [.string template, .object vars] => fill deeper ctx vars template
  | .array _ => unresolvable .sub "expected [template, \x7bvariables\x7d]" argument
  | _ => unresolvable .sub "expected a template string" argument

end Substitution

/-- What a call stands for. -/
def resolveCall (inner deeper : Json → Noted Json) (ctx : Context) (i : Intrinsic)
    (argument : Json) : Noted Json :=
  match i with
  | .ref =>
    match argument with
    | .string id => resolveRef ctx id
    | _ => unresolvable .ref "expected a logical id string" argument
  | .getAtt => resolveGetAtt inner ctx argument
  | .join => resolveJoin inner argument
  | .select => resolveSelect inner argument
  | .sub => resolveSub deeper ctx argument
  | .ifElse => resolveIf inner ctx argument
  | .split => resolveSplit inner argument
  | .base64 => (fun v => Json.string (Text.base64OfText v.plainText)) <$> inner argument
  | .zones => pure (Json.ofStrings localZones)

/-- What a value becomes, given what becomes of the values inside it. -/
def step (inner deeper : Json → Noted Json) (ctx : Context) (value : Json) : Noted Json :=
  match value with
  | .object fields =>
    match Intrinsic.ofFields? fields with
    | some (i, argument) => resolveCall inner deeper ctx i argument
    | none => do
      let fields ← fields.mapM fun (key, v) => do
        let v ← inner v
        pure (key, v)
      pure (.object fields)
  | .array items => Json.array <$> items.mapM inner
  | scalar => pure scalar

/-- A value resolved down to a number of levels; the values below them are lost. -/
def resolveWithin (ctx : Context) : Nat → Json → Noted Json
  | 0 => fun _ => tooDeep
  | 1 => step (fun _ => tooDeep) (fun _ => tooDeep) ctx
  | levels + 2 => step (resolveWithin ctx (levels + 1)) (resolveWithin ctx levels) ctx

/-- A value with all its calls resolved. -/
def resolve (ctx : Context) (value : Json) : Noted Json :=
  resolveWithin ctx (nestingLimit + 1) value

/-- A value resolved, as part of a text. -/
def resolveText (ctx : Context) (value : Json) : Noted String :=
  Json.plainText <$> resolve ctx value

end LocalCloud.Expression
