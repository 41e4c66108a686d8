import LocalCloud.Json.Basic
import LocalCloud.Text.Cut

/-!
# Intrinsic functions

An intrinsic is an object with a single field whose key names a function, with `Fn::` in front of
it or without.
-/

namespace LocalCloud

/-- The functions that a template may call. -/
inductive Intrinsic where
  | ref
  | getAtt
  | join
  | select
  | sub
  | ifElse
  | split
  | base64
  | zones
  deriving DecidableEq

namespace Intrinsic

/-- The function named by a key without its `Fn::`. -/
def ofShortName? : String → Option Intrinsic
  | "Ref" => some .ref
  | "GetAtt" => some .getAtt
  | "Join" => some .join
  | "Select" => some .select
  | "Sub" => some .sub
  | "If" => some .ifElse
  | "Split" => some .split
  | "Base64" => some .base64
  | "GetAZs" => some .zones
  | _ => none

/-- A key without the `Fn::` in front of it. -/
def shortName (key : String) : String := (Text.behind? "Fn::" key).getD key

/-- The function named by a key. -/
def ofKey? (key : String) : Option Intrinsic := ofShortName? (shortName key)

/-- The full name of a function. -/
def name : Intrinsic → String
  | .ref => "Ref"
  | .getAtt => "Fn::GetAtt"
  | .join => "Fn::Join"
  | .select => "Fn::Select"
  | .sub => "Fn::Sub"
  | .ifElse => "Fn::If"
  | .split => "Fn::Split"
  | .base64 => "Fn::Base64"
  | .zones => "Fn::GetAZs"

/-- The function and the argument that the fields of an object are a call of. -/
def ofFields? : Json.Fields → Option (Intrinsic × Json)
  | [(key, argument)] => (ofKey? key).map fun i => (i, argument)
  | _ => none

end Intrinsic

end LocalCloud
