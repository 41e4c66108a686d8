import LocalCloud.Expression.Resolve

/-!
# Evaluating conditions

A condition is a truth value, a comparison of two resolved texts, a combination of conditions, or
the name of another condition.  Whatever is none of these counts as true, with a warning.  The
levels of a condition and of the values compared in it count together.
-/

namespace LocalCloud.Expression

/-- What counts for an expression that cannot be evaluated. -/
def assumeTrue (w : Warning) : Noted Bool := Noted.instead true w

/-- The truth value that a text spells, in any mixture of cases. -/
def spelledTruth? (s : String) : Option Bool :=
  match Text.lower s with
  | "true" => some true
  | "false" => some false
  | _ => none

/-- The value of a call in a condition; `inner` evaluates the conditions inside it and `operand`
resolves the values compared by it. -/
def evaluateCall (inner : Json → Noted Bool) (operand : Json → Noted Json) (ctx : Context)
    (function : String) (argument : Json) : Noted Bool :=
  match function, argument with
  | "Equals", .array [a, b] => do
    let a ← operand a
    let b ← operand b
    pure (a.plainText == b.plainText)
  | "Not", .array [c] => (!·) <$> inner c
  | "And", .array cs => cs.allM inner
  | "Or", .array cs => cs.anyM inner
  | "Condition", .string name => pure (ctx.holds name)
  | "Condition", _ => pure true
  | function, _ => assumeTrue (.unknownConditionFunction function)

/-- A condition evaluated down to a number of levels; below them everything counts as true. -/
def evaluateWithin (ctx : Context) : Nat → Json → Noted Bool
  | 0, _ => assumeTrue .conditionTooDeep
  | levels + 1, expression =>
    match expression with
    | .bool b => pure b
    | .string s =>
      match spelledTruth? s with
      | some b => pure b
      | none => assumeTrue (.unevaluable expression)
    | .object [(key, argument)] =>
      evaluateCall (evaluateWithin ctx levels) (resolveWithin ctx levels) ctx
        (Intrinsic.shortName key) argument
    | _ => assumeTrue (.unevaluable expression)

/-- The value of a condition. -/
def evaluate (ctx : Context) (expression : Json) : Noted Bool :=
  evaluateWithin ctx (nestingLimit + 1) expression

end LocalCloud.Expression
