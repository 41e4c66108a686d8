import LocalCloud.Model.Projection

/-!
# Rules whose bus is in another template

Once the models of all templates are merged, each rule that is left over goes to the first bus with
the name it asks for.  The default bus comes into being when a rule asks for it and no template has
it; a rule that asks for any other bus that is not there is dropped.
-/

namespace LocalCloud.Model

/-- The buses with a rule put on the first one with the given name. -/
def putRule (name : String) (rule : Rule) : List Bus → List Bus
  | [] => []
  | bus :: rest =>
    if bus.name = name then { bus with rules := bus.rules ++ [rule] } :: rest
    else bus :: putRule name rule rest

/-- The default bus as it comes into being with its first rule. -/
def implicitBus (rule : Rule) : Bus where
  id := defaultBus
  stack := ""
  logicalId := defaultBus
  name := defaultBus
  constructPath := none
  dependsOn := []
  rules := [rule]

/-- The model with one of the rules that were left over. -/
def attachRule (m : Model) (d : DetachedRule) : Noted Model :=
  if m.buses.any (·.name == d.busName) then
    pure { m with buses := putRule d.busName d.rule m.buses }
  else if d.busName = defaultBus then pure { m with buses := m.buses ++ [implicitBus d.rule] }
  else Noted.instead m (.ruleWithoutBus d.stack d.rule.logicalId d.busName)

/-- The model with all the rules that were left over. -/
def attachRules (m : Model) (rules : List DetachedRule) : Noted Model := rules.foldlM attachRule m

end LocalCloud.Model
