import LocalCloud.Model.Projection
import LocalCloud.Proofs.Template.Conditions
import LocalCloud.Proofs.Text.Filling

/-!
# The definitions of state machines

A definition is written as a text with placeholders, and a map says what stands for them.  The
placeholders are filled one key after another, in the order of the map.  When the keys of the map
stay apart in the text, every order gives the definition with all of them filled at once
(`definition_filled_at_once`).  When they do not, the order shows: a value that holds the placeholder
of a key is filled in turn if the key comes later, and only then (`definition_depends_on_order`).
-/

namespace LocalCloud.Projector

open Text (Apart Plain fillAll placeholder)

/-- The keys of a substitution map with the texts of their values. -/
def substitutionsOf (p : Projector) (fields : Json.Fields) : List (String × String) :=
  fields.map fun field => (field.1, (Expression.resolveText p.ctx field.2).value)

/-- What a definition that is a text stands for: the value that is written in it, else the text. -/
def definitionOfText (text : String) : Json := (Json.read? text).getD (.string text)

variable {p : Projector} {r : Resource} {raw : Json} {fields : Json.Fields} {text : String}
  {values values' : List (String × String)}

theorem keys_substitutionsOf (p : Projector) (fields : Json.Fields) :
    (p.substitutionsOf fields).map (·.1) = fields.map (·.1) := by
  rw [substitutionsOf, List.map_map]
  rfl

theorem definition_stateMachine (hstring : r.property? "DefinitionString" = some raw)
    (hmap : r.property? "DefinitionSubstitutions" = some (.object fields)) :
    (p.stateMachine r).value.definition = definitionOfText
      (substituteAll (p.substitutionsOf fields) (Expression.resolveText p.ctx raw).value) := by
  show (p.definitionOf r).value = _
  rw [definitionOf, Noted.value_bind, Noted.value_mapM, hstring, hmap]
  rfl

theorem toList_substituteAll (values : List (String × String)) (text : String) :
    (substituteAll values text).toList =
      values.foldl (fun text kv => Text.replaceAll (placeholder kv.1) kv.2.toList text)
        text.toList := by
  induction values generalizing text with
  | nil => rfl
  | cons first values ih =>
    obtain ⟨key, value⟩ := first
    have hmark : ("$\x7b" ++ key ++ "\x7d").toList = placeholder key := by
      simp [placeholder]
    rw [List.foldl_cons, ← hmark]
    refine (ih _).trans ?_
    rw [String.toList_ofList]

/-- Keys that stay apart can be filled one after another, in any order. -/
theorem substituteAll_eq_fillAll (h : Apart values text.toList)
    (hnodup : (values.map (·.1)).Nodup) (hperm : values'.Perm values) :
    substituteAll values' text = fillAll values text := by
  have hback : values'.reverse.Perm values := (List.reverse_perm values').trans hperm
  have hvalues : values'.reverse ++ [] ⊆ values := (List.append_nil _).symm ▸ hback.subset
  have hfilled := h.foldl_replaceAll hvalues
    ((List.append_nil _).symm ▸ (hback.map (·.1)).nodup_iff.2 hnodup)
  rw [Text.written_parts, List.append_nil] at hfilled
  refine String.toList_inj.1 ?_
  rw [toList_substituteAll, hfilled, fillAll, String.toList_ofList]
  exact Text.written_congr (fun key => (Template.lookup_eq_of_perm hback.symm hnodup key).symm) _

/-- A definition is its text with all keys of the map filled at once, however the map is ordered, if
the keys stay apart in the text.  They do if no dollar sign can come to begin a placeholder. -/
theorem definition_filled_at_once (p : Projector) (raw : Json)
    (hnodup : (fields.map (·.1)).Nodup) :
    (Plain (p.substitutionsOf fields) (Expression.resolveText p.ctx raw).value.toList →
        Apart (p.substitutionsOf fields) (Expression.resolveText p.ctx raw).value.toList) ∧
      (Apart (p.substitutionsOf fields) (Expression.resolveText p.ctx raw).value.toList →
        ∀ (r : Resource) (fields' : Json.Fields),
          r.property? "DefinitionString" = some raw →
          r.property? "DefinitionSubstitutions" = some (.object fields') →
          fields'.Perm fields →
          (p.stateMachine r).value.definition = definitionOfText
            (fillAll (p.substitutionsOf fields) (Expression.resolveText p.ctx raw).value)) := by
  refine ⟨Plain.apart, fun hapart r fields' hstring hmap hperm => ?_⟩
  have hkeys : ((p.substitutionsOf fields).map (·.1)).Nodup := by
    rwa [keys_substitutionsOf]
  have hvalues : (p.substitutionsOf fields').Perm (p.substitutionsOf fields) := hperm.map _
  rw [definition_stateMachine hstring hmap, substituteAll_eq_fillAll hapart hkeys hvalues]

/-! ## Two state machines -/

/-- A state machine with a definition text and a map for its placeholders. -/
def machine (text : String) (fields : Json.Fields) : Resource where
  logicalId := "Machine"
  type := ResourceType.stateMachine
  properties := .object
    [("DefinitionString", .string text), ("DefinitionSubstitutions", .object fields)]
  dependsOn := []
  condition := none
  metadata := []

/-- A template with a function to which a local identifier is bound. -/
def payDesk : Projector where
  template := { stack := "Shop" }
  ctx := { resources := [("Pay", "pay")] }

/-- A definition with two placeholders; a dollar sign also begins a path into the input. -/
def payText : String :=
  "\x7b\"Resource\":\"$\x7bPayArn\x7d\",\"InputPath\":\"$.order\",\"Comment\":\"$\x7bNote\x7d\"\x7d"

/-- What stands for its placeholders: the ARN of the function, and a text. -/
def payFields : Json.Fields :=
  [("PayArn", .object [("Fn::GetAtt", .array [.string "Pay", .string "Arn"])]),
    ("Note", .string "run by Ann")]

/-- The definition is filled in both orders of the map. -/
theorem payMachine_filled :
    (payFields.map (·.1)).Nodup ∧ Plain (payDesk.substitutionsOf payFields) payText.toList ∧
      ∀ fields ∈ [payFields, payFields.reverse],
        (payDesk.stateMachine (machine payText fields)).value.definition =
          .object [("Resource", .string "pay.Arn"), ("InputPath", .string "$.order"),
            ("Comment", .string "run by Ann")] := by
  have hnodup : (payFields.map (·.1)).Nodup := by decide
  have hvalues : payDesk.substitutionsOf payFields =
      [("PayArn", "pay.Arn"), ("Note", "run by Ann")] := rfl
  have htext : (Expression.resolveText payDesk.ctx (.string payText)).value = payText := rfl
  have hplain : Plain (payDesk.substitutionsOf payFields) payText.toList := by
    rw [hvalues]
    exact ⟨by decide, by decide, by decide +kernel⟩
  have hfilled : fillAll (payDesk.substitutionsOf payFields) payText =
      "\x7b\"Resource\":\"pay.Arn\",\"InputPath\":\"$.order\",\"Comment\":\"run by Ann\"\x7d" := by
    decide +kernel
  obtain ⟨hapart, hdefinition⟩ := definition_filled_at_once payDesk (.string payText) hnodup
  rw [htext] at hapart hdefinition
  refine ⟨hnodup, hplain, fun fields hfields => ?_⟩
  have hperm : fields.Perm payFields := by
    rcases List.mem_cons.1 hfields with rfl | hfields
    · exact .refl _
    · rw [List.mem_singleton.1 hfields]
      exact List.reverse_perm _
  rw [hdefinition (hapart hplain) (machine payText fields) fields rfl rfl hperm, hfilled]
  show (Json.read? (String.ofList _)).getD _ = _
  rw [Json.read?_ofList rfl]
  rfl

/-- A map in which one value holds the placeholder of the other key. -/
def noteFields : Json.Fields :=
  [("Note", .string "ask $\x7bOwner\x7d"), ("Owner", .string "Ann")]

/-- The order of a map shows where its keys do not stay apart: the placeholder in a value is filled
when its key comes later, although it is not in the text, and stays when its key comes first. -/
theorem definition_depends_on_order :
    (noteFields.map (·.1)).Nodup ∧
      definitionOfText (fillAll (payDesk.substitutionsOf noteFields) "$\x7bNote\x7d") =
        .string "ask $\x7bOwner\x7d" ∧
      (payDesk.stateMachine (machine "$\x7bNote\x7d" noteFields.reverse)).value.definition =
        .string "ask $\x7bOwner\x7d" ∧
      (payDesk.stateMachine (machine "$\x7bNote\x7d" noteFields)).value.definition =
        .string "ask Ann" := by
  have hvalues : payDesk.substitutionsOf noteFields =
      [("Note", "ask $\x7bOwner\x7d"), ("Owner", "Ann")] := rfl
  have hvalues' : payDesk.substitutionsOf noteFields.reverse =
      [("Owner", "Ann"), ("Note", "ask $\x7bOwner\x7d")] := rfl
  have hkept : definitionOfText "ask $\x7bOwner\x7d" = .string "ask $\x7bOwner\x7d" := rfl
  have hasked : definitionOfText "ask Ann" = .string "ask Ann" := rfl
  have htext : (Expression.resolveText payDesk.ctx (.string "$\x7bNote\x7d")).value =
      "$\x7bNote\x7d" := rfl
  refine ⟨by decide, ?_, ?_, ?_⟩
  · rw [hvalues, ← hkept]
    exact congrArg definitionOfText (by decide +kernel)
  · rw [definition_stateMachine rfl rfl, hvalues', htext, ← hkept]
    exact congrArg definitionOfText (by decide +kernel)
  · rw [definition_stateMachine rfl rfl, hvalues, htext, ← hasked]
    exact congrArg definitionOfText (by decide +kernel)

end LocalCloud.Projector
