import LocalCloud.Proofs.Model.RuleHomes
import Mathlib.Data.List.Perm.Basic

/-!
# No rule is lost

Every included rule of any template has one home (`Model.home`): a bus of its own template, or the
first bus of all templates that has the name it asks for, or the bus that is made for those that ask
for the default bus, or none.  All buses together hold every rule that has a home, once, and nothing
else (`Model.rules_conserved`).
-/

namespace LocalCloud

/-- A rule in one of the templates. -/
structure RuleSource where
  template : Template
  resource : Resource

namespace RuleSource

variable (x : RuleSource)

/-- The rule itself. -/
def rule : Model.Rule := x.template.projector.ruleAt x.resource

/-- The name of the bus that the rule asks for. -/
def busName : String := x.template.projector.busNameAt x.resource

/-- The place of its bus in its own template. -/
def ownBus? : Option Nat := x.template.projector.ownBus? x.resource

/-- The rule as it is left over. -/
def detached : DetachedRule := x.template.projector.detachedAt x.resource

end RuleSource

/-- Where a rule goes. -/
inductive RuleHome where
  /-- To a bus of its own template. -/
  | own (place : Nat)
  /-- To a bus of any template. -/
  | shared (place : Nat)
  /-- To the bus that is made for the rules that ask for the default bus. -/
  | implicit
  /-- It is dropped. -/
  | nowhere
  deriving DecidableEq

namespace RuleHome

/-- Whether a rule goes to a bus of its own template. -/
def isOwn : RuleHome → Bool
  | own _ => true
  | _ => false

/-- Whether a rule goes to a bus that may be in another template. -/
def isShared : RuleHome → Bool
  | shared _ => true
  | _ => false

/-- Whatever has a home of some kind is among those of that kind, and once. -/
theorem perm_filter {α : Type} (home : α → RuleHome) (xs : List α) :
    (xs.filter (home · |>.isOwn) ++ (xs.filter (home · |>.isShared) ++
      (xs.filter (home · == .implicit) ++ xs.filter (home · == .nowhere)))).Perm xs := by
  induction xs with
  | nil => exact List.Perm.nil
  | cons x xs ih =>
    have hx := ih.cons x
    cases hhome : home x with
    | own => simpa [hhome, isOwn, isShared] using ih
    | shared =>
      have hmoved := List.perm_middle.trans hx
      simpa [hhome, isOwn, isShared] using hmoved
    | implicit =>
      have hmoved := (List.perm_middle.append_left _).trans (List.perm_middle.trans hx)
      simpa [hhome, isOwn, isShared] using hmoved
    | nowhere =>
      have hmoved := ((List.perm_middle.append_left _).append_left _).trans
        ((List.perm_middle.append_left _).trans (List.perm_middle.trans hx))
      simpa [hhome, isOwn, isShared] using hmoved

end RuleHome

namespace Model

/-- All included rules, template by template. -/
def ruleSources (templates : List Template) : List RuleSource :=
  templates.flatMap fun t => t.projector.ruleResources.map fun r => ⟨t, r⟩

/-- The place, among the buses of all templates, of the first one that has the name a rule asks
for. -/
def sharedBus? (templates : List Template) (x : RuleSource) : Option Nat :=
  busNamed? (merged templates).buses x.busName

/-- Where a rule goes: to a bus of its own template, else to the first of all buses that has the
name it asks for, else to the bus that is made if it asks for the default bus. -/
def home (templates : List Template) (x : RuleSource) : RuleHome :=
  match x.ownBus?, sharedBus? templates x with
  | some i, _ => .own i
  | none, some j => .shared j
  | none, none => if x.busName = defaultBus then .implicit else .nowhere

/-- The rules that go to the same place, in order. -/
def sentTo (templates : List Template) (h : RuleHome) : List Rule :=
  ((ruleSources templates).filter (home templates · == h)).map (·.rule)

/-- The rules that find no bus in their own template. -/
def strays (templates : List Template) : List RuleSource :=
  (ruleSources templates).filter (·.ownBus?.isNone)

section Home

variable {templates : List Template} {x : RuleSource} {j : Nat}

/-- The homes that a rule can have, and which rules have them. -/
theorem home_cases (templates : List Template) (x : RuleSource) :
    (∃ i, x.ownBus? = some i ∧ home templates x = .own i) ∨
    (∃ j, x.ownBus? = none ∧ sharedBus? templates x = some j ∧ home templates x = .shared j) ∨
    (x.ownBus? = none ∧ sharedBus? templates x = none ∧ x.busName = defaultBus ∧
      home templates x = .implicit) ∨
    (x.ownBus? = none ∧ sharedBus? templates x = none ∧ x.busName ≠ defaultBus ∧
      home templates x = .nowhere) := by
  unfold home
  cases x.ownBus? with
  | some i => simp
  | none =>
    cases sharedBus? templates x with
    | some j => simp
    | none => by_cases hname : x.busName = defaultBus <;> simp [hname]

theorem home_eq_shared_iff :
    home templates x = .shared j ↔ x.ownBus? = none ∧ sharedBus? templates x = some j := by
  rcases home_cases templates x with ⟨i, h, hx⟩ | ⟨i, h, h', hx⟩ | ⟨h, h', -, hx⟩ | ⟨h, h', -, hx⟩
  all_goals simp [*]

theorem home_eq_implicit_iff : home templates x = .implicit ↔
    x.ownBus? = none ∧ sharedBus? templates x = none ∧ x.busName = defaultBus := by
  rcases home_cases templates x with ⟨i, h, hx⟩ | ⟨i, h, h', hx⟩ | ⟨h, h', _, hx⟩ | ⟨h, h', _, hx⟩
  all_goals simp [*]

theorem home_eq_nowhere_iff : home templates x = .nowhere ↔
    x.ownBus? = none ∧ sharedBus? templates x = none ∧ x.busName ≠ defaultBus := by
  rcases home_cases templates x with ⟨i, h, hx⟩ | ⟨i, h, h', hx⟩ | ⟨h, h', _, hx⟩ | ⟨h, h', _, hx⟩
  all_goals simp [*]

theorem isOwn_home : (home templates x).isOwn = x.ownBus?.isSome := by
  rcases home_cases templates x with ⟨i, h, hx⟩ | ⟨i, h, -, hx⟩ | ⟨h, -, -, hx⟩ | ⟨h, -, -, hx⟩
  all_goals simp [h, hx, RuleHome.isOwn]

theorem isShared_home : (home templates x).isShared =
    ((sharedBus? templates x).isSome && x.ownBus?.isNone) := by
  rcases home_cases templates x with ⟨i, h, hx⟩ | ⟨i, h, h', hx⟩ | ⟨h, h', -, hx⟩ | ⟨h, h', -, hx⟩
  all_goals simp [*, RuleHome.isShared]

theorem ownBus?_eq_none_iff :
    x.ownBus? = none ↔ ¬ x.template.projector.FindsBus x.resource :=
  Projector.ownBus?_eq_none_iff

theorem sharedBus?_eq_none_iff : sharedBus? templates x = none ↔
    ∀ b ∈ (merged templates).buses, b.name ≠ x.busName := by
  rw [sharedBus?, busNamed?, List.findIdx?_eq_none_iff]
  simp only [beq_eq_false_iff_ne, ne_eq]

end Home

/-! ### The buses in the end -/

theorem buses_foldl_merge (ms : List Model) (m : Model) :
    (ms.foldl merge m).buses = m.buses ++ ms.flatMap (·.buses) := by
  induction ms generalizing m with
  | nil => simp
  | cons part rest ih => rw [List.foldl_cons, ih, merge, List.append_assoc, List.flatMap_cons]

theorem buses_merged (templates : List Template) :
    (merged templates).buses = templates.flatMap (·.projector.homeBuses) := by
  rw [merged, buses_foldl_merge, List.flatMap_map]
  exact List.flatMap_congr fun t _ => t.buses_projection

theorem detached_templates (templates : List Template) :
    templates.flatMap (·.projection.detached) = (strays templates).map (·.detached) := by
  rw [strays, ruleSources, List.filter_flatMap, List.map_flatMap]
  refine List.flatMap_congr fun t _ => ?_
  rw [t.homed_projection.detached, List.filter_map, List.map_map]
  rfl

/-- Of the rules that find no bus in their own template, those that go to one place. -/
theorem sentTo_eq_of_strays (templates : List Template) {h : RuleHome} {f : RuleSource → Bool}
    (hf : ∀ x, home templates x = h ↔ x.ownBus? = none ∧ f x = true) :
    ((strays templates).filter f).map (·.rule) = sentTo templates h := by
  rw [sentTo, strays, List.filter_filter]
  congr 1
  refine List.filter_congr fun x _ => ?_
  rw [Bool.eq_iff_iff, beq_iff_eq, hf]
  simp [and_comm]

/-- The rules that find no bus in their own template are put on a bus of any template, or on the one
that is made for them. -/
theorem buses_ofTemplates (templates : List Template) : (ofTemplates templates).buses =
    routed (sharedBus? templates) (·.rule) (strays templates)
        (templates.flatMap (·.projector.homeBuses)) ++
      implicitBuses (sentTo templates .implicit) := by
  have himplicit : ((strays templates).filter
      fun x => asksForImplicit (merged templates).buses x.detached).map (·.rule) =
        sentTo templates .implicit := by
    refine sentTo_eq_of_strays templates fun x => ?_
    rw [home_eq_implicit_iff]
    simp only [asksForImplicit, Bool.and_eq_true, Option.isNone_iff_eq_none, beq_iff_eq]
    rfl
  rw [ofTemplates, value_attachRules, detached_templates, ← himplicit, ← buses_merged]
  show withDetached (merged templates).buses _ = _
  rw [withDetached, routed_map, List.filter_map, List.map_map]
  rfl

theorem buses_ofTemplates_eq (templates : List Template) : (ofTemplates templates).buses =
    (templates.flatMap (·.projector.homeBuses)).mapIdx (fun j b =>
      { b with rules := b.rules ++ sentTo templates (.shared j) }) ++
      implicitBuses (sentTo templates .implicit) := by
  have hshared : ∀ j, ((strays templates).filter (sharedBus? templates · == some j)).map (·.rule) =
      sentTo templates (.shared j) := fun j =>
    sentTo_eq_of_strays templates fun x => by rw [home_eq_shared_iff, beq_iff_eq]
  rw [buses_ofTemplates, routed]
  simp only [hshared]

/-! ### Conservation -/

/-- All buses of one template together hold the rules that find their bus there. -/
theorem perm_homeBuses (p : Projector) : (p.homeBuses.flatMap (·.rules)).Perm
    ((p.ruleResources.filter (p.ownBus? · |>.isSome)).map p.ruleAt) := by
  have hperm : (p.homeBuses.flatMap (·.rules)).Perm
      ((p.busResources.map p.bus).flatMap (·.rules) ++
        (p.ruleResources.filter (p.ownBus? · |>.isSome)).map p.ruleAt) := by
    rw [p.homeBuses_eq]
    refine perm_routed fun r _ i hi => ?_
    rw [List.length_map]
    exact Projector.lt_of_ownBus? hi
  have hempty : (p.busResources.map p.bus).flatMap (·.rules) = [] := by
    rw [List.flatMap_map]
    exact List.flatMap_eq_nil_iff.2 fun b _ => rfl
  rwa [hempty, List.nil_append] at hperm

/-- The buses of all templates together hold the rules that find their bus in their own template. -/
theorem perm_merged (templates : List Template) :
    ((templates.flatMap (·.projector.homeBuses)).flatMap (·.rules)).Perm
      (((ruleSources templates).filter (home templates · |>.isOwn)).map (·.rule)) := by
  have hrules : ((ruleSources templates).filter (home templates · |>.isOwn)).map (·.rule) =
      templates.flatMap fun t =>
        (t.projector.ruleResources.filter (t.projector.ownBus? · |>.isSome)).map
          t.projector.ruleAt := by
    rw [List.filter_congr fun x _ => isOwn_home, ruleSources, List.filter_flatMap,
      List.map_flatMap]
    refine List.flatMap_congr fun t _ => ?_
    rw [List.filter_map, List.map_map]
    rfl
  rw [hrules, List.flatMap_assoc]
  exact List.Perm.flatMap_left _ fun t _ => perm_homeBuses t.projector

theorem rules_implicitBuses (rules : List Rule) :
    (implicitBuses rules).flatMap (·.rules) = rules := by
  cases rules <;> simp [implicitBuses]

/-- All buses together hold all rules but those that are dropped. -/
theorem perm_ofTemplates (templates : List Template) :
    ((ofTemplates templates).buses.flatMap (·.rules) ++ sentTo templates .nowhere).Perm
      ((ruleSources templates).map (·.rule)) := by
  have hshared : ((routed (sharedBus? templates) (·.rule) (strays templates)
      (templates.flatMap (·.projector.homeBuses))).flatMap (·.rules)).Perm
        ((templates.flatMap (·.projector.homeBuses)).flatMap (·.rules) ++
          ((strays templates).filter (sharedBus? templates · |>.isSome)).map (·.rule)) := by
    refine perm_routed fun x _ j hj => ?_
    rw [← buses_merged]
    exact (List.findIdx?_eq_some_iff_findIdx_eq.1 hj).1
  have hstrays : (strays templates).filter (sharedBus? templates · |>.isSome) =
      (ruleSources templates).filter (home templates · |>.isShared) := by
    rw [strays, List.filter_filter]
    exact List.filter_congr fun x _ => isShared_home.symm
  rw [hstrays] at hshared
  have hhomes := (RuleHome.perm_filter (home templates) (ruleSources templates)).map (·.rule)
  simp only [List.map_append] at hhomes
  have hall := (hshared.trans ((perm_merged templates).append_right _)).append_right
    (sentTo templates .implicit ++ sentTo templates .nowhere)
  rw [List.append_assoc] at hall
  rw [buses_ofTemplates, List.flatMap_append, rules_implicitBuses, List.append_assoc]
  exact hall.trans hhomes

/-! ### The bus that is made -/

/-- No bus of a template is taken for the one that is made. -/
theorem id_ne_defaultBus_of_mem {templates : List Template} {b : Bus}
    (h : b ∈ templates.flatMap (·.projector.homeBuses)) : b.id ≠ defaultBus := by
  obtain ⟨t, -, hb⟩ := List.mem_flatMap.1 h
  rw [t.projector.homeBuses_eq] at hb
  obtain ⟨_, hmade, hentry⟩ := exists_of_mem_routed hb
  obtain ⟨r, -, rfl⟩ := List.mem_map.1 hmade
  have hid : b.id = t.projector.idOf r.logicalId := congrArg (·.id) hentry.symm
  rw [hid]
  exact t.projector.idOf_ne_defaultBus r.logicalId

/-- The only bus with the id of the default bus is the one that is made, if one is made. -/
theorem countP_defaultBus (templates : List Template) :
    (ofTemplates templates).buses.countP (·.id == defaultBus) =
      if (sentTo templates .implicit).isEmpty then 0 else 1 := by
  have hmodelled : (routed (sharedBus? templates) (·.rule) (strays templates)
      (templates.flatMap (·.projector.homeBuses))).countP (·.id == defaultBus) = 0 := by
    refine List.countP_eq_zero.2 fun b hb hid => ?_
    obtain ⟨b', hmem, hentry⟩ := exists_of_mem_routed hb
    have hsame : b'.id = b.id := congrArg (·.id) hentry
    exact id_ne_defaultBus_of_mem hmem (hsame.trans (by simpa using hid))
  rw [buses_ofTemplates, List.countP_append, hmodelled, Nat.zero_add]
  cases sentTo templates .implicit with
  | nil => rfl
  | cons first more => rfl

/-- No rule is lost and none is there twice.  In the end the buses are those of the templates, each
with the rules that go to it from its own template and, behind them, those that no bus of their own
template has taken and that ask for its name, if it is the first bus with that name; and one more
bus if there are rules that ask for the default bus where no bus has that name.  On each bus both
lists are in the order of the templates.  All buses together hold each included rule once, except
for those that are dropped.  These are the rules that ask for another bus than the default one, find
none in their own template, and ask for a name that no bus has. -/
theorem rules_conserved (templates : List Template) :
    (ofTemplates templates).buses =
      (templates.flatMap (·.projector.homeBuses)).mapIdx (fun j b =>
        { b with rules := b.rules ++ sentTo templates (.shared j) }) ++
        implicitBuses (sentTo templates .implicit) ∧
    ((ofTemplates templates).buses.flatMap (·.rules) ++ sentTo templates .nowhere).Perm
      ((ruleSources templates).map (·.rule)) ∧
    (∀ x, home templates x = .nowhere ↔
      x.busName ≠ defaultBus ∧ ¬ x.template.projector.FindsBus x.resource ∧
        ∀ b ∈ (merged templates).buses, b.name ≠ x.busName) ∧
    (∀ x, home templates x = .implicit ↔
      x.busName = defaultBus ∧ ¬ x.template.projector.FindsBus x.resource ∧
        ∀ b ∈ (merged templates).buses, b.name ≠ x.busName) ∧
    (ofTemplates templates).buses.countP (·.id == defaultBus) =
      (if (sentTo templates .implicit).isEmpty then 0 else 1) ∧
    ((ofTemplates templates).buses.flatMap (·.rules)).length +
      (sentTo templates .nowhere).length = (ruleSources templates).length := by
  have hperm := perm_ofTemplates templates
  refine ⟨buses_ofTemplates_eq templates, hperm, fun x => ?_, fun x => ?_,
    countP_defaultBus templates, ?_⟩
  · rw [home_eq_nowhere_iff, ownBus?_eq_none_iff, sharedBus?_eq_none_iff]
    tauto
  · rw [home_eq_implicit_iff, ownBus?_eq_none_iff, sharedBus?_eq_none_iff]
    tauto
  · have hlength := hperm.length_eq
    rwa [List.length_append, List.length_map] at hlength

/-- A template of rules that ask for these buses. -/
def ruleStack (stack : String) (resources : List Resource) (rules : List (String × Json)) :
    Template where
  stack
  resources := resources ++ rules.map fun (name, bus) =>
    { logicalId := name, type := ResourceType.eventRule, dependsOn := [], condition := none,
      properties := .object [("EventBusName", bus)], metadata := [] }

/-- A rule of the one stack is put on the bus of the other one, behind a rule from there; those that
ask for the default bus share one; and the rule that asks for an archive is dropped. -/
example :
    (ofTemplates
      [ruleStack "Audit" [] [("Copy", .string "orders"), ("Hourly", .string "default")],
       ruleStack "Shop"
        [{ logicalId := "Orders", type := ResourceType.eventBus, dependsOn := [],
           condition := none, properties := .object [("Name", .string "orders")],
           metadata := [] }]
        [("Paid", .object [("Ref", .string "Orders")]), ("Lost", .string "archive"),
         ("Nightly", .string "")]]).buses.map
      (fun b => (b.id, b.rules.map (·.logicalId))) =
        [("Shop/Orders", ["Paid", "Copy"]), ("default", ["Hourly", "Nightly"])] := by
  decide +kernel

end Model

end LocalCloud
