import LocalCloud.Proofs.Model.Closure
import LocalCloud.Proofs.Model.Routing

/-!
# Where the rules of a template go

The rules of a template are attached one after another, when all of its buses have their entries.  A
rule goes to the included bus that it refers to, else to the first one that has the name it asks for
(`Projector.ownBus?`), and a rule that finds no bus in this way is left over.  So each bus holds in
the end the rules whose place it is, in the order of the template (`Projector.homeBuses`), and what
is left over is all the others (`Template.homed_projection`).
-/

namespace LocalCloud

namespace Projector

variable (p : Projector)

/-- The included buses, in the order of the template. -/
def busResources : List Resource := p.included.filter (·.type == ResourceType.eventBus)

/-- The included rules, in the order of the template. -/
def ruleResources : List Resource := p.included.filter (·.type == ResourceType.eventRule)

/-- The rule that a resource describes. -/
def ruleAt (r : Resource) : Model.Rule := p.ruleOf r (p.properties r).value

/-- The name of the bus that a rule asks for. -/
def busNameAt (r : Resource) : String :=
  ((p.properties r).value.textAt? "EventBusName").getD Model.defaultBus

/-- The place, among the buses of its own template, of the bus that a rule goes to: of the one that
it refers to, else of the first one that has the name it asks for. -/
def ownBus? (r : Resource) : Option Nat :=
  (((r.property? "EventBusName").bind (p.link? · [ResourceType.eventBus])).bind fun id =>
    p.busResources.findIdx? fun b => p.idOf b.logicalId == id).or
    (p.busResources.findIdx? fun b => p.nameOf b == p.busNameAt r)

/-- A rule as it is left over. -/
def detachedAt (r : Resource) : DetachedRule := ⟨p.template.stack, p.busNameAt r, p.ruleAt r⟩

/-- The buses of the template, each with the rules that go to it from there. -/
def homeBuses : List Model.Bus :=
  p.busResources.mapIdx fun i b =>
    { p.bus b with rules := (p.ruleResources.filter (p.ownBus? · == some i)).map p.ruleAt }

theorem homeBuses_eq :
    p.homeBuses = Model.routed p.ownBus? p.ruleAt p.ruleResources (p.busResources.map p.bus) := by
  refine List.ext_getElem? fun i => ?_
  simp [homeBuses, Model.routed, bus, Function.comp_def]

variable {p} {r : Resource} {out : Projection}

theorem buses_addEntry (m : Model) (r : Resource) : (p.addEntry m r).value.buses =
    m.buses ++ ([r].filter (·.type == ResourceType.eventBus)).map p.bus := by
  by_cases hbus : r.type = ResourceType.eventBus
  · rw [addEntry, List.filter_cons_of_pos (by simpa using hbus), hbus]
    rfl
  · rw [List.filter_cons_of_neg (by simpa using hbus)]
    unfold addEntry
    repeat' split
    all_goals simp_all

/-- All included buses have an entry before the first rule is put on one. -/
theorem buses_entries (m : Model) (rs : List Resource) :
    (rs.foldl (fun m r => (p.addEntry m r).value) m).buses =
      m.buses ++ (rs.filter (·.type == ResourceType.eventBus)).map p.bus := by
  induction rs generalizing m with
  | nil => simp
  | cons r rest ih =>
    rw [List.foldl_cons, ih, buses_addEntry, List.append_assoc, ← List.map_append,
      ← List.filter_append]
    rfl

/-- Where the rules are that have been attached so far. -/
structure Homed (p : Projector) (rules : List Resource) (out : Projection) : Prop where
  buses : out.model.buses = Model.routed p.ownBus? p.ruleAt rules (p.busResources.map p.bus)
  detached : out.detached = (rules.filter fun r => (p.ownBus? r).isNone).map p.detachedAt

namespace Homed

variable {rules : List Resource}

/-- The buses can be told from each other by what never changes about them. -/
theorem findIdx?_buses (h : p.Homed rules out) (f : Model.Entry → Bool) :
    out.model.buses.findIdx? (fun b => f b.toEntry) =
      p.busResources.findIdx? (fun b => f (p.entry b)) := by
  have hentries : out.model.buses.map (·.toEntry) = p.busResources.map p.entry := by
    rw [h.buses, Model.map_toEntry_routed, List.map_map]
    rfl
  have hplaces := congrArg (List.findIdx? f) hentries
  rwa [List.findIdx?_map, List.findIdx?_map] at hplaces

/-- A rule goes to its bus, or it is left over. -/
theorem attachRule (h : p.Homed rules out) (r : Resource) :
    p.Homed (rules ++ [r]) (p.attachRule r out).value := by
  have hid : ∀ id, out.model.buses.findIdx? (·.id == id) =
      p.busResources.findIdx? fun b => p.idOf b.logicalId == id :=
    fun id => h.findIdx?_buses (·.id == id)
  have hname : ∀ name, out.model.buses.findIdx? (·.name == name) =
      p.busResources.findIdx? fun b => p.nameOf b == name :=
    fun name => h.findIdx?_buses (·.name == name)
  unfold Projector.attachRule
  simp only [Noted.value_bind, hid, hname]
  split
  · next i hplace =>
    have hown : p.ownBus? r = some i := hplace
    constructor
    · rw [Model.routed_snoc_of_some hown, ← h.buses]
      rfl
    · show out.detached = _
      rw [h.detached, List.filter_append, List.filter_cons_of_neg (by simp [hown]),
        List.filter_nil, List.append_nil]
  · next hplace =>
    have hown : p.ownBus? r = none := hplace
    constructor
    · rw [Model.routed_snoc_of_none hown, ← h.buses]
      rfl
    · show out.detached ++ [p.detachedAt r] = _
      rw [h.detached, List.filter_append, List.filter_cons_of_pos (by simp [hown]),
        List.filter_nil, List.map_append, List.map_singleton]

/-- Only rules are put on buses or left over. -/
theorem attach (h : p.Homed rules out) (r : Resource) :
    p.Homed (rules ++ [r].filter (·.type == ResourceType.eventRule)) (p.attach out r).value := by
  by_cases hrule : r.type = ResourceType.eventRule
  · rw [List.filter_cons_of_pos (by simpa using hrule), List.filter_nil, Projector.attach, hrule]
    exact h.attachRule r
  · rw [List.filter_cons_of_neg (by simpa using hrule), List.filter_nil, List.append_nil]
    unfold Projector.attach
    split
    · exact ⟨h.buses, h.detached⟩
    · rw [if_neg (by simpa using hrule)]
      split
      · exact ⟨h.buses, h.detached⟩
      · exact h

theorem foldl (h : p.Homed rules out) (rs : List Resource) :
    p.Homed (rules ++ rs.filter (·.type == ResourceType.eventRule))
      (rs.foldl (fun out r => (p.attach out r).value) out) := by
  induction rs generalizing rules out with
  | nil => simpa using h
  | cons r rest ih =>
    have hrest := ih (h.attach r)
    rw [List.append_assoc, ← List.filter_append] at hrest
    exact hrest

end Homed

theorem lt_of_ownBus? {i : Nat} (h : p.ownBus? r = some i) : i < p.busResources.length := by
  rcases Option.or_eq_some_iff.1 h with hlinked | ⟨-, hnamed⟩
  · obtain ⟨id, -, hid⟩ := Option.bind_eq_some_iff.1 hlinked
    exact (List.findIdx?_eq_some_iff_findIdx_eq.1 hid).1
  · exact (List.findIdx?_eq_some_iff_findIdx_eq.1 hnamed).1

/-! ### Rules that find no bus in their template -/

/-- A value that links to no bus refers to no included one. -/
theorem link?_eventBus_eq_none_iff (raw : Json) :
    p.link? raw [ResourceType.eventBus] = none ↔
      ∀ id ∈ Expression.references raw, ∀ b, p.resource? id = some b →
        b.type ≠ ResourceType.eventBus := by
  rw [link?, Option.map_eq_none_iff, List.head?_eq_none_iff, referenced, List.filter_eq_nil_iff]
  constructor
  · intro h id hid b hb htype
    exact h b (List.mem_filterMap.2 ⟨id, hid, hb⟩) (by simp [htype])
  · intro h b hb htype
    obtain ⟨id, hid, hfound⟩ := List.mem_filterMap.1 hb
    exact h id hid b hfound (by simpa using htype)

/-- Whether a rule refers to an included bus of its template or asks for one by its name. -/
def FindsBus (p : Projector) (r : Resource) : Prop :=
  (∃ raw, r.property? "EventBusName" = some raw ∧ ∃ id ∈ Expression.references raw, ∃ b,
    p.resource? id = some b ∧ b.type = ResourceType.eventBus) ∨
  ∃ b ∈ p.busResources, p.nameOf b = p.busNameAt r

/-- What a rule links to is an included bus, and so has a place among these. -/
theorem findIdx?_link?_eq_none_iff (raw : Json) :
    (p.link? raw [ResourceType.eventBus]).bind
        (fun id => p.busResources.findIdx? fun b => p.idOf b.logicalId == id) = none ↔
      p.link? raw [ResourceType.eventBus] = none := by
  cases hlink : p.link? raw [ResourceType.eventBus] with
  | none => simp
  | some id =>
    obtain ⟨b, hb, rfl⟩ := Option.map_eq_some_iff.1 hlink
    obtain ⟨hfound, htype⟩ := List.mem_filter.1 (List.mem_of_head? hb)
    obtain ⟨id, -, hid⟩ := List.mem_filterMap.1 hfound
    have hmem : b ∈ p.busResources :=
      List.mem_filter.2 ⟨mem_included_of_resource? hid, by simpa using htype⟩
    simpa using ⟨b, hmem, rfl⟩

/-- A rule finds no place in its own template just when it finds no bus there. -/
theorem ownBus?_eq_none_iff : p.ownBus? r = none ↔ ¬ p.FindsBus r := by
  rw [ownBus?, Option.or_eq_none_iff, List.findIdx?_eq_none_iff, FindsBus, not_or]
  refine and_congr ?_ (by simp)
  cases hraw : r.property? "EventBusName" with
  | none => simp
  | some raw =>
    rw [Option.bind_some, findIdx?_link?_eq_none_iff, link?_eventBus_eq_none_iff]
    simp

end Projector

namespace Template

theorem homed_projection (t : Template) :
    t.projector.Homed t.projector.ruleResources t.projection := by
  have hstart : t.projector.Homed []
      { model := t.projector.included.foldl (fun m r => (t.projector.addEntry m r).value) {} } := by
    constructor
    · rw [Projector.buses_entries, Model.routed_nil]
      rfl
    · rfl
  rw [projection_eq]
  exact hstart.foldl t.projector.included

theorem buses_projection (t : Template) : t.projection.model.buses = t.projector.homeBuses := by
  rw [t.homed_projection.buses, Projector.homeBuses_eq]

end Template

end LocalCloud
