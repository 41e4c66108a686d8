import LocalCloud.Proofs.Expression.Values
import LocalCloud.Proofs.Graph.Order
import LocalCloud.Proofs.Model.Closure
import LocalCloud.Proofs.Model.Edges
import LocalCloud.Proofs.Template.Names

/-!
# What the environment of a function waits for

A reference in the environment of a function is only a text once it is resolved, and the graph finds
it again by the name in that text.  It finds what the raw value names: by a `Ref`, by an attribute,
or by an identifier put together with the name behind `/` or `:` (`Names`).  Then the function waits
for the resource, and comes after it in every order of the graph (`environment_waits`).
-/

namespace LocalCloud

/-! ## Texts that name a resource -/

section Text

variable {name : String} (hname : name ≠ "")

include hname

theorem namesResource_self : namesResource name name = true :=
  namesResource_iff.2 ⟨hname, .inl rfl⟩

theorem namesResource_attribute (attr : String) :
    namesResource (name ++ "." ++ attr) name = true :=
  namesResource_iff.2 ⟨hname, .inr (.inl ⟨attr, rfl⟩)⟩

theorem namesResource_behind {front : String}
    (h : Text.endsWith "/" front = true ∨ Text.endsWith ":" front = true) :
    namesResource (front ++ name) name = true := by
  rw [namesResource_iff]
  rcases h with h | h
  · obtain ⟨front, rfl⟩ := Text.exists_of_endsWith h
    exact ⟨hname, .inr (.inr (.inl ⟨front, rfl⟩))⟩
  · obtain ⟨front, rfl⟩ := Text.exists_of_endsWith h
    exact ⟨hname, .inr (.inr (.inr ⟨front, rfl⟩))⟩

end Text

namespace Expression

/-- A raw value that is resolved down to a number of levels and names a logical id: a reference to
it, to an attribute of it, or a list of parts written one after another, of which the last one is
such a reference and those before it end in `/` or `:`. -/
inductive Names (ctx : Context) (levels : Nat) (id : String) : Json → Prop
  | ref {key : String} (hkey : Intrinsic.ofKey? key = some .ref) :
    Names ctx levels id (.object [(key, .string id)])
  | getAtt {key attr : String} (hkey : Intrinsic.ofKey? key = some .getAtt) :
    Names ctx levels id (.object [(key, .array [.string id, .string attr])])
  | join {key refKey : String} {delimiter : Json} {before : List Json}
    (hkey : Intrinsic.ofKey? key = some .join) (href : Intrinsic.ofKey? refKey = some .ref)
    (hdelimiter : textWithin ctx (levels - 1) delimiter = "")
    (hbefore : Text.endsWith "/" (Text.join "" (before.map (textWithin ctx (levels - 2)))) = true ∨
      Text.endsWith ":" (Text.join "" (before.map (textWithin ctx (levels - 2)))) = true) :
    Names ctx levels id
      (.object [(key, .array [delimiter, .array (before ++ [.object [(refKey, .string id)]])])])

/-- The text of such a value names whatever the logical id is bound to. -/
theorem Names.namesResource {ctx : Context} {levels : Nat} {id name : String} {v : Json}
    (h : Names ctx (levels + 3) id v) (hid : ctx.resource? id = some name) (hname : name ≠ "") :
    namesResource (textWithin ctx (levels + 3) v) name = true := by
  cases h with
  | ref hkey =>
    rw [textWithin, valueWithin_ref hid hkey]
    exact namesResource_self hname
  | @getAtt _ attr hkey =>
    rw [textWithin, valueWithin_getAtt hid hkey, textWithin, valueWithin_string]
    exact namesResource_attribute hname attr
  | @join key refKey delimiter before hkey href hdelimiter hbefore =>
    have hparts : valueWithin ctx (levels + 2)
        (.array (before ++ [.object [(refKey, .string id)]])) =
        .array (before.map (valueWithin ctx (levels + 1)) ++ [.string name]) := by
      rw [valueWithin_array, List.map_append, List.map_singleton, valueWithin_ref hid href]
    have hdelimiter : textWithin ctx (levels + 2) delimiter = "" := hdelimiter
    have htext : textWithin ctx (levels + 3) (.object [(key, .array [delimiter, .array
        (before ++ [.object [(refKey, .string id)]])])]) =
        Text.join "" (before.map (textWithin ctx (levels + 1))) ++ name := by
      rw [textWithin, valueWithin_join hkey hparts, hdelimiter, List.map_append, List.map_map]
      exact Text.join_empty_append _ name
    rw [htext]
    exact namesResource_behind hname hbefore

end Expression

/-! ## What stays while a template is projected -/

namespace Model

/-- A model in which functions can name all that they can name in another one, and in which all
functions of that other one are, with their environments. -/
structure Keeps (m m' : Model) : Prop where
  nameable : m.nameable ⊆ m'.nameable
  functions : ∀ f ∈ m.functions, ∃ f' ∈ m'.functions,
    f'.id = f.id ∧ f'.environment = f.environment

namespace Keeps

variable {m m₁ m₂ m₃ : Model}

theorem refl (m : Model) : m.Keeps m where
  nameable := List.Subset.refl _
  functions := fun f hf => ⟨f, hf, rfl, rfl⟩

theorem trans (h : m₁.Keeps m₂) (h' : m₂.Keeps m₃) : m₁.Keeps m₃ where
  nameable := List.Subset.trans h.nameable h'.nameable
  functions := by
    intro f hf
    obtain ⟨f', hf', hid, henvironment⟩ := h.functions f hf
    obtain ⟨f'', hf'', hid', henvironment'⟩ := h'.functions f' hf'
    exact ⟨f'', hf'', hid'.trans hid, henvironment'.trans henvironment⟩

theorem foldl {α : Type} {f : Model → α → Model} (hf : ∀ m x, Keeps m (f m x)) (xs : List α)
    (m : Model) : m.Keeps (xs.foldl f m) := by
  refine List.foldlRecOn xs f (refl m) fun m' h x _ => ?_
  exact h.trans (hf m' x)

theorem merge (m other : Model) : m.Keeps (m.merge other) where
  nameable := by
    intro e he
    simp only [Model.nameable, Model.merge, List.filter_append, List.map_append,
      List.mem_append] at he ⊢
    tauto
  functions := fun f hf => ⟨f, List.mem_append_left _ hf, rfl, rfl⟩

theorem merge_right (m other : Model) : other.Keeps (m.merge other) where
  nameable := by
    intro e he
    simp only [Model.nameable, Model.merge, List.filter_append, List.map_append,
      List.mem_append] at he ⊢
    tauto
  functions := fun f hf => ⟨f, List.mem_append_right _ hf, rfl, rfl⟩

theorem ofFunctions {functions : List ComputeFunction}
    (h : List.Forall₂ (fun f f' => f'.toEntry = f.toEntry ∧ f'.environment = f.environment)
      m.functions functions) : m.Keeps { m with functions } where
  nameable := List.Subset.refl _
  functions := by
    intro f hf
    obtain ⟨f', hf', hentry, henvironment⟩ := exists_of_forall₂ (List.Forall₂.flip h) hf
    exact ⟨f', hf', congrArg Entry.id hentry, henvironment⟩

theorem ofBuses {buses : List Bus}
    (h : List.Forall₂ (fun b b' => b'.toEntry = b.toEntry) m.buses buses) :
    m.Keeps { m with buses } where
  nameable := by
    have hsame : buses.map (·.toEntry) = m.buses.map (·.toEntry) :=
      map_eq_of_forall₂ (fun _ _ h => h) h
    have hfilter : ∀ buses : List Bus, (buses.filter (·.id != defaultBus)).map (·.toEntry) =
        (buses.map (·.toEntry)).filter (·.id != defaultBus) := by
      intro buses
      rw [List.filter_map]
      rfl
    simp only [Model.nameable, hfilter, hsame]
    exact List.Subset.refl _
  functions := fun f hf => ⟨f, hf, rfl, rfl⟩

theorem ofTopics {topics : List Topic}
    (h : List.Forall₂ (fun t t' => t'.toEntry = t.toEntry) m.topics topics) :
    m.Keeps { m with topics } where
  nameable := by
    have hsame : topics.map (·.toEntry) = m.topics.map (·.toEntry) :=
      map_eq_of_forall₂ (fun _ _ h => h) h
    simp only [Model.nameable, hsame]
    exact List.Subset.refl _
  functions := fun f hf => ⟨f, hf, rfl, rfl⟩

end Keeps

end Model

namespace Projector

variable {p : Projector} {r : Resource}

theorem keeps_addEntry (m : Model) (r : Resource) : m.Keeps (p.addEntry m r).value := by
  obtain ⟨part, -, hvalue⟩ : ∃ part, _ ∧ (p.addEntry m r).value = m.merge part :=
    p.addEntry_cases m
  rw [hvalue]
  exact .merge m part

/-- What belongs to an entry changes nothing about what functions name. -/
theorem keeps_attach (out : Projection) (r : Resource) :
    out.model.Keeps (p.attach out r).value.model := by
  unfold attach
  split
  · unfold attachEventSource
    simp only [Noted.value_bind]
    split
    · exact .refl _
    split
    · exact .refl _
    next i _ _ source _ =>
    refine .ofFunctions (forall₂_changeAt (fun _ => ⟨rfl, rfl⟩) (fun f => ?_) _ i)
    split <;> exact ⟨rfl, rfl⟩
  split
  · unfold attachRule
    simp only [Noted.value_bind]
    split
    · refine .ofBuses (forall₂_changeAt ?_ ?_ _ _) <;> exact fun _ => rfl
    · exact .refl _
  split
  · unfold attachSubscription
    simp only [Noted.value_bind]
    split
    · refine .ofTopics (forall₂_changeAt ?_ ?_ _ _) <;> exact fun _ => rfl
    · exact .refl _
  · exact .refl _

/-! ## What functions and the resources that they name leave in the model -/

/-- The types of the resources that functions can name. -/
def nameableTypes : List String :=
  [ResourceType.table, ResourceType.queue, ResourceType.topic, ResourceType.eventBus,
    ResourceType.stateMachine]

theorem entry_mem_nameable_addEntry (m : Model) (htype : r.type ∈ nameableTypes) :
    p.entry r ∈ (p.addEntry m r).value.nameable := by
  simp only [nameableTypes, List.mem_cons, List.not_mem_nil, or_false] at htype
  rcases htype with h | h | h | h | h <;> rw [addEntry, h]
  · show p.entry r ∈ Model.nameable { m with tables := m.tables ++ [(p.table r).value] }
    have hentry : (p.table r).value.toEntry = p.entry r := rfl
    simp [Model.nameable, hentry]
  · show p.entry r ∈ Model.nameable { m with queues := m.queues ++ [(p.queue r).value] }
    have hentry : (p.queue r).value.toEntry = p.entry r := rfl
    simp [Model.nameable, hentry]
  · show p.entry r ∈ Model.nameable { m with topics := m.topics ++ [(p.topic r).value] }
    have hentry : (p.topic r).value.toEntry = p.entry r := rfl
    simp [Model.nameable, hentry]
  · -- the id of a bus of a template is not that of the bus that every account has
    have hbus : (p.entry r).id ≠ Model.defaultBus := p.idOf_ne_defaultBus r.logicalId
    show p.entry r ∈ Model.nameable { m with buses := m.buses ++ [p.bus r] }
    have hentry : (p.bus r).toEntry = p.entry r := rfl
    simp [Model.nameable, hentry, hbus]
  · show p.entry r ∈
      Model.nameable { m with stateMachines := m.stateMachines ++ [(p.stateMachine r).value] }
    have hentry : (p.stateMachine r).value.toEntry = p.entry r := rfl
    simp [Model.nameable, hentry]

theorem function_mem_addEntry (m : Model) (htype : r.type = ResourceType.function) :
    (p.function r).value ∈ (p.addEntry m r).value.functions := by
  rw [addEntry, htype]
  exact List.mem_append_right _ List.mem_cons_self

/-- The environment of a function is what its raw environment becomes, two levels below the
properties. -/
theorem environment_function {vars : Json.Fields}
    (hvars : r.properties.at? ["Environment", "Variables"] = some (.object vars))
    (hplain : Intrinsic.ofFields? vars = none) :
    (p.function r).value.environment =
      vars.map fun (name, v) => (name, Expression.textWithin p.ctx (nestingLimit - 2) v) := by
  have hvalue : (Expression.valueWithin p.ctx (nestingLimit - 2 + 1 + 2) r.properties).at?
      ["Environment", "Variables"] =
        some (Expression.valueWithin p.ctx (nestingLimit - 2 + 1) (.object vars)) :=
    Expression.at?_valueWithin hvars (by decide)
  rw [Expression.valueWithin_object hplain] at hvalue
  have hprops : (p.properties r).value.at? ["Environment", "Variables"] = some (.object
      (vars.map fun (name, v) => (name, Expression.valueWithin p.ctx (nestingLimit - 2) v))) :=
    hvalue
  rw [function]
  simp only [Noted.value_bind, Noted.value_pure, hprops, Option.bind_some, Json.asObject?,
    Option.getD_some, List.map_map]
  rfl

end Projector

/-! ## What functions wait for -/

namespace Model

/-- In the graph of a model an entry waits for another one because of its data, and comes after it
in the order of the graph, if there is one. -/
def WaitsFor (m : Model) (target source : String) : Prop :=
  ∃ g, m.graph.run.value = .ok g ∧ ⟨source, target, .dataDependency⟩ ∈ g.edges ∧
    ∀ order, g.order = .ok order → [source, target].Sublist order

variable {m : Model}

/-- A function waits for every entry that its environment names. -/
theorem waitsFor_of_environment (hlinks : ∀ id ∈ m.links, id ∈ m.ids) {f : ComputeFunction}
    (hf : f ∈ m.functions) {name value : String} (hvalue : (name, value) ∈ f.environment)
    {e : Entry} (he : e ∈ m.nameable) (hnames : namesResource value e.name = true) :
    m.WaitsFor f.id e.id := by
  obtain ⟨g, hg⟩ := graph_ok_iff.2 hlinks
  have hedge : ⟨e.id, f.id, .dataDependency⟩ ∈ g.edges := by
    rw [Graph.edges_of_build hg, List.mem_eraseDups, mem_graphEdges_iff_reason]
    exact .named (mem_nameable_iff.1 he) hf hvalue (namesResource_iff.1 hnames)
  refine ⟨g, hg, hedge, fun order horder => ?_⟩
  exact (Graph.topological_of_order (Graph.formed_of_build hg) horder).forward _ hedge

theorem keeps_attachRule (m : Model) (d : DetachedRule) : m.Keeps (m.attachRule d).value := by
  unfold attachRule
  split
  · refine .ofBuses (forall₂_putRule ?_ _ ?_ m.buses) <;> exact fun _ => rfl
  split
  · have hmerge : { m with buses := m.buses ++ [implicitBus d.rule] } =
        m.merge { buses := [implicitBus d.rule] } := by simp [Model.merge, Assets.merge]
    rw [Noted.value_pure, hmerge]
    exact .merge m _
  · exact .refl m

/-- The model of templates keeps what each of them stands for. -/
theorem keeps_ofTemplates {templates : List Template} {t : Template} (ht : t ∈ templates) :
    t.projection.model.Keeps (ofTemplates templates) := by
  rw [ofTemplates, attachRules, Noted.value_foldlM]
  refine .trans ?_ (.foldl keeps_attachRule _ _)
  obtain ⟨before, after, rfl⟩ := List.append_of_mem ht
  rw [merged, List.map_append, List.map_cons, List.foldl_append, List.foldl_cons]
  exact .trans (.merge_right _ _) (.foldl Keeps.merge _ _)

end Model

/-- The raw value of one of the environment variables of a resource, whose map of variables is no
call. -/
def Resource.HasVariable (r : Resource) (v : Json) : Prop :=
  ∃ vars name, r.properties.at? ["Environment", "Variables"] = some (.object vars) ∧
    Intrinsic.ofFields? vars = none ∧ (name, v) ∈ vars

namespace Template

variable {t : Template} {f x : Resource} {v : Json}

/-- What is there once the entry of an included resource is added is there in the end. -/
theorem keeps_of_mem_included {r : Resource} (hr : r ∈ t.projector.included) :
    ∃ m, (t.projector.addEntry m r).value.Keeps t.projection.model := by
  obtain ⟨before, after, hsplit⟩ := List.append_of_mem hr
  have hadded : ∃ m, (t.projector.addEntry m r).value.Keeps
      (t.projector.included.foldl (fun m r => (t.projector.addEntry m r).value) {}) := by
    rw [hsplit, List.foldl_append, List.foldl_cons]
    exact ⟨_, .foldl Projector.keeps_addEntry after _⟩
  obtain ⟨m, hm⟩ := hadded
  refine ⟨m, ?_⟩
  rw [projection_eq]
  refine List.foldlRecOn
    (motive := fun out : Projection => (t.projector.addEntry m r).value.Keeps out.model) _ _ hm ?_
  intro out hout r' _
  exact hout.trans (Projector.keeps_attach out r')

/-- The environment of a function is there in the model, resolved. -/
theorem exists_function (hf : f ∈ t.projector.included) (hfunction : f.type = ResourceType.function)
    (hv : f.HasVariable v) :
    ∃ entry ∈ t.projection.model.functions, entry.id = t.projector.idOf f.logicalId ∧
      ∃ name, (name, Expression.textWithin t.context.value (nestingLimit - 2) v) ∈
        entry.environment := by
  obtain ⟨vars, name, hvars, hplain, hv⟩ := hv
  obtain ⟨m, hkeeps⟩ := keeps_of_mem_included hf
  obtain ⟨entry, hentry, hid, henvironment⟩ :=
    hkeeps.functions _ (Projector.function_mem_addEntry m hfunction)
  refine ⟨entry, hentry, hid, name, ?_⟩
  rw [henvironment, Projector.environment_function hvars hplain]
  exact List.mem_map.2 ⟨_, hv, rfl⟩

/-- A function whose environment names a resource waits for it in every model that keeps what the
template stands for and links to nothing but its own entries. -/
theorem waitsFor_of_names {m : Model} (hm : t.projection.model.Keeps m)
    (hlinks : ∀ id ∈ m.links, id ∈ m.ids) (hf : f ∈ t.projector.included)
    (hfunction : f.type = ResourceType.function) (hx : x ∈ t.projector.included)
    (hnameable : x.type ∈ Projector.nameableTypes) (hname : t.projector.nameOf x ≠ "")
    (hv : f.HasVariable v)
    (hnames : Expression.Names t.context.value (nestingLimit - 2) x.logicalId v) :
    m.WaitsFor (t.stack ++ "/" ++ f.logicalId) (t.stack ++ "/" ++ x.logicalId) := by
  obtain ⟨entry, hentry, hid, name, hvalue⟩ := exists_function hf hfunction hv
  obtain ⟨entry', hentry', hid', henvironment⟩ := hm.functions entry hentry
  rw [← henvironment] at hvalue
  obtain ⟨m', hkeeps⟩ := keeps_of_mem_included hx
  have hxname : t.projector.entry x ∈ m.nameable :=
    hm.nameable (hkeeps.nameable (Projector.entry_mem_nameable_addEntry m' hnameable))
  have hbound := resource?_nameOf (List.mem_filter.1 hx).1
  have htext := hnames.namesResource hbound hname
  have hwaits := Model.waitsFor_of_environment hlinks hentry' hvalue hxname htext
  rw [hid', hid] at hwaits
  exact hwaits

/-- References in the environment of a function become dependencies at startup.  If a variable of an
included function refers to an included table, queue, topic, bus or state machine, by name, by an
attribute or at the end of an identifier, then the function waits for that resource in the graph of
the template, and in the graph of any templates that this one is among. -/
theorem environment_waits (hf : f ∈ t.projector.included)
    (hfunction : f.type = ResourceType.function) (hx : x ∈ t.projector.included)
    (hnameable : x.type ∈ Projector.nameableTypes) (hname : t.projector.nameOf x ≠ "")
    (hv : f.HasVariable v)
    (hnames : Expression.Names t.context.value (nestingLimit - 2) x.logicalId v) :
    t.projection.model.WaitsFor (t.stack ++ "/" ++ f.logicalId) (t.stack ++ "/" ++ x.logicalId) ∧
    ∀ templates : List Template, t ∈ templates →
      (Model.ofTemplates templates).WaitsFor (t.stack ++ "/" ++ f.logicalId)
        (t.stack ++ "/" ++ x.logicalId) := by
  constructor
  · refine waitsFor_of_names (.refl _) (fun id hid => ?_) hf hfunction hx hnameable hname hv hnames
    exact mem_ids_of_mem_links (List.mem_append_left _ hid)
  · intro templates ht
    refine waitsFor_of_names (Model.keeps_ofTemplates ht) (fun id hid => ?_) hf hfunction hx
      hnameable hname hv hnames
    obtain ⟨other, hother, hid⟩ := Model.exists_mem_links_of_mem_links hid
    exact Model.mem_ids_of_template hother (mem_ids_of_mem_links hid)

/-- A queue whose name is a parameter. -/
def orderQueue : Resource where
  logicalId := "Orders"
  type := ResourceType.queue
  properties := .object [("QueueName", .string "orders")]
  dependsOn := []
  condition := none
  metadata := []

/-- The identifier of the queue, put together from parts. -/
def orderQueueArn : Json :=
  .object [("Fn::Join", .array [.string "", .array
    ([.string "arn:aws:sqs:", .object [("Ref", .string "AWS::Region")], .string ":"] ++
      [.object [("Ref", .string "Orders")]])])]

/-- A function with the identifier of the queue in its environment. -/
def orderWorker : Resource where
  logicalId := "Worker"
  type := ResourceType.function
  properties := .object [("Environment", .object [("Variables", .object
    [("QUEUE", orderQueueArn), ("LEVEL", .string "info")])])]
  dependsOn := []
  condition := none
  metadata := []

/-- The function comes first in the template, and a parameter renames the queue. -/
def orderShop : Template where
  stack := "Shop"
  parameters := [("Orders", some (.string "live-orders"))]
  resources := [orderWorker, orderQueue]

theorem orderShop_waits :
    orderShop.projector.nameOf orderQueue = "live-orders" ∧
    Expression.textWithin orderShop.context.value (nestingLimit - 2) orderQueueArn =
      "arn:aws:sqs:local:live-orders" ∧
    orderShop.projection.model.WaitsFor "Shop/Worker" "Shop/Orders" ∧
    (Model.ofTemplates [orderShop]).WaitsFor "Shop/Worker" "Shop/Orders" := by
  have hworker : orderWorker ∈ orderShop.projector.included :=
    List.mem_filter.2 ⟨List.mem_cons_self, rfl⟩
  have hqueue : orderQueue ∈ orderShop.projector.included :=
    List.mem_filter.2 ⟨List.mem_cons_of_mem _ List.mem_cons_self, rfl⟩
  have hvariable : orderWorker.HasVariable orderQueueArn :=
    ⟨_, "QUEUE", rfl, rfl, List.mem_cons_self⟩
  have hnames : Expression.Names orderShop.context.value (nestingLimit - 2) "Orders"
      orderQueueArn :=
    .join (by decide) (by decide) (by decide +kernel) (.inr (by decide +kernel))
  obtain ⟨hwaits, hamong⟩ := environment_waits hworker rfl hqueue (by decide) (by decide +kernel)
    hvariable hnames
  exact ⟨by decide +kernel, by decide +kernel, hwaits, hamong _ List.mem_cons_self⟩

end Template

end LocalCloud
