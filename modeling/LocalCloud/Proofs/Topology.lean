import LocalCloud.Application
import LocalCloud.Proofs.Assembly.Manifests
import LocalCloud.Proofs.Graph.Cycles
import LocalCloud.Proofs.Startup.Readiness
import LocalCloud.Proofs.Startup.Refusals

/-!
# What can be read can be started

The search for cycles, the order and the waves are three algorithms over one graph.  They agree:
where the search finds no cycle the graph has an order (`Topology.ofModel_cases`), and that order,
or what is left of it when any nodes are taken out, can be cut into waves.  So whatever topology
comes out of a directory, its start is never refused because of its graph (`ingest_launches`).
-/

namespace LocalCloud

/-- What holds of every topology that is made: its graph has no cycle, and the order is one of the
graph. -/
structure Topology.Sound (t : Topology) : Prop where
  formed : t.graph.Formed
  cycles : t.graph.cycles = []
  order : t.graph.Topological t.order

namespace Topology

variable {t : Topology}

/-- There is only one reason why a graph cannot be built. -/
theorem danglingEdge_of_graph {m : Model} {failure : GraphFailure}
    (h : m.graph.run.value = .error failure) :
    ∃ source target, failure = .danglingEdge source target := by
  rw [Model.graph] at h
  cases hfind : m.graphEdges.find? fun edge =>
      !Graph.joins (Graph.collectNodes m.graphNodes).value edge with
  | none =>
    rw [Graph.build_of_find?_none hfind] at h
    contradiction
  | some edge =>
    rw [Graph.build_of_find?_some hfind] at h
    exact ⟨_, _, (Except.error.inj h).symm⟩

/-- A model has an ordered topology, or its graph has a cycle or cannot be built: that a graph
without a cycle cannot be ordered never comes about. -/
theorem ofModel_cases (m : Model) :
    (∃ failure, (ofModel m).run.value = .error failure ∧
      ∀ blocked, failure ≠ .unordered blocked) ∨
    ∃ t, (ofModel m).run.value = .ok t ∧ t.Sound := by
  cases hgraph : m.graph.run.value with
  | error failure =>
    obtain ⟨source, target, rfl⟩ := danglingEdge_of_graph hgraph
    refine .inl ⟨.danglingEdge source target, ?_, fun _ h => by contradiction⟩
    simp only [ofModel, Attempt.value_bind, hgraph]
  | ok g =>
    have hformed := Graph.formed_of_build hgraph
    cases hcycles : g.cycles with
    | cons cycle more =>
      refine .inl ⟨.cycle (cycle :: more), ?_, fun _ h => by contradiction⟩
      simp only [ofModel, Attempt.value_bind, hgraph, hcycles]
      rfl
    | nil =>
      obtain ⟨order, horder⟩ :=
        (Graph.exists_order_iff hformed).2 ((Graph.cycles_eq_nil_iff hformed).1 hcycles)
      refine .inr ⟨{ model := m, graph := g, order }, ?_, ?_⟩
      · simp only [ofModel, Attempt.value_bind, hgraph, hcycles, horder]
        rfl
      · exact ⟨hformed, hcycles, Graph.topological_of_order hformed horder⟩

namespace Sound

/-- Any part of the order can be cut into waves. -/
theorem exists_planWaves (h : t.Sound) {part : List String} (hpart : part.Sublist t.order)
    (mode : StartupMode) : ∃ waves, planWaves part t.graph.dependencies mode = .ok waves := by
  have hacyclic := (Graph.cycles_eq_nil_iff h.formed).1 h.cycles
  refine LocalCloud.exists_planWaves (fun id _ hself => ?_) ?_ mode
  · exact hacyclic id (.single (Graph.mem_dependencies_iff.1 hself))
  · exact (h.order.placed h.formed).pairwise_dependencies.sublist hpart

/-- The providers that a registry makes are for nodes of the graph. -/
theorem node_mem_order (h : t.Sound) {registry : Registry} {p : Provider}
    (hp : p ∈ (registry.instantiate t.graph).value) : p.node ∈ t.order := by
  rw [Registry.instantiate, Noted.value_map, Noted.value_mapM] at hp
  obtain ⟨served, hserved, hp⟩ := List.mem_flatten.1 hp
  obtain ⟨node, hnode, rfl⟩ := List.mem_map.1 hserved
  have hid : p.node = node.id := by
    unfold Registry.serve at hp
    split at hp
    · simp at hp
    · obtain ⟨_, -, rfl⟩ := List.mem_map.1 hp
      rfl
  rw [hid]
  exact h.order.perm.mem_iff.2 (List.mem_map_of_mem hnode)

/-- A launch is refused only for the sake of the orchestrator or of the providers' names. -/
theorem of_accept_eq_error (h : t.Sound) {part : List String} (hpart : part.Sublist t.order)
    {o : Orchestrator} {providers : List Provider} {failure : StartFailure}
    (haccept : o.accept t.graph providers part = .error failure) :
    failure = .alreadyRunning ∨ ∃ name, failure = .duplicateProvider name := by
  unfold Orchestrator.accept at haccept
  split at haccept
  · exact .inl (Except.error.inj haccept).symm
  obtain ⟨waves, hwaves⟩ := h.exists_planWaves hpart o.settings.startup
  simp only [h.cycles, hwaves] at haccept
  split at haccept
  · exact .inr ⟨_, (Except.error.inj haccept).symm⟩
  · contradiction

end Sound

/-! ## Launches -/

/-- The nodes that a registry serves, in the order of a topology. -/
def served (t : Topology) (registry : Registry) : List String :=
  t.order.filter fun id => (registry.instantiate t.graph).value.any (·.node == id)

section Launch

variable {σ : Type} {registry : Registry} {w : World σ} {o : Orchestrator} {s : σ}

theorem value_launch : (t.launch registry w o s).value =
    (o.start w s t.graph (registry.instantiate t.graph).value (t.served registry)).value := rfl

theorem warnings_launch : (t.launch registry w o s).warnings =
    (registry.instantiate t.graph).warnings ++
      (o.start w s t.graph (registry.instantiate t.graph).value (t.served registry)).warnings := rfl

theorem warns_instantiate (registry : Registry) (g : Graph) :
    (registry.instantiate g).Warns Warning.IsOfWaves := by
  refine .bind (.mapM (fun node => ?_) g.nodes) fun _ => .pure _
  unfold Registry.serve
  split
  · intro v hv
    obtain rfl := List.mem_singleton.1 hv
    trivial
  · exact .pure _

theorem Sound.node_mem_served (h : t.Sound) {p : Provider}
    (hp : p ∈ (registry.instantiate t.graph).value) : p.node ∈ t.served registry :=
  List.mem_filter.2 ⟨h.node_mem_order hp, List.any_eq_true.2 ⟨p, hp, beq_self_eq_true _⟩⟩

/-- A launch is never refused because of the graph or the order. -/
theorem Sound.result_launch_ne (h : t.Sound) {failure : StartFailure}
    (hrefusal : failure.isRefusal = true) (hrunning : failure ≠ .alreadyRunning)
    (hname : ∀ name, failure ≠ .duplicateProvider name) :
    (t.launch registry w o s).value.result ≠ .error failure := by
  intro hresult
  rw [value_launch, Orchestrator.result_eq_refusal_iff w hrefusal] at hresult
  rcases h.of_accept_eq_error List.filter_sublist hresult with heq | ⟨name, heq⟩
  · exact hrunning heq
  · exact hname name heq

/-- No provider is passed over because its node is not in the order. -/
theorem Sound.unscheduled_not_mem (h : t.Sound) (count : Nat) (node : String) :
    .unscheduled count node ∉ (t.launch registry w o s).warnings := by
  rw [warnings_launch, List.mem_append, not_or]
  refine ⟨fun hmem => warns_instantiate registry t.graph _ hmem, fun hmem => ?_⟩
  obtain ⟨-, hnode, hout, -⟩ := (Orchestrator.unscheduled_mem_start_iff w).1 hmem
  obtain ⟨p, hp, rfl⟩ := List.mem_map.1 hnode
  exact hout (h.node_mem_served hp)

/-- A launch that succeeds has started all providers. -/
theorem Sound.called_of_ok (h : t.Sound) (hok : (t.launch registry w o s).value.result = .ok ())
    {p : Provider} (hp : p ∈ (registry.instantiate t.graph).value) :
    .signalled p .called ∈ (t.launch registry w o s).value.history := by
  rw [value_launch] at hok ⊢
  rcases Orchestrator.start_cases w o s t.graph (registry.instantiate t.graph).value
    (t.served registry) with ⟨failure, -, heq⟩ | ⟨waves, o₁, haccepted, -, -, -, -, -, hcourse⟩
  · rw [heq] at hok
    contradiction
  · exact hcourse.called_of_ok hok (haccepted.mem_members_iff.2 ⟨hp, h.node_mem_served hp⟩)

end Launch

end Topology

/-! ## From a directory to running providers -/

/-- Reading and ordering gives a sound topology, or fails for another reason than that a graph
without a cycle cannot be ordered. -/
theorem Disk.ingest_cases (disk : Disk) (dir : Path) :
    (∃ failure, (disk.ingest dir).run.value = .error failure ∧
      ∀ blocked, failure ≠ .graph (.unordered blocked)) ∨
    ∃ t, (disk.ingest dir).run.value = .ok t ∧ t.Sound := by
  simp only [ingest, Attempt.value_bind, Attempt.value_adapt]
  cases (disk.assemble dir).run.value with
  | error failure => exact .inl ⟨.assembly failure, rfl, fun _ h => by contradiction⟩
  | ok model =>
    rcases Topology.ofModel_cases model with ⟨failure, hfailure, hne⟩ | ⟨t, ht, hsound⟩
    · refine .inl ⟨.graph failure, congrArg (Except.mapError _) hfailure, ?_⟩
      exact fun blocked h => hne blocked (IngestFailure.graph.inj h)
    · exact .inr ⟨t, congrArg (Except.mapError _) ht, hsound⟩

/-- The topology of a directory has an order of all nodes of its graph that can be cut into waves in
both modes; that its graph has no cycle and still cannot be ordered never comes about.  Whatever
providers there are for the nodes, wherever they run, and whatever the orchestrator has done before,
the start of the topology is never refused because of a cycle or of the order, no provider is passed
over because its node is not in the order, and when it succeeds all of them have been started. -/
theorem Disk.ingest_launches (disk : Disk) (dir : Path) :
    (∀ blocked, (disk.ingest dir).run.value ≠ .error (.graph (.unordered blocked))) ∧
    ∀ t, (disk.ingest dir).run.value = .ok t →
      t.order.Perm t.graph.ids ∧ (∀ mode, ∃ waves, t.waves mode = .ok waves) ∧
      ∀ {σ : Type} (registry : Registry) (w : World σ) (o : Orchestrator) (s : σ),
        (∀ cycles, (t.launch registry w o s).value.result ≠ .error (.cycle cycles)) ∧
        (∀ node waitingOn,
          (t.launch registry w o s).value.result ≠ .error (.invalidOrder node waitingOn)) ∧
        (∀ count node, .unscheduled count node ∉ (t.launch registry w o s).warnings) ∧
        ((t.launch registry w o s).value.result = .ok () →
          ∀ p ∈ (registry.instantiate t.graph).value,
            .signalled p .called ∈ (t.launch registry w o s).value.history) := by
  constructor
  · intro blocked hblocked
    rcases disk.ingest_cases dir with ⟨failure, hfailure, hne⟩ | ⟨t, ht, -⟩
    · rw [hfailure] at hblocked
      exact hne blocked (Except.error.inj hblocked)
    · rw [ht] at hblocked
      contradiction
  · intro t ht
    have hsound : t.Sound := by
      rcases disk.ingest_cases dir with ⟨failure, hfailure, -⟩ | ⟨t', ht', hsound⟩
      · rw [hfailure] at ht
        contradiction
      · rw [ht'] at ht
        obtain rfl := Except.ok.inj ht
        exact hsound
    refine ⟨hsound.order.perm, hsound.exists_planWaves (List.Sublist.refl _), ?_⟩
    intro σ registry w o s
    refine ⟨fun cycles => ?_, fun node waitingOn => ?_, hsound.unscheduled_not_mem,
      fun hok p hp => ?_⟩
    · exact hsound.result_launch_ne rfl (by simp) (by simp)
    · exact hsound.result_launch_ne rfl (by simp) (by simp)
    · exact hsound.called_of_ok hok hp

/-! ### A chain without its middle -/

section Relay

open Disk (level ofTower node_ofTower readJson_of_node fetchManifest_ofTower)

/-- A document that is a manifest and the template of its own stack: a topic waits for a function
and the function for a queue. -/
def relayText : String :=
  "\x7b\"artifacts\":\x7b\"Shop\":[\"aws:cloudformation:stack\"," ++
      "\x7b\"templateFile\":\"manifest.json\"\x7d]\x7d," ++
    "\"Resources\":\x7b\"Inbox\":\x7b\"Type\":\"AWS::SQS::Queue\"\x7d," ++
      "\"Worker\":\x7b\"Type\":\"AWS::Lambda::Function\",\"DependsOn\":\"Inbox\"\x7d," ++
      "\"Done\":\x7b\"Type\":\"AWS::SNS::Topic\",\"DependsOn\":\"Worker\"\x7d\x7d\x7d"

def relay : Disk := ofTower [relayText]

def relayJson : Json :=
  .object
    [("artifacts", .object [("Shop", .array
        [.string "aws:cloudformation:stack", .object [("templateFile", .string manifestFile)]])]),
      ("Resources", .object
        [("Inbox", .object [("Type", .string ResourceType.queue)]),
          ("Worker", .object
            [("Type", .string ResourceType.function), ("DependsOn", .string "Inbox")]),
          ("Done", .object
            [("Type", .string ResourceType.topic), ("DependsOn", .string "Worker")])])]

def relayManifest : Manifest where
  dir := level 0
  stackArtifacts := [⟨"Shop", (level 0).join manifestFile, []⟩]

def relayTemplate : Template where
  stack := "Shop"
  resources :=
    [{ logicalId := "Inbox", type := ResourceType.queue, properties := .null, dependsOn := [],
       condition := none, metadata := [] },
     { logicalId := "Worker", type := ResourceType.function, properties := .null,
       dependsOn := ["Inbox"], condition := none, metadata := [] },
     { logicalId := "Done", type := ResourceType.topic, properties := .null,
       dependsOn := ["Worker"], condition := none, metadata := [] }]

/-- What is collected from the template. -/
def relayCollected : Collected :=
  let projection := (relayTemplate.project relayTemplate.context.value).value
  { model := Model.merge {}
      { projection.model with assets := (relayTemplate.assets (level 0)).value }
    detached := [] ++ projection.detached
    visited := [level 0] }

def relayModel : Model :=
  (relayCollected.model.attachRules relayCollected.detached).value.linkAssets

def relayTopology : Topology where
  model := relayModel
  graph :=
    { nodes := (Graph.collectNodes relayModel.graphNodes).value
      edges := relayModel.graphEdges.eraseDups }
  order := ["Shop/Inbox", "Shop/Worker", "Shop/Done"]

set_option maxRecDepth 4000 in
theorem read_relayText : Json.read? relayText = some relayJson := by
  show Json.read? (String.ofList _ ++ String.ofList _ ++ String.ofList _ ++ String.ofList _ ++
    String.ofList _) = _
  simp only [← String.ofList_append]
  exact Json.read?_ofList rfl

theorem getElem?_relayText : [relayText][0]? = some relayText := rfl

theorem addStack_relay : (Collected.addStack relay (level 0) none { visited := [level 0] }
    ⟨"Shop", (level 0).join manifestFile, []⟩).run.value = .ok relayCollected := by
  have hraw : (relay.fetchJson ((level 0).join manifestFile)).run.value = .ok relayJson :=
    readJson_of_node (node_ofTower getElem?_relayText (by decide)) read_relayText
  exact Attempt.bind_eq_ok.2 ⟨_, hraw, Attempt.bind_eq_ok.2 ⟨relayTemplate, rfl, rfl⟩⟩

theorem assemble_relay : (relay.assemble (level 0)).run.value = .ok relayModel := by
  have hroot : (relay.fetchManifest (level 0)).run.value = .ok (some relayManifest) :=
    fetchManifest_ofTower getElem?_relayText (by decide) read_relayText rfl
  have hown : (Collected.addManifest relay { visited := [level 0] } relayManifest).run.value =
      .ok relayCollected := by
    refine Attempt.bind_eq_ok.2 ⟨none, rfl, Attempt.bind_eq_ok.2 ⟨_, ?_, rfl⟩⟩
    exact Attempt.bind_eq_ok.2 ⟨_, addStack_relay, rfl⟩
  have hadd : (Collected.addAssembly relay assemblyNestingLimit {} relayManifest).run.value =
      .ok relayCollected :=
    Attempt.bind_eq_ok.2 ⟨[], rfl, Attempt.bind_eq_ok.2 ⟨_, hown, rfl⟩⟩
  exact Attempt.bind_eq_ok.2 ⟨_, hroot, Attempt.bind_eq_ok.2 ⟨_, hadd, rfl⟩⟩

theorem ingest_relay : (relay.ingest (level 0)).run.value = .ok relayTopology := by
  have hgraph : relayModel.graph.run.value = .ok relayTopology.graph :=
    Graph.build_of_find?_none (by decide +kernel)
  have hcycles : relayTopology.graph.cycles = [] := by decide +kernel
  have horder : relayTopology.graph.order = .ok relayTopology.order := by decide +kernel
  rw [Disk.ingest, Attempt.value_bind, Attempt.value_adapt, assemble_relay]
  simp only [Except.mapError, Attempt.value_adapt, Topology.ofModel, Attempt.value_bind, hgraph,
    hcycles, horder]
  rfl

/-- A provider for each queue and for each topic, and none for functions. -/
def messageServices : Registry where
  factories :=
    [(.queue, fun node => [("queue " ++ node.id, {})]),
      (.topic, fun node => [("topic " ++ node.id, {})])]

/-- A world in which two providers that start together come up. -/
def readyWorld : World Unit where
  wave _ members :=
    match members with
    | [_, _] =>
      ([.act 0 .called, .act 1 .called, .act 0 .launched, .act 1 .launched, .act 0 .healthy,
        .act 1 .healthy], ())
    | _ => ([.cancel, .notice], ())
  stop _ _ := ((.stopped, false), ())
  isSettled_wave := by
    intro settings cancelled _ members
    split
    · rfl
    · exact congrArg (· || _) (Wave.noticed_run_cancel_notice settings _ [])

/-- The queue and the topic start together when nobody serves the function between them. -/
theorem relay_launches :
    (relay.ingest (level 0)).run.value = .ok relayTopology ∧
    relayTopology.order.Perm relayTopology.graph.ids ∧
    (relayTopology.launch messageServices readyWorld {} ()).value.result = .ok () ∧
    (∀ count node, .unscheduled count node ∉
      (relayTopology.launch messageServices readyWorld {} ()).warnings) ∧
    .signalled ⟨"topic Shop/Done", "Shop/Done", {}⟩ .called ∈
      (relayTopology.launch messageServices readyWorld {} ()).value.history := by
  obtain ⟨-, hlaunches⟩ := Disk.ingest_launches relay (level 0)
  obtain ⟨hperm, -, hlaunch⟩ := hlaunches relayTopology ingest_relay
  obtain ⟨-, -, hscheduled, hcalled⟩ := hlaunch messageServices readyWorld {} ()
  have hok : (relayTopology.launch messageServices readyWorld {} ()).value.result = .ok () := by
    decide +kernel
  have hmem : ⟨"topic Shop/Done", "Shop/Done", {}⟩ ∈
      (messageServices.instantiate relayTopology.graph).value := by
    decide +kernel
  exact ⟨ingest_relay, hperm, hok, hscheduled, hcalled hok _ hmem⟩

end Relay

end LocalCloud
