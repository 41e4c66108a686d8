import LocalCloud.Proofs.Graph.Cycles
import LocalCloud.Proofs.Startup.Steady

/-!
# Sequential starts and starts in waves

The two modes cut an order into different waves, but the waves hold the same providers one after
another: those of the node that stands first in the order, then those of the next one
(`alongOrder`).  When all of them come up, this list is all that remains of the waves
(`Accepted.allUp`), so that nobody can tell from what a start leaves behind in which mode it was
made (`start_modes_agree`).
-/

namespace LocalCloud

/-- The providers of the nodes of an order: by the place where their node stands first in it, those
of one node as they are listed. -/
def alongOrder (providers : List Provider) (order : List String) : List Provider :=
  order.eraseDups.flatMap fun id => providers.filter (·.node == id)

/-- In either mode the waves hold the providers along the order. -/
theorem flatten_membersOf_planWaves {mode : StartupMode} {dependencies : String → List String}
    {order : List String} {waves : List (List String)} (providers : List Provider)
    (h : planWaves order dependencies mode = .ok waves) :
    (membersOf providers waves).flatten = alongOrder providers order := by
  rw [flatten_membersOf, flatten_planWaves h]
  rfl

/-- The status of a name when all providers are up whose node is in the order, and no others. -/
def statusUp? (providers : List Provider) (order : List String) (name : String) :
    Option ProviderStatus :=
  (providers.find? (·.name == name)).map fun p => if p.node ∈ order then .running else .stopped

theorem firstFailure?_allRunning (members : List Provider) :
    firstFailure? allRunning members = none :=
  firstFailure?_eq_none_iff.2 fun _ _ => rfl

namespace Orchestrator

variable {o : Orchestrator} {graph : Graph} {providers : List Provider} {order : List String}

/-- The orchestrator with its mode set. -/
def inMode (o : Orchestrator) (mode : StartupMode) : Orchestrator :=
  { o with settings := { o.settings with startup := mode } }

/-- An idle orchestrator accepts providers with names of their own and an order that is valid for a
graph without cycles, in either mode. -/
theorem exists_accept (hgraph : graph.cycles = []) (hnames : (providers.map (·.name)).Nodup)
    (horder : ValidOrder graph.dependencies order) (hidle : o.running = false) :
    ∃ waves, o.accept graph providers order = .ok waves := by
  obtain ⟨waves, hwaves⟩ := (validOrder_iff o.settings.startup).1 horder
  have hrepeated : repeatedName? [] (providers.map (·.name)) = none :=
    repeatedName?_eq_none_iff.2 ⟨hnames, by simp⟩
  refine ⟨waves, ?_⟩
  simp [accept, hidle, hgraph, hrepeated, hwaves]

/-! ## What a start leaves behind -/

/-- What a start leaves behind that has brought up all providers whose node is in the order. -/
structure AllUp {σ : Type} (providers : List Provider) (order : List String)
    (passage : Passage σ StartFailure) : Prop where
  result : passage.result = .ok ()
  running : passage.orchestrator.running = true
  started : passage.orchestrator.started = alongOrder providers order
  status? : ∀ name, passage.orchestrator.status? name = statusUp? providers order name
  stops : stopsOf passage.history = []

variable {σ : Type} {waves : List (List String)} {passage : Passage σ StartFailure}

/-- A start whose members are all running says so of them, and of all others that they are
stopped. -/
theorem Accepted.status?_of_restated (h : Accepted o graph providers order waves)
    {o' : Orchestrator} (hrestated : (o.cleared providers).Restated
      ((membersOf providers waves).flatten.map fun p => (p.name, .running)) o') (name : String) :
    o'.status? name = statusUp? providers order name := by
  have hkeys : ((membersOf providers waves).flatten.map fun p =>
      (p.name, ProviderStatus.running)).map (·.1) =
        (membersOf providers waves).flatten.map (·.name) := by
    rw [List.map_map]
    rfl
  have hkept : (∀ p ∈ providers, p.node ∈ order → p.name ≠ name) →
      o'.status? name = (providers.find? (·.name == name)).map fun _ => .stopped := by
    intro hnone
    rw [← status?_cleared o providers name]
    refine hrestated.status?_of_not_mem fun hmem => ?_
    rw [hkeys] at hmem
    obtain ⟨p, hp, hname⟩ := List.mem_map.1 hmem
    obtain ⟨hlisted, hnode⟩ := h.mem_members_iff.1 hp
    exact hnone p hlisted hnode hname
  unfold statusUp?
  cases hfind : providers.find? (·.name == name) with
  | none =>
    rw [hkept fun p hp _ hname => ?_, hfind]
    · rfl
    · simpa [hname] using List.find?_eq_none.1 hfind p hp
  | some p =>
    have hp : p ∈ providers := List.mem_of_find?_eq_some hfind
    obtain rfl : p.name = name := by simpa using List.find?_some hfind
    by_cases hnode : p.node ∈ order
    · have hmem : p ∈ (membersOf providers waves).flatten := h.mem_members_iff.2 ⟨hp, hnode⟩
      rw [Option.map_some, if_pos hnode]
      exact hrestated.status?_of_mem (hkeys ▸ h.nodup_names) (List.mem_map.2 ⟨p, hmem, rfl⟩)
    · rw [hkept fun q hq hq' hname => ?_, hfind, Option.map_some, Option.map_some, if_neg hnode]
      rw [List.inj_on_of_nodup_map h.names hq hp hname] at hq'
      exact hnode hq'

/-- All that remains of the waves of a start in which every task comes up is the order. -/
theorem Accepted.allUp (h : Accepted o graph providers order waves)
    (hcourse : Course (o.cleared providers) (membersOf providers waves) passage)
    (ho : o.cancelled = false)
    (hkeeps : ∀ x ∈ passage.history, x.Keeps o.settings allRunning) :
    AllUp providers order passage := by
  obtain ⟨hresult, hrunning, hstarted, hstops, -⟩ := hcourse.foretold ho hkeeps
  have hup := firstFailure?_allRunning (membersOf providers waves).flatten
  rw [resultOf, hup] at hresult
  rw [hup] at hrunning
  rw [if_pos hup, flatten_membersOf_planWaves providers h.plan] at hstarted
  rw [undone, if_pos hup] at hstops
  exact {
    result := hresult
    running := hrunning
    started := hstarted
    status? := h.status?_of_restated (hcourse.restated_of_ok hresult)
    stops := hstops }

/-- Whatever the mode, a start that is accepted and in which all providers come up that take part in
it leaves them up along the order. -/
theorem allUp_start (w : World σ) (s : σ) (hgraph : graph.cycles = [])
    (hnames : (providers.map (·.name)).Nodup) (horder : ValidOrder graph.dependencies order)
    (hidle : o.running = false) (ho : o.cancelled = false)
    (hkeeps : ∀ x ∈ (start w o s graph providers order).value.history,
      x.Keeps o.settings allRunning) :
    AllUp providers order (start w o s graph providers order).value := by
  obtain ⟨waves, haccept⟩ := exists_accept hgraph hnames horder hidle
  exact (accepted_of_accept haccept).allUp (course_start w o s haccept) ho hkeeps

/-- What is left behind by a start that has brought up all is stopped against the order. -/
theorem AllUp.stopsOf_stop (h : AllUp providers order passage) {τ : Type} (v : World τ) (t : τ) :
    stopsOf (stop v passage.orchestrator t).value.history =
      (alongOrder providers order).reverse := by
  rw [← h.started]
  exact stopsOf_stopEach v passage.orchestrator t passage.orchestrator.started.reverse

/-- Providers that come up by themselves are all up in the end, on virtual time and in either
mode. -/
theorem allUp_start_of_comesUp (c : Clock) (hgraph : graph.cycles = [])
    (hnames : (providers.map (·.name)).Nodup) (horder : ValidOrder graph.dependencies order)
    (hidle : o.running = false) (ho : o.cancelled = false) (hc : c.Undisturbed o.settings)
    (hup : ∀ p ∈ providers, p.node ∈ order → p.script.ComesUp o.settings) :
    AllUp providers order (start Clock.world o c graph providers order).value :=
  allUp_start Clock.world c hgraph hnames horder hidle ho
    (keeps_start o.settings (Clock.steady_world o.settings) o hc graph hup)

/-- Both modes come to the same end.  For a graph without cycles, an order that is valid for it and
providers with names of their own, a start in waves and a sequential start, each in a world of its
own in which nobody cancels the startup and every task that ends does so with its provider up, both
succeed.  They leave the same providers started, by the place of their node in the order and then as
they are listed, and the same statuses; and later on both are stopped by the same calls, in reverse
order. -/
theorem start_modes_agree {τ : Type} (w : World σ) (w' : World τ) (o : Orchestrator) (s : σ)
    (s' : τ) {nodes : List GraphNode} {edges : List GraphEdge}
    (hgraph : (Graph.build nodes edges).run.value = .ok graph) (hacyclic : graph.Acyclic)
    (hnames : (providers.map (·.name)).Nodup) (horder : ValidOrder graph.dependencies order)
    (hidle : o.running = false) (ho : o.cancelled = false)
    (hwaves : ∀ x ∈ (start w (o.inMode .waves) s graph providers order).value.history,
      x.Keeps (o.inMode .waves).settings allRunning)
    (hsequential : ∀ x ∈ (start w' (o.inMode .sequential) s' graph providers order).value.history,
      x.Keeps (o.inMode .sequential).settings allRunning) :
    (start w (o.inMode .waves) s graph providers order).value.result = .ok () ∧
    (start w' (o.inMode .sequential) s' graph providers order).value.result = .ok () ∧
    (start w (o.inMode .waves) s graph providers order).value.orchestrator.started =
      alongOrder providers order ∧
    (start w' (o.inMode .sequential) s' graph providers order).value.orchestrator.started =
      alongOrder providers order ∧
    (∀ name, (start w (o.inMode .waves) s graph providers order).value.orchestrator.status? name =
      statusUp? providers order name) ∧
    (∀ name,
      (start w' (o.inMode .sequential) s' graph providers order).value.orchestrator.status? name =
        statusUp? providers order name) ∧
    ∀ {υ φ : Type} (v : World υ) (v' : World φ) (t : υ) (t' : φ),
      stopsOf (stop v (start w (o.inMode .waves) s graph providers order).value.orchestrator
        t).value.history = (alongOrder providers order).reverse ∧
      stopsOf (stop v' (start w' (o.inMode .sequential) s' graph providers order).value.orchestrator
        t').value.history = (alongOrder providers order).reverse := by
  have hcycles : graph.cycles = [] :=
    (Graph.cycles_eq_nil_iff (Graph.formed_of_build hgraph)).2 hacyclic
  have h : AllUp providers order (start w (o.inMode .waves) s graph providers order).value :=
    allUp_start w s hcycles hnames horder hidle ho hwaves
  have h' : AllUp providers order
      (start w' (o.inMode .sequential) s' graph providers order).value :=
    allUp_start w' s' hcycles hnames horder hidle ho hsequential
  exact ⟨h.result, h'.result, h.started, h'.started, h.status?, h'.status?,
    fun v v' t t' => ⟨h.stopsOf_stop v t, h'.stopsOf_stop v' t'⟩⟩

/-- Two providers of a table, the second of which is up first, a worker that waits for them, and a
ledger that no order asks for. -/
def orderDesk : List Provider :=
  [{ name := "worker", node := "Worker" },
    { name := "table", node := "Orders", script := { startDelay := 90, unhealthyChecks := 2 } },
    { name := "ledger", node := "Ledger", script := { dies := true } },
    { name := "stream", node := "Orders", script := { startDelay := 10 } }]

/-- The slow table comes before the fast one in either mode, a queue without a provider and a table
that is asked for twice make no difference, and the ledger is left alone. -/
theorem orderDesk_modes :
    (start Clock.world (inMode {} .waves) { settings := {} } Graph.twoReasons orderDesk
      ["Orders", "Audit", "Orders", "Worker"]).value.result = .ok () ∧
    (start Clock.world (inMode {} .sequential) { settings := { startup := .sequential } }
      Graph.twoReasons orderDesk ["Orders", "Audit", "Orders", "Worker"]).value.result = .ok () ∧
    (start Clock.world (inMode {} .waves) { settings := {} } Graph.twoReasons orderDesk
        ["Orders", "Audit", "Orders", "Worker"]).value.orchestrator.started =
      (start Clock.world (inMode {} .sequential) { settings := { startup := .sequential } }
        Graph.twoReasons orderDesk
        ["Orders", "Audit", "Orders", "Worker"]).value.orchestrator.started ∧
    (alongOrder orderDesk ["Orders", "Audit", "Orders", "Worker"]).map (·.name) =
      ["table", "stream", "worker"] ∧
    (start Clock.world (inMode {} .sequential) { settings := { startup := .sequential } }
      Graph.twoReasons orderDesk ["Orders", "Audit", "Orders", "Worker"]).value.orchestrator.status?
        "ledger" = some .stopped := by
  have hbuilt : (Graph.build Graph.twoReasons.nodes Graph.twoReasons.edges).run.value =
      .ok Graph.twoReasons := rfl
  have hacyclic : Graph.twoReasons.Acyclic :=
    (Graph.cycles_eq_nil_iff (Graph.formed_of_build hbuilt)).1 (by decide +kernel)
  have horder : ValidOrder Graph.twoReasons.dependencies ["Orders", "Audit", "Orders", "Worker"] :=
    (validOrder_iff .waves).2 ⟨[["Orders", "Audit"], ["Worker"]], by decide +kernel⟩
  have hup : ∀ mode, ∀ p ∈ orderDesk, p.node ∈ ["Orders", "Audit", "Orders", "Worker"] →
      p.script.ComesUp (inMode {} mode).settings := by
    intro mode p hp hnode
    simp only [orderDesk, List.mem_cons, List.not_mem_nil, or_false] at hp
    rcases hp with rfl | rfl | rfl | rfl
    · exact ⟨rfl, rfl, rfl, rfl, by simp [inMode]⟩
    · exact ⟨rfl, rfl, rfl, rfl, by simp [inMode]⟩
    · simp at hnode
    · exact ⟨rfl, rfl, rfl, rfl, by simp [inMode]⟩
  obtain ⟨hwaves, hsequential, hstarted, hstarted', -, hstatus, -⟩ :=
    start_modes_agree Clock.world Clock.world {} { settings := {} }
      { settings := { startup := .sequential } } hbuilt hacyclic (by decide) horder rfl rfl
      (keeps_start _ (Clock.steady_world _) (inMode {} .waves) ⟨rfl, rfl⟩ _ (hup .waves))
      (keeps_start _ (Clock.steady_world _) (inMode {} .sequential) ⟨rfl, rfl⟩ _ (hup .sequential))
  refine ⟨hwaves, hsequential, hstarted.trans hstarted'.symm, by decide +kernel, ?_⟩
  rw [hstatus]
  decide +kernel

end Orchestrator

end LocalCloud
