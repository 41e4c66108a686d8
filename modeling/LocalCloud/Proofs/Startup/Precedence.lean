import LocalCloud.Proofs.Graph.Cycles
import LocalCloud.Proofs.Startup.Refusals
import LocalCloud.Startup.Clock

/-!
# Which check refuses a start

A start is checked in a fixed order: whether the orchestrator is idle, whether the graph has no
cycle, whether each name is there once, whether the order can be cut into waves.  The first check
that fails gives the failure (`Refused`), and there is no other way to such a failure
(`accept_eq_error_iff`, `start_refused_iff`).  Whatever the orchestrator has started before, a start
that is refused leaves all of it as it is and calls nobody.
-/

namespace LocalCloud

namespace Orchestrator

/-! ## The first name that is there twice -/

/-- The name is the first one in the list that has occurred before. -/
def FirstRepeated (names : List String) (name : String) : Prop :=
  ∃ before after, names = before ++ name :: after ∧ before.Nodup ∧ name ∈ before

variable {names : List String} {name : String}

theorem repeatedName?_eq_some_iff {seen : List String} : repeatedName? seen names = some name ↔
    ∃ before after, names = before ++ name :: after ∧ before.Nodup ∧
      (∀ x ∈ before, x ∉ seen) ∧ (name ∈ before ∨ name ∈ seen) := by
  induction names generalizing seen with
  | nil => simp [repeatedName?]
  | cons head rest ih =>
    unfold repeatedName?
    split
    · next hseen =>
      constructor
      · rintro ⟨⟩
        exact ⟨[], rest, rfl, List.nodup_nil, by simp, .inr hseen⟩
      · rintro ⟨before, after, hsplit, -, hnew, hname⟩
        -- nothing that has been seen comes before the name
        cases before with
        | nil => exact congrArg some (List.cons.inj hsplit).1
        | cons x before =>
          obtain ⟨rfl, -⟩ := List.cons.inj hsplit
          exact absurd hseen (hnew head List.mem_cons_self)
    · next hseen =>
      rw [ih]
      constructor
      · rintro ⟨before, after, rfl, hnodup, hnew, hname⟩
        refine ⟨head :: before, after, rfl, ?_, ?_, ?_⟩
        · exact List.nodup_cons.2 ⟨fun h => hnew head h List.mem_cons_self, hnodup⟩
        · intro x hx
          rcases List.mem_cons.1 hx with rfl | hx
          · exact hseen
          · exact fun h => hnew x hx (List.mem_cons_of_mem _ h)
        · rcases hname with hname | hname
          · exact .inl (List.mem_cons_of_mem _ hname)
          · rcases List.mem_cons.1 hname with rfl | hname
            · exact .inl List.mem_cons_self
            · exact .inr hname
      · rintro ⟨before, after, hsplit, hnodup, hnew, hname⟩
        cases before with
        | nil =>
          obtain ⟨rfl, -⟩ := List.cons.inj hsplit
          exact absurd (hname.resolve_left List.not_mem_nil) hseen
        | cons x before =>
          obtain ⟨rfl, rfl⟩ := List.cons.inj hsplit
          obtain ⟨hx, hnodup⟩ := List.nodup_cons.1 hnodup
          refine ⟨before, after, rfl, hnodup, ?_, ?_⟩
          · intro y hy hmem
            rcases List.mem_cons.1 hmem with rfl | hmem
            · exact hx hy
            · exact hnew y (List.mem_cons_of_mem _ hy) hmem
          · rw [List.mem_cons] at hname ⊢
            tauto

theorem repeatedName?_nil_eq_some_iff :
    repeatedName? [] names = some name ↔ FirstRepeated names name := by
  rw [repeatedName?_eq_some_iff]
  simp [FirstRepeated]

/-- Some name is the first to occur again exactly when the names are not all different. -/
theorem exists_firstRepeated_iff : (∃ name, FirstRepeated names name) ↔ ¬ names.Nodup := by
  simp only [← repeatedName?_nil_eq_some_iff, ← Option.isSome_iff_exists]
  rw [Option.isSome_iff_ne_none, Ne, repeatedName?_eq_none_iff]
  simp

/-! ## The checks, one after another -/

/-- What a start is refused for: the first of the checks that fails. -/
inductive Refused (o : Orchestrator) (graph : Graph) (providers : List Provider)
    (order : List String) : StartFailure → Prop
  | alreadyRunning (hrunning : o.running = true) : Refused o graph providers order .alreadyRunning
  | cycle (hidle : o.running = false) (hcyclic : ¬ graph.Acyclic) :
    Refused o graph providers order (.cycle graph.cycles)
  | duplicateProvider {name : String} (hidle : o.running = false) (hacyclic : graph.Acyclic)
    (hname : FirstRepeated (providers.map (·.name)) name) :
    Refused o graph providers order (.duplicateProvider name)
  | invalidOrder {node : String} {waitingOn : List String} (hidle : o.running = false)
    (hacyclic : graph.Acyclic) (hnames : (providers.map (·.name)).Nodup)
    (hplan : planWaves order graph.dependencies o.settings.startup =
      .error (.invalidOrder node waitingOn)) :
    Refused o graph providers order (.invalidOrder node waitingOn)

variable {o : Orchestrator} {graph : Graph} {providers : List Provider} {order : List String}
  {failure : StartFailure}

/-- The checks name the first one that fails, and one that fails is named. -/
theorem accept_eq_error_iff (hformed : graph.Formed) :
    o.accept graph providers order = .error failure ↔
      Refused o graph providers order failure := by
  have hacyclic := Graph.cycles_eq_nil_iff hformed
  unfold accept
  constructor
  · intro h
    split at h
    · next hrunning =>
      obtain rfl := Except.error.inj h
      exact .alreadyRunning hrunning
    next hidle =>
    rw [Bool.not_eq_true] at hidle
    split at h
    · next hcycles =>
      obtain rfl := Except.error.inj h
      rw [← hcycles]
      exact .cycle hidle fun hnone => by simp [hacyclic.2 hnone] at hcycles
    next hcycles =>
    split at h
    · next hname =>
      obtain rfl := Except.error.inj h
      exact .duplicateProvider hidle (hacyclic.1 hcycles) (repeatedName?_nil_eq_some_iff.1 hname)
    · next hnames =>
      obtain ⟨node, waitingOn, rfl⟩ := invalidOrder_of_planWaves h
      exact .invalidOrder hidle (hacyclic.1 hcycles) (repeatedName?_eq_none_iff.1 hnames).1 h
  · intro h
    cases h with
    | alreadyRunning hrunning => simp [hrunning]
    | cycle hidle hcyclic =>
      obtain ⟨cycle, more, hcycles⟩ := List.exists_cons_of_ne_nil (mt hacyclic.1 hcyclic)
      simp [hidle, hcycles]
    | duplicateProvider hidle hnone hname =>
      simp [hidle, hacyclic.2 hnone, repeatedName?_nil_eq_some_iff.2 hname]
    | invalidOrder hidle hnone hnames hplan =>
      have hrepeated : repeatedName? [] (providers.map (·.name)) = none :=
        repeatedName?_eq_none_iff.2 ⟨hnames, by simp⟩
      simp [hidle, hacyclic.2 hnone, hrepeated, hplan]

/-! ## The whole start -/

variable {σ : Type}

/-- A start fails for the first of its checks that fails, and only then with such a failure:
because the orchestrator is running, else because the graph has a cycle, else because two providers
share a name, else because the order cannot be cut into waves.  It leaves the orchestrator as it
was, and nothing happens to any provider. -/
theorem start_refused_iff (w : World σ) (o : Orchestrator) (s : σ) {nodes : List GraphNode}
    {edges : List GraphEdge} {graph : Graph}
    (hgraph : (Graph.build nodes edges).run.value = .ok graph) (providers : List Provider)
    (order : List String) :
    ((start w o s graph providers order).value.result = .error .alreadyRunning ↔
      o.running = true) ∧
    (∀ cycles, (start w o s graph providers order).value.result = .error (.cycle cycles) ↔
      o.running = false ∧ ¬ graph.Acyclic ∧ cycles = graph.cycles) ∧
    (∀ name, (start w o s graph providers order).value.result =
        .error (.duplicateProvider name) ↔
      o.running = false ∧ graph.Acyclic ∧ FirstRepeated (providers.map (·.name)) name) ∧
    ((∃ name, (start w o s graph providers order).value.result =
        .error (.duplicateProvider name)) ↔
      o.running = false ∧ graph.Acyclic ∧ ¬ (providers.map (·.name)).Nodup) ∧
    (∀ node waitingOn, (start w o s graph providers order).value.result =
        .error (.invalidOrder node waitingOn) ↔
      o.running = false ∧ graph.Acyclic ∧ (providers.map (·.name)).Nodup ∧
      planWaves order graph.dependencies o.settings.startup =
        .error (.invalidOrder node waitingOn)) ∧
    ((∃ node waitingOn, (start w o s graph providers order).value.result =
        .error (.invalidOrder node waitingOn)) ↔
      o.running = false ∧ graph.Acyclic ∧ (providers.map (·.name)).Nodup ∧
      ∃ failure, planWaves order graph.dependencies o.settings.startup = .error failure) ∧
    ∀ failure, failure.isRefusal = true →
      (start w o s graph providers order).value.result = .error failure →
      (start w o s graph providers order).value.orchestrator = o ∧
      (start w o s graph providers order).value.world = s ∧
      (start w o s graph providers order).value.history = [] := by
  have hiff : ∀ failure, failure.isRefusal = true →
      ((start w o s graph providers order).value.result = .error failure ↔
        Refused o graph providers order failure) := by
    intro failure hrefusal
    rw [result_eq_refusal_iff w hrefusal, accept_eq_error_iff (Graph.formed_of_build hgraph)]
  have hname : ∀ name, (start w o s graph providers order).value.result =
        .error (.duplicateProvider name) ↔
      o.running = false ∧ graph.Acyclic ∧ FirstRepeated (providers.map (·.name)) name := by
    intro name
    rw [hiff _ rfl]
    constructor
    · rintro ⟨⟩
      exact ⟨‹_›, ‹_›, ‹_›⟩
    · rintro ⟨hidle, hacyclic, hname⟩
      exact .duplicateProvider hidle hacyclic hname
  have horder : ∀ node waitingOn, (start w o s graph providers order).value.result =
        .error (.invalidOrder node waitingOn) ↔
      o.running = false ∧ graph.Acyclic ∧ (providers.map (·.name)).Nodup ∧
      planWaves order graph.dependencies o.settings.startup =
        .error (.invalidOrder node waitingOn) := by
    intro node waitingOn
    rw [hiff _ rfl]
    constructor
    · rintro ⟨⟩
      exact ⟨‹_›, ‹_›, ‹_›, ‹_›⟩
    · rintro ⟨hidle, hacyclic, hnames, hplan⟩
      exact .invalidOrder hidle hacyclic hnames hplan
  refine ⟨?_, fun cycles => ?_, hname, ?_, horder, ?_, fun failure hrefusal hfail => ?_⟩
  · rw [hiff _ rfl]
    constructor
    · rintro ⟨⟩
      assumption
    · exact .alreadyRunning
  · rw [hiff _ rfl]
    constructor
    · rintro ⟨⟩
      exact ⟨‹_›, ‹_›, rfl⟩
    · rintro ⟨hidle, hcyclic, rfl⟩
      exact .cycle hidle hcyclic
  · simp only [hname, exists_and_left, exists_firstRepeated_iff]
  · simp only [horder, exists_and_left]
    refine and_congr_right fun _ => and_congr_right fun _ => and_congr_right fun _ => ?_
    constructor
    · rintro ⟨node, waitingOn, hplan⟩
      exact ⟨_, hplan⟩
    · rintro ⟨failure, hplan⟩
      obtain ⟨node, waitingOn, rfl⟩ := invalidOrder_of_planWaves hplan
      exact ⟨node, waitingOn, hplan⟩
  · rw [result_eq_refusal_iff w hrefusal] at hfail
    rw [start_of_refused w o s hfail]
    exact ⟨rfl, rfl, rfl⟩

/-- An orchestrator that has brought up a table under its second token. -/
def tableUp : Orchestrator where
  running := true
  started := [{ name := "table", node := "Orders" }]
  statuses := [("table", .running)]
  token := 1

/-- Services two of which share a name. -/
def namesakes : List Provider :=
  [{ name := "table", node := "Orders" }, { name := "worker", node := "Worker" },
    { name := "worker", node := "Audit" }, { name := "table", node := "Audit" }]

/-- An idle orchestrator finds the name that is there twice before it finds the order wrong, and one
that is running looks at neither and keeps what it has to stop. -/
theorem namesakes_refused :
    (Graph.build Graph.twoReasons.nodes Graph.twoReasons.edges).run.value =
      .ok Graph.twoReasons ∧
    (start Clock.world {} { settings := {} } Graph.twoReasons namesakes
      ["Worker", "Orders"]).value.result = .error (.duplicateProvider "worker") ∧
    (start Clock.world tableUp { settings := {} } Graph.twoReasons namesakes
      ["Worker", "Orders"]).value.result = .error .alreadyRunning ∧
    (start Clock.world tableUp { settings := {} } Graph.twoReasons namesakes
      ["Worker", "Orders"]).value.orchestrator = tableUp ∧
    (start Clock.world tableUp { settings := {} } Graph.twoReasons namesakes
      ["Worker", "Orders"]).value.history = [] := by
  have hbuilt : (Graph.build Graph.twoReasons.nodes Graph.twoReasons.edges).run.value =
      .ok Graph.twoReasons := rfl
  have hacyclic : Graph.twoReasons.Acyclic :=
    (Graph.cycles_eq_nil_iff (Graph.formed_of_build hbuilt)).1 (by decide +kernel)
  have hname : FirstRepeated (namesakes.map (·.name)) "worker" :=
    ⟨["table", "worker"], ["table"], rfl, by decide, by decide⟩
  obtain ⟨-, -, hidle, -⟩ := start_refused_iff Clock.world {} { settings := {} } hbuilt namesakes
    ["Worker", "Orders"]
  obtain ⟨hrunning, -, -, -, -, -, hkept⟩ := start_refused_iff Clock.world tableUp
    { settings := {} } hbuilt namesakes ["Worker", "Orders"]
  obtain ⟨horchestrator, -, hhistory⟩ := hkept _ rfl (hrunning.2 rfl)
  exact ⟨hbuilt, (hidle "worker").2 ⟨rfl, hacyclic, hname⟩, hrunning.2 rfl, horchestrator, hhistory⟩

end Orchestrator

end LocalCloud
