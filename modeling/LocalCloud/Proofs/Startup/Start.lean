import LocalCloud.Proofs.Startup.Course
import LocalCloud.Proofs.Startup.Waves
import Mathlib.Data.List.Nodup

/-!
# Refused starts and accepted ones

A start is refused before anything happens, or it goes through the waves of its order
(`start_cases`).  Each wave of nodes stands for the providers of these nodes (`membersOf`), and no
provider is in two of them.
-/

namespace LocalCloud

/-- Whether a failure says that the start was refused before anything happened. -/
def StartFailure.isRefusal : StartFailure → Bool
  | .cycle _ | .invalidOrder _ _ | .alreadyRunning | .duplicateProvider _ => true
  | .refused _ _ | .unhealthy _ _ | .died _ | .cancelled => false

/-- The members of the waves, provider by provider. -/
def membersOf (providers : List Provider) (waves : List (List String)) : List (List Provider) :=
  waves.map fun wave => wave.flatMap fun id => providers.filter (·.node == id)

section Members

variable {providers : List Provider} {waves : List (List String)}

theorem flatten_membersOf (providers : List Provider) (waves : List (List String)) :
    (membersOf providers waves).flatten =
      waves.flatten.flatMap fun id => providers.filter (·.node == id) := by
  rw [membersOf, List.flatMap_def, List.map_flatten, List.flatten_flatten, List.map_map]
  rfl

theorem mem_members {wave : List String} {p : Provider} :
    (p ∈ wave.flatMap fun id => providers.filter (·.node == id)) ↔
      p ∈ providers ∧ p.node ∈ wave := by
  simp only [List.mem_flatMap, List.mem_filter, beq_iff_eq]
  constructor
  · rintro ⟨_, hid, hp, rfl⟩
    exact ⟨hp, hid⟩
  · rintro ⟨hp, hid⟩
    exact ⟨p.node, hid, hp, rfl⟩

theorem mem_flatten_membersOf {p : Provider} :
    p ∈ (membersOf providers waves).flatten ↔ p ∈ providers ∧ p.node ∈ waves.flatten := by
  rw [flatten_membersOf, mem_members]

/-- Providers come in one wave each, and there once. -/
theorem nodup_flatten_membersOf (hproviders : providers.Nodup) (hwaves : waves.flatten.Nodup) :
    (membersOf providers waves).flatten.Nodup := by
  rw [flatten_membersOf, List.nodup_flatMap]
  refine ⟨fun id _ => hproviders.filter _, hwaves.imp fun {a b} hab => ?_⟩
  intro p hpa hpb
  simp only [List.mem_filter, beq_iff_eq] at hpa hpb
  exact hab (hpa.2.symm.trans hpb.2)

/-- A wave of providers stands for a wave of nodes. -/
theorem exists_wave_of_membersOf_eq {earlier later : List (List Provider)}
    {members : List Provider} (h : membersOf providers waves = earlier ++ members :: later) :
    ∃ before wave after, waves = before ++ wave :: after ∧
      earlier = membersOf providers before ∧
      members = wave.flatMap fun id => providers.filter (·.node == id) := by
  obtain ⟨before, rest, rfl, hearlier, hrest⟩ := List.map_eq_append_iff.1 h
  obtain ⟨wave, after, rfl, hmembers, -⟩ := List.map_eq_cons_iff.1 hrest
  exact ⟨before, wave, after, rfl, hearlier.symm, hmembers.symm⟩

end Members

namespace Orchestrator

variable {o : Orchestrator} {graph : Graph} {providers : List Provider} {order : List String}
  {waves : List (List String)} {failure : StartFailure}

/-! ## What is accepted -/

theorem repeatedName?_eq_none_iff {seen names : List String} :
    repeatedName? seen names = none ↔ names.Nodup ∧ ∀ name ∈ names, name ∉ seen := by
  induction names generalizing seen with
  | nil => simp [repeatedName?]
  | cons name rest ih =>
    unfold repeatedName?
    split
    · next h => simp [h]
    · next h =>
      rw [ih, List.nodup_cons]
      constructor
      · rintro ⟨hnodup, hrest⟩
        refine ⟨⟨fun hmem => hrest name hmem List.mem_cons_self, hnodup⟩, ?_⟩
        intro x hx
        rcases List.mem_cons.1 hx with rfl | hx
        · exact h
        · exact fun hseen => hrest x hx (List.mem_cons_of_mem _ hseen)
      · rintro ⟨⟨hname, hnodup⟩, hrest⟩
        refine ⟨hnodup, fun x hx hseen => ?_⟩
        rcases List.mem_cons.1 hseen with rfl | hseen
        · exact hname hx
        · exact hrest x (List.mem_cons_of_mem _ hx) hseen

/-- What a start that is accepted goes by. -/
structure Accepted (o : Orchestrator) (graph : Graph) (providers : List Provider)
    (order : List String) (waves : List (List String)) : Prop where
  running : o.running = false
  acyclic : graph.cycles = []
  names : (providers.map (·.name)).Nodup
  plan : planWaves order graph.dependencies o.settings.startup = .ok waves

theorem accepted_of_accept (h : o.accept graph providers order = .ok waves) :
    Accepted o graph providers order waves := by
  unfold accept at h
  split at h
  · simp at h
  next hrunning =>
  split at h
  · simp at h
  next hcycles =>
  split at h
  · simp at h
  next hnames =>
  exact {
    running := by simpa using hrunning
    acyclic := hcycles
    names := (repeatedName?_eq_none_iff.1 hnames).1
    plan := h }

theorem isRefusal_of_accept (h : o.accept graph providers order = .error failure) :
    failure.isRefusal = true := by
  unfold accept at h
  split at h
  · obtain rfl := Except.error.inj h
    rfl
  split at h
  · obtain rfl := Except.error.inj h
    rfl
  split at h
  · obtain rfl := Except.error.inj h
    rfl
  · obtain ⟨node, waitingOn, rfl⟩ := invalidOrder_of_planWaves h
    rfl

namespace Accepted

variable (h : Accepted o graph providers order waves)

include h

theorem nodup_providers : providers.Nodup := h.names.of_map _

theorem nodup_flatten_waves : waves.flatten.Nodup := nodup_flatten_planWaves h.plan

theorem nodup_members : (membersOf providers waves).flatten.Nodup :=
  nodup_flatten_membersOf h.nodup_providers h.nodup_flatten_waves

theorem nodup_names : ((membersOf providers waves).flatten.map (·.name)).Nodup := by
  refine h.nodup_members.map_on fun p hp q hq hname => ?_
  exact List.inj_on_of_nodup_map h.names (mem_flatten_membersOf.1 hp).1
    (mem_flatten_membersOf.1 hq).1 hname

/-- The members of the waves are the providers whose node is in the order. -/
theorem mem_members_iff {p : Provider} :
    p ∈ (membersOf providers waves).flatten ↔ p ∈ providers ∧ p.node ∈ order := by
  rw [mem_flatten_membersOf, flatten_planWaves h.plan, List.mem_eraseDups]

end Accepted

/-! ## What a start does -/

variable {σ : Type} (w : World σ)

/-- The orchestrator as it goes into a start that is accepted: it forgets what was started before
and what became of it. -/
def cleared (o : Orchestrator) (providers : List Provider) : Orchestrator :=
  { o with
    started := []
    statuses := (providers.map (·.name)).map fun name => (name, .stopped) }

theorem start_of_refused (o : Orchestrator) (s : σ)
    (h : o.accept graph providers order = .error failure) :
    (start w o s graph providers order).value =
      { result := .error failure, orchestrator := o, world := s } := by
  unfold start
  rw [h]
  rfl

theorem course_start (o : Orchestrator) (s : σ) (h : o.accept graph providers order = .ok waves) :
    Course (o.cleared providers) (membersOf providers waves)
      (start w o s graph providers order).value := by
  unfold start
  rw [h]
  refine course_startWaves w (o.cleared providers) s 1 (membersOf providers waves) ?_
  intro members hmembers
  exact (accepted_of_accept h).nodup_members.sublist (List.sublist_flatten_of_mem hmembers)

/-- A start that is refused gives the orchestrator back as it was; one that is accepted forgets
what was started before and goes through its waves. -/
theorem start_cases (o : Orchestrator) (s : σ) (graph : Graph) (providers : List Provider)
    (order : List String) :
    (∃ failure, failure.isRefusal = true ∧ (start w o s graph providers order).value =
      { result := .error failure, orchestrator := o, world := s }) ∨
    ∃ waves o₁, Accepted o graph providers order waves ∧
      o₁.settings = o.settings ∧ o₁.running = false ∧ o₁.started = [] ∧ o₁.token = o.token ∧
      o₁.cancelled = o.cancelled ∧
      Course o₁ (membersOf providers waves) (start w o s graph providers order).value := by
  cases haccept : o.accept graph providers order with
  | error failure =>
    exact .inl ⟨failure, isRefusal_of_accept haccept, start_of_refused w o s haccept⟩
  | ok waves =>
    have haccepted := accepted_of_accept haccept
    exact .inr ⟨waves, o.cleared providers, haccepted, rfl, haccepted.running, rfl, rfl, rfl,
      course_start w o s haccept⟩

end Orchestrator

end LocalCloud
