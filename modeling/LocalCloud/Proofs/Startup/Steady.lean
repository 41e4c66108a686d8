import LocalCloud.Proofs.Startup.Interleaving
import LocalCloud.Proofs.Startup.Polling

/-!
# Starts that nothing disturbs

A world is steady (`World.Steady`) when nobody cancels the startup in it and the tasks of its
providers learn nothing but what a task learns that comes up.  Every task of a start in such a world
ends with the provider up (`keeps_start`).  Virtual time is steady for providers that become healthy
in time (`Clock.steady_world`).
-/

namespace LocalCloud

/-- The task of every provider ends with the provider up. -/
def allRunning (_ : Provider) : TaskOutcome := .running

/-- Whether a task learns this on its way up. -/
def Signal.isSteady : Signal → Bool
  | called | launched | healthy => true
  | refused _ | died | overdue | stopEnded _ => false

/-- Whether this can happen while all members of a wave come up and nobody cancels the startup. -/
def WaveEvent.isSteady : WaveEvent → Bool
  | act _ signal => signal.isSteady
  | cancel => false
  | notice => true

/-- Whether a world leaves starts undisturbed as long as it is in a state that is `good` and brings
up nothing but providers that are `up`. -/
structure World.Steady {σ : Type} (w : World σ) (good : σ → Prop) (up : Provider → Prop) :
    Prop where
  wave : ∀ s members, good s → (∀ p ∈ members, up p) →
    (∀ event ∈ (w.wave s members).1, event.isSteady = true) ∧ good (w.wave s members).2
  stop : ∀ s p, good s → (w.stop s p).1.2 = false ∧ good (w.stop s p).2

section Steady

variable {settings : OrchestratorSettings}

theorem keeps_of_isSteady {signal : Signal} (h : signal.isSteady = true) (p : Provider) :
    (Happening.signalled p signal).Keeps settings allRunning := by
  cases signal <;> simp_all [Signal.isSteady, Happening.Keeps, Signal.outcome?, allRunning]

/-- Events that disturb nothing leave nothing else in the history of a wave. -/
theorem Wave.keeps_run (settings' : OrchestratorSettings) {events : List WaveEvent}
    (hevents : ∀ event ∈ events, event.isSteady = true) {wave : Wave}
    (hwave : ∀ x ∈ wave.history, x.Keeps settings allRunning) :
    ∀ x ∈ (wave.run settings' events).value.history, x.Keeps settings allRunning := by
  induction events generalizing wave with
  | nil => exact hwave
  | cons event events ih =>
    obtain ⟨hevent, hrest⟩ := List.forall_mem_cons.1 hevents
    rw [value_run_cons]
    refine ih hrest ?_
    cases event with
    | act place signal =>
      show ∀ x ∈ (wave.act settings' place signal).value.history, x.Keeps settings allRunning
      unfold act
      split
      · exact hwave
      split
      · exact hwave
      · exact List.forall_mem_append.2 ⟨hwave, by simpa using keeps_of_isSteady hevent _⟩
    | cancel => simp [WaveEvent.isSteady] at hevent
    | notice =>
      show ∀ x ∈ wave.notice.history, x.Keeps settings allRunning
      unfold notice
      split
      · exact List.forall_mem_append.2 ⟨hwave, by simp [Happening.Keeps]⟩
      · exact hwave

namespace Orchestrator

variable (settings) {σ : Type} {w : World σ} {good : σ → Prop} {up : Provider → Prop}

theorem keeps_startWave (hw : w.Steady good up) (o : Orchestrator) {s : σ} (hs : good s)
    {members : List Provider} (hup : ∀ p ∈ members, up p) :
    (∀ x ∈ (startWave w o s members).value.history, x.Keeps settings allRunning) ∧
      good (startWave w o s members).value.world := by
  obtain ⟨hevents, hgood⟩ := hw.wave s members hs hup
  rw [value_startWave]
  refine ⟨Wave.keeps_run o.settings hevents fun x hx => ?_, hgood⟩
  obtain ⟨p, -, rfl⟩ := List.mem_map.1 hx
  trivial

theorem keeps_stopEach (hw : w.Steady good up) (o : Orchestrator) {s : σ} (hs : good s)
    (providers : List Provider) :
    ∀ x ∈ (stopEach w o s providers).value.history, x.Keeps settings allRunning := by
  induction providers generalizing o s with
  | nil => simp [stopEach]
  | cons p rest ih =>
    obtain ⟨hcancelled, hgood⟩ := hw.stop s p hs
    rw [value_stopEach_cons]
    refine List.forall_mem_append.2 ⟨?_, ih _ hgood⟩
    simp [stopOne, hcancelled, Happening.Keeps]

theorem keeps_rollback (hw : w.Steady good up) (o : Orchestrator) {s : σ} (hs : good s)
    (failure : StartFailure) :
    ∀ x ∈ (rollback w o s failure).value.history, x.Keeps settings allRunning := by
  rw [value_rollback]
  exact keeps_stopEach settings hw o hs o.started.reverse

theorem keeps_startWaves (hw : w.Steady good up) (o : Orchestrator) {s : σ} (hs : good s)
    (number : Nat) {lists : List (List Provider)} (hup : ∀ members ∈ lists, ∀ p ∈ members, up p) :
    ∀ x ∈ (startWaves w o s number lists).value.history, x.Keeps settings allRunning := by
  induction lists generalizing o s number with
  | nil => simp [startWaves]
  | cons members rest ih =>
    obtain ⟨hmembers, hrest⟩ := List.forall_mem_cons.1 hup
    unfold startWaves
    split
    · exact List.forall_mem_cons.2 ⟨trivial, keeps_rollback settings hw o hs .cancelled⟩
    split
    · exact ih o hs (number + 1) hrest
    obtain ⟨hfirst, hgood⟩ := keeps_startWave settings hw o hs hmembers
    cases hresult : (startWave w o s members).value.result with
    | ok _ =>
      have hnext := ih (startWave w o s members).value.orchestrator hgood (number + 1) hrest
      simpa [hresult] using List.forall_mem_append.2 ⟨hfirst, hnext⟩
    | error failure =>
      have hback := keeps_rollback settings hw
        (startWave w o s members).value.orchestrator hgood failure
      by_cases hf : failure = .cancelled <;>
        simpa [hresult, hf] using List.forall_mem_append.2 ⟨hfirst, hback⟩

/-- In a world that is steady for the providers that take part in a start, every task of the start
ends with the provider up. -/
theorem keeps_start (hw : w.Steady good up) (o : Orchestrator) {s : σ} (hs : good s)
    (graph : Graph) {providers : List Provider} {order : List String}
    (hup : ∀ p ∈ providers, p.node ∈ order → up p) :
    ∀ x ∈ (start w o s graph providers order).value.history, x.Keeps settings allRunning := by
  cases haccept : o.accept graph providers order with
  | error failure => simp [start_of_refused w o s haccept]
  | ok waves =>
    unfold start
    rw [haccept]
    refine keeps_startWaves settings hw (o.cleared providers) hs 1 fun members hmembers p hp => ?_
    obtain ⟨hlisted, hnode⟩ := (accepted_of_accept haccept).mem_members_iff.1
      (List.mem_flatten.2 ⟨members, hmembers, hp⟩)
    exact hup p hlisted hnode

end Orchestrator

end Steady

/-! ## Virtual time -/

/-- Whether a provider comes up by itself: it starts, and the health check that is the first to come
out true has come out before the health timeout is over. -/
structure Script.ComesUp (settings : OrchestratorSettings) (s : Script) : Prop where
  cancels : s.cancels = false
  dies : s.dies = false
  startError? : s.startError? = none
  neverHealthy : s.neverHealthy = false
  inTime : s.unhealthyChecks * (s.healthDelay + settings.healthPollInterval) + s.healthDelay ≤
    settings.healthTimeout

/-- Whether a task goes on coming up when its provider does this. -/
def Beat.isSteady : Beat → Bool
  | startCalled | checked => true
  | signal learnt => learnt.isSteady
  | cancels | stopCalled | stopEnded _ => false

namespace Script

variable {settings : OrchestratorSettings} {s : Script}

theorem ComesUp.isSteady_of_mem_timeline (h : s.ComesUp settings) (t : Nat) :
    ∀ beat ∈ s.timeline settings t, beat.2.isSteady = true := by
  have htime : s.HealthyInTime settings := ⟨h.neverHealthy, h.inTime⟩
  rw [timeline_of_launches h.dies h.startError?, poll_of_healthyInTime htime]
  refine List.forall_mem_append.2 ⟨?_, List.forall_mem_append.2 ⟨fun beat hbeat => ?_, ?_⟩⟩
  · simp [lead, h.cancels, Beat.isSteady, Signal.isSteady]
  · rw [eq_checked_of_mem_checksFrom settings s _ _ hbeat]
    rfl
  · simp [Beat.isSteady, Signal.isSteady]

end Script

namespace Clock

variable {settings : OrchestratorSettings}

/-- Virtual time with these settings on which the startup is not going to be cancelled from
outside. -/
def Undisturbed (settings : OrchestratorSettings) (c : Clock) : Prop :=
  c.settings = settings ∧ c.cancelAt? = none

/-- What the orchestrator can observe of a beat on the way up. -/
theorem isSteady_of_event? {m : Moment} {event : WaveEvent} (hm : m.beat.isSteady = true)
    (hevent : m.event? = some event) : event.isSteady = true := by
  obtain ⟨_, _, _, beat⟩ := m
  cases beat with
  | signal learnt =>
    obtain rfl := Option.some.inj hevent
    exact hm
  | startCalled =>
    obtain rfl := Option.some.inj hevent
    rfl
  | checked => simp [Moment.event?, Beat.signal?] at hevent
  | cancels | stopCalled | stopEnded _ => simp [Beat.isSteady] at hm

/-- What members do that come up. -/
theorem isSteady_of_mem_moments {c : Clock} (hc : c.Undisturbed settings) {members : List Provider}
    (hup : ∀ p ∈ members, p.script.ComesUp settings) :
    ∀ m ∈ c.moments members, m.beat.isSteady = true := by
  intro m hm
  rw [moments, List.mem_mergeSort, List.mem_flatMap] at hm
  obtain ⟨⟨p, place⟩, hp, hm⟩ := hm
  obtain ⟨⟨time, beat⟩, hbeat, rfl⟩ := List.mem_map.1 hm
  have hlisted : p ∈ members := List.fst_mem_of_mem_zipIdx hp
  rw [hc.1] at hbeat
  exact (hup p hlisted).isSteady_of_mem_timeline c.now _ hbeat

/-- Virtual time is steady for providers that come up by themselves. -/
theorem steady_world (settings : OrchestratorSettings) :
    world.Steady (Undisturbed settings) fun p => p.script.ComesUp settings where
  wave := by
    intro c members hc hup
    have hsteady := isSteady_of_mem_moments hc hup
    have hnone : c.cancellation? (c.moments members) = none :=
      cancellation?_eq_none hc.2 fun p hp => (hup p hp).cancels
    show (∀ event ∈ (c.wave members).1, event.isSteady = true) ∧
      Undisturbed settings (c.wave members).2
    unfold wave
    simp only [hnone]
    refine ⟨fun event hevent => ?_, hc⟩
    obtain ⟨m, hm, heq⟩ := List.mem_filterMap.1 hevent
    exact isSteady_of_event? (hsteady m hm) heq
  stop := by
    intro c p hc
    show (c.stop p).1.2 = false ∧ Undisturbed settings (c.stop p).2
    simp [stop, Undisturbed, hc.1, hc.2]

end Clock

end LocalCloud
