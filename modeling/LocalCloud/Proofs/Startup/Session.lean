import LocalCloud.Proofs.Startup.Cancellation
import LocalCloud.Proofs.Startup.Statuses

/-!
# Sessions

A session is the life of one orchestrator: starts, stops and cancellations follow each other in any
order, and each call meets a world of its own.  After each of them the statuses agree with what
has to be stopped, and what has to be stopped is all that the last start was asked to bring up, in
the order of its waves, or nothing (`Session.Sound`).
-/

namespace LocalCloud

/-- What a start is asked for. -/
structure Request where
  graph : Graph := {}
  providers : List Provider := []
  order : List String := []

/-- A call of an orchestrator, with the world in which it happens. -/
inductive Call : Type 1 where
  | start {σ : Type} (w : World σ) (s : σ) (request : Request)
  | stop {σ : Type} (w : World σ) (s : σ)
  | cancel (token : Nat)

/-- An orchestrator between two calls, and what the last start was asked for that it did not
refuse. -/
structure Session where
  orchestrator : Orchestrator
  request : Request := {}

namespace Session

section Calls

variable {σ : Type} (x : Session) (w : World σ) (s : σ)

/-- What a start does. -/
def starting (r : Request) : Orchestrator.Passage σ StartFailure :=
  (x.orchestrator.start w s r.graph r.providers r.order).value

/-- What a stop does. -/
def stopping : Orchestrator.Passage σ StopFailure := (x.orchestrator.stop w s).value

/-- The session after a start. -/
def start (r : Request) : Session where
  orchestrator := (x.starting w s r).orchestrator
  request := match x.orchestrator.accept r.graph r.providers r.order with
    | .ok _ => r
    | .error _ => x.request

/-- The session after a stop. -/
def stop : Session := { x with orchestrator := (x.stopping w s).orchestrator }

/-- The session after a cancellation. -/
def cancel (token : Nat) : Session := { x with orchestrator := x.orchestrator.cancel token }

end Calls

/-- The session after one more call. -/
def step (x : Session) : Call → Session
  | .start w s r => x.start w s r
  | .stop w s => x.stop w s
  | .cancel token => x.cancel token

/-- The session of a new orchestrator after some calls. -/
def after (settings : OrchestratorSettings) (calls : List Call) : Session :=
  calls.foldl step { orchestrator := { settings } }

/-- What holds between two calls. -/
structure Sound (settings : OrchestratorSettings) (x : Session) : Prop where
  unchanged : x.orchestrator.settings = settings
  accurate : x.orchestrator.Accurate
  idle : x.orchestrator.running = false → x.orchestrator.started = []
  inOrder : x.orchestrator.started = [] ∨
    ∃ waves, planWaves x.request.order x.request.graph.dependencies settings.startup = .ok waves ∧
      x.orchestrator.started = (membersOf x.request.providers waves).flatten

variable {settings : OrchestratorSettings} {x : Session}

theorem sound_new (settings : OrchestratorSettings) :
    Sound settings { orchestrator := { settings } } where
  unchanged := rfl
  accurate := by constructor <;> simp [Orchestrator.status?]
  idle := fun _ => rfl
  inOrder := .inl rfl

namespace Sound

theorem start (h : x.Sound settings) {σ : Type} (w : World σ) (s : σ) (r : Request) :
    (x.start w s r).Sound settings := by
  unfold Session.start starting
  cases haccept : x.orchestrator.accept r.graph r.providers r.order with
  | error failure =>
    rw [Orchestrator.start_of_refused w x.orchestrator s haccept]
    exact h
  | ok waves =>
    have hcourse := Orchestrator.course_start w x.orchestrator s haccept
    refine ⟨hcourse.settings.trans h.unchanged, Orchestrator.accurate_start w s haccept, ?_, ?_⟩
    · intro hrunning
      rcases hcourse.outcome with ⟨-, hup, -⟩ | ⟨_, -, -, hnone⟩
      · exact absurd (hup.symm.trans hrunning) (by simp)
      · exact hnone
    · rcases hcourse.outcome with ⟨-, -, hstarted⟩ | ⟨_, -, -, hnone⟩
      · have hplan := (Orchestrator.accepted_of_accept haccept).plan
        rw [h.unchanged] at hplan
        exact .inr ⟨waves, hplan, hstarted⟩
      · exact .inl hnone

theorem stop (h : x.Sound settings) {σ : Type} (w : World σ) (s : σ) :
    (x.stop w s).Sound settings where
  unchanged := by
    obtain ⟨hsettings, -, -, -⟩ :=
      Orchestrator.alike_stopEach w x.orchestrator s x.orchestrator.started.reverse
    exact hsettings.trans h.unchanged
  accurate := Orchestrator.accurate_stop w s h.accurate
  idle := fun _ => rfl
  inOrder := .inl rfl

theorem cancel (h : x.Sound settings) (token : Nat) : (x.cancel token).Sound settings := by
  unfold Session.cancel Orchestrator.cancel
  split
  · exact ⟨h.unchanged, ⟨h.accurate.not_starting, h.accurate.running_iff, h.accurate.names⟩,
      h.idle, h.inOrder⟩
  · exact h

theorem step (h : x.Sound settings) (call : Call) : (x.step call).Sound settings := by
  cases call with
  | start w s r => exact h.start w s r
  | stop w s => exact h.stop w s
  | cancel token => exact h.cancel token

theorem foldl (h : x.Sound settings) (calls : List Call) :
    (calls.foldl Session.step x).Sound settings := by
  induction calls generalizing x with
  | nil => exact h
  | cons call calls ih => exact ih (h.step call)

end Sound

theorem sound_after (settings : OrchestratorSettings) (calls : List Call) :
    (after settings calls).Sound settings := (sound_new settings).foldl calls

/-- After any sequence of starts, stops and cancellations nobody is said to be starting, just those
are said to be running that have to be stopped, nobody has to be stopped unless the orchestrator is
running, and no name has to be stopped twice.  A start that comes next and is cancelled leaves a
token that is not cancelled. -/
theorem statuses_match_started (settings : OrchestratorSettings) (calls : List Call) :
    (∀ name, (after settings calls).orchestrator.status? name ≠ some .starting) ∧
    (∀ name, (after settings calls).orchestrator.status? name = some .running ↔
      name ∈ (after settings calls).orchestrator.started.map (·.name)) ∧
    ((after settings calls).orchestrator.running = false →
      (after settings calls).orchestrator.started = []) ∧
    ((after settings calls).orchestrator.started.map (·.name)).Nodup ∧
    ∀ {σ : Type} (w : World σ) (s : σ) (r : Request),
      ((after settings calls).starting w s r).result = .error .cancelled →
      ((after settings calls).start w s r).orchestrator.cancelled = false := by
  obtain ⟨-, haccurate, hidle, -⟩ := sound_after settings calls
  refine ⟨haccurate.not_starting, haccurate.running_iff, hidle, haccurate.names, ?_⟩
  intro σ w s r hcancelled
  rcases Orchestrator.start_cases w (after settings calls).orchestrator s r.graph r.providers
    r.order with ⟨failure, hrefusal, heq⟩ | ⟨_, _, -, -, -, -, -, -, hcourse⟩
  · rw [starting, heq, Except.error.injEq] at hcancelled
    simp [hcancelled, StartFailure.isRefusal] at hrefusal
  · exact (hcourse.of_cancelled hcancelled).2.1

end Session

end LocalCloud
