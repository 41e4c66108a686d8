import LocalCloud.Settings.Basic
import LocalCloud.Startup.Provider
import LocalCloud.Warning

/-!
# The task that brings up one provider

Each provider of a wave is brought up by a task of its own: the task calls the start and waits for
it to return, asks for the health of the provider until it is good, and stops the provider again
when that takes too long.  What the provider does reaches the task as signals; a signal that does not
fit the phase of the task is not one that can come and changes nothing.

A provider is *launched* from the return of its start until the task itself has stopped it.  This
is what decides who has to stop it when the startup fails.
-/

namespace LocalCloud

/-- How a task ends. -/
inductive TaskOutcome where
  /-- The provider is up. -/
  | running
  /-- The provider did not come up. -/
  | failed (failure : StartFailure)
  /-- The task died. -/
  | died
  deriving DecidableEq

/-- How far a task has come. -/
inductive Phase where
  /-- The start has not been called yet. -/
  | spawned
  /-- The start has not returned yet. -/
  | starting
  /-- The start has returned and no health check has come out true yet. -/
  | polling
  /-- The health checks took too long and the task is stopping the provider. -/
  | stopping
  /-- The task is over. -/
  | finished (outcome : TaskOutcome)
  deriving DecidableEq

/-- What a task learns of its provider. -/
inductive Signal where
  /-- The start is called. -/
  | called
  /-- The start has returned. -/
  | launched
  /-- The start was refused. -/
  | refused (reason : String)
  /-- The task died. -/
  | died
  /-- A health check came out true. -/
  | healthy
  /-- The health timeout is over; the stop is called. -/
  | overdue
  /-- The stop call has ended. -/
  | stopEnded (ending : StopEnd)
  deriving DecidableEq

/-- The task of a provider. -/
structure Task where
  provider : Provider
  phase : Phase := .spawned
  launched : Bool := false
  deriving DecidableEq

namespace Task

/-- The outcome of a task, once it is over. -/
def outcome? (t : Task) : Option TaskOutcome :=
  match t.phase with
  | .finished o => some o
  | _ => none

/-- The phase that a signal leads to, if it is one that can come. -/
def next? (settings : OrchestratorSettings) (t : Task) (signal : Signal) : Option Phase :=
  match t.phase, signal with
  | .spawned, .called => some .starting
  | .spawned, _ => none
  | .starting, .launched => some .polling
  | .starting, .refused reason => some (.finished (.failed (.refused t.provider.name reason)))
  | .polling, .healthy => some (.finished .running)
  | .polling, .overdue => some .stopping
  | .stopping, .stopEnded _ =>
    some (.finished (.failed (.unhealthy t.provider.name settings.healthTimeout)))
  | .finished _, _ => none
  | _, .died => some (.finished .died)
  | _, _ => none

/-- Whether the provider is launched after a signal. -/
def launchedAfter (launched : Bool) : Signal → Bool
  | .launched => true
  | .stopEnded .stopped => false
  | _ => launched

/-- What there is to say of a signal. -/
def warning? (settings : OrchestratorSettings) (t : Task) : Signal → Option Warning
  | .overdue => some (.overdueHealth t.provider.name settings.healthTimeout)
  | .stopEnded (.refused reason) => some (.ownStopRefused t.provider.name reason)
  | .stopEnded .overdue => some (.ownStopOverdue t.provider.name settings.stopTimeout)
  | _ => none

/-- The task after a signal. -/
def step (settings : OrchestratorSettings) (t : Task) (signal : Signal) : Task :=
  match t.next? settings signal with
  | some phase => { t with phase, launched := launchedAfter t.launched signal }
  | none => t

@[simp] theorem provider_step (settings : OrchestratorSettings) (t : Task) (signal : Signal) :
    (t.step settings signal).provider = t.provider := by
  unfold step
  split <;> rfl

end Task

end LocalCloud
