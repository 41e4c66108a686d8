import LocalCloud.Startup.Task

/-!
# Waves of tasks

The tasks of one wave run at the same time.  What happens while they run is a list of events, in
the order in which the orchestrator could observe them: a task learns something, somebody cancels
the startup, or the orchestrator notices that the startup has been cancelled and gives the tasks
up.  The events may come in any order; the wave is settled once they are over, member by member
in the order of the wave, so that it does not matter which member was first.
-/

namespace LocalCloud

/-- Something that happens during a call of the orchestrator. -/
inductive Happening where
  /-- The task of the provider is spawned. -/
  | spawned (provider : Provider)
  /-- The task of the provider learns something. -/
  | signalled (provider : Provider) (signal : Signal)
  /-- Somebody cancels the startup. -/
  | cancelled
  /-- The orchestrator notices that the startup has been cancelled. -/
  | noticed
  /-- The orchestrator calls the stop. -/
  | stopCalled (provider : Provider)
  /-- That call has returned or has been given up. -/
  | stopEnded (provider : Provider) (failure? : Option StopFailure)
  deriving DecidableEq

/-- Something that happens while a wave is starting. -/
inductive WaveEvent where
  /-- The task at a place of the wave learns something. -/
  | act (place : Nat) (signal : Signal)
  /-- The startup is cancelled. -/
  | cancel
  /-- The orchestrator notices the cancellation and gives up the tasks that are not over. -/
  | notice
  deriving DecidableEq

/-- A wave that is starting. -/
structure Wave where
  tasks : List Task
  /-- Whether the startup has been cancelled. -/
  cancelled : Bool := false
  /-- Whether the orchestrator has noticed that. -/
  noticed : Bool := false
  /-- What has happened, in order. -/
  history : List Happening := []
  deriving DecidableEq

namespace Wave

/-- A wave whose tasks have all been spawned. -/
def begin (members : List Provider) (cancelled : Bool) : Wave where
  tasks := members.map fun provider => { provider }
  cancelled
  history := members.map .spawned

/-- The wave after the task at a place has learned something that it can learn. -/
def act (settings : OrchestratorSettings) (wave : Wave) (place : Nat) (signal : Signal) :
    Noted Wave :=
  match wave.tasks[place]? with
  | none => pure wave
  | some task =>
    if (task.next? settings signal).isNone then pure wave
    else
      { value :=
          { wave with
            tasks := wave.tasks.set place (task.step settings signal)
            history := wave.history ++ [.signalled task.provider signal] }
        warnings := (task.warning? settings signal).toList }

/-- The wave after somebody has cancelled the startup. -/
def cancel (wave : Wave) : Wave :=
  { wave with cancelled := true, history := wave.history ++ [.cancelled] }

/-- The wave after the orchestrator has looked for a cancellation.  Only what has been cancelled
can be noticed, and it is noticed once. -/
def notice (wave : Wave) : Wave :=
  if wave.cancelled && !wave.noticed then
    { wave with noticed := true, history := wave.history ++ [.noticed] }
  else wave

/-- The wave after an event. -/
def step (settings : OrchestratorSettings) (wave : Wave) : WaveEvent → Noted Wave
  | .act place signal => wave.act settings place signal
  | .cancel => pure wave.cancel
  | .notice => pure wave.notice

/-- The wave after a list of events. -/
def run (settings : OrchestratorSettings) (wave : Wave) (events : List WaveEvent) : Noted Wave :=
  events.foldlM (step settings) wave

/-- What the task at a place learns from a list of events. -/
def signalsAt (place : Nat) (events : List WaveEvent) : List Signal :=
  events.filterMap fun
    | .act i signal => if i = place then some signal else none
    | _ => none

section Run

variable (settings : OrchestratorSettings)

theorem value_run_cons (wave : Wave) (event : WaveEvent) (events : List WaveEvent) :
    (wave.run settings (event :: events)).value =
      ((wave.step settings event).value.run settings events).value := rfl

theorem value_run_append (wave : Wave) (first rest : List WaveEvent) :
    (wave.run settings (first ++ rest)).value =
      ((wave.run settings first).value.run settings rest).value := by
  simp [run, List.foldlM_append]

/-- A signal changes the task at its place, as far as that task can learn it, and no other. -/
theorem getElem?_tasks_act (wave : Wave) (place : Nat) (signal : Signal) (i : Nat) :
    (wave.act settings place signal).value.tasks[i]? =
      wave.tasks[i]?.map fun t => if place = i then t.step settings signal else t := by
  unfold act
  split
  · next h =>
    by_cases hi : place = i
    · subst hi
      simp [h]
    · simp [hi]
  · next task h =>
    by_cases hn : task.next? settings signal = none
    · have hstep : task.step settings signal = task := by simp [Task.step, hn]
      by_cases hi : place = i
      · subst hi
        simp [hn, h, hstep]
      · simp [hn, hi]
    · obtain ⟨hlt, rfl⟩ := List.getElem?_eq_some_iff.1 h
      by_cases hi : place = i
      · subst hi
        simp [hn, hlt]
      · simp [hn, hi]

/-- In the end a task is where its own signals have led it. -/
theorem getElem?_tasks_run (wave : Wave) (events : List WaveEvent) (i : Nat) :
    (wave.run settings events).value.tasks[i]? =
      wave.tasks[i]?.map fun t => (signalsAt i events).foldl (Task.step settings) t := by
  induction events generalizing wave with
  | nil => simp [run, signalsAt]
  | cons event events ih =>
    rw [value_run_cons, ih]
    cases event with
    | act place signal =>
      rw [step, getElem?_tasks_act]
      by_cases h : place = i <;> simp [signalsAt, h, Function.comp_def]
    | cancel => rfl
    | notice =>
      have htasks : wave.notice.tasks = wave.tasks := by
        unfold notice
        split <;> rfl
      rw [step, Noted.value_pure, htasks]
      rfl

/-- A cancellation that is looked for at the end is noticed. -/
theorem noticed_run_cancel_notice (wave : Wave) (events : List WaveEvent) :
    (wave.run settings (events ++ [.cancel, .notice])).value.noticed = true := by
  rw [value_run_append, value_run_cons, value_run_cons]
  show (notice (cancel _)).noticed = true
  unfold notice
  split
  · rfl
  · next h => simpa [cancel] using h

end Run

/-- Whether a wave is over: it has been given up, or all its tasks are over. -/
def isSettled (wave : Wave) : Bool := wave.noticed || wave.tasks.all (·.outcome?.isSome)

/-- What becomes of a task when its wave is settled. -/
inductive Fate where
  /-- The provider is up. -/
  | running
  /-- The provider is launched and its task has been given up. -/
  | interrupted
  /-- The provider is not launched and its task has been given up. -/
  | abandoned
  /-- The provider did not come up. -/
  | failed (failure : StartFailure)
  deriving DecidableEq

/-- The fate of a task.  A task that died in a wave that was given up counts as given up, and one
that never came to its end in a wave that was not counts as dead. -/
def fate (noticed : Bool) (task : Task) : Fate :=
  match task.outcome? with
  | some .running => .running
  | some (.failed failure) => .failed failure
  | _ =>
    if !noticed then .failed (.died task.provider.name)
    else if task.launched then .interrupted
    else .abandoned

/-- Whether the orchestrator has to stop a provider with this fate. -/
def Fate.isStarted : Fate → Bool
  | running | interrupted => true
  | abandoned | failed _ => false

/-- The status of a provider with this fate. -/
def Fate.status : Fate → ProviderStatus
  | running => .running
  | interrupted => .starting
  | abandoned => .stopped
  | failed _ => .error

/-- The failure that this fate stands for. -/
def Fate.failure? : Fate → Option StartFailure
  | failed failure => some failure
  | _ => none

variable (wave : Wave)

/-- The fates of all members, in the order of the wave. -/
def fates : List (Provider × Fate) :=
  wave.tasks.map fun task => (task.provider, fate wave.noticed task)

/-- The members that the orchestrator has to stop, in the order of the wave. -/
def started : List Provider := (wave.fates.filter (·.2.isStarted)).map (·.1)

/-- The failure of the wave: the cancellation if it was noticed, else that of the first member
that failed. -/
def failure? : Option StartFailure :=
  if wave.noticed then some .cancelled else wave.fates.findSome? (·.2.failure?)

end Wave

end LocalCloud
