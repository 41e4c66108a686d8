import LocalCloud.Graph.Cycles
import LocalCloud.Startup.Wave
import LocalCloud.Startup.Waves

/-!
# The orchestrator

Providers start wave by wave: a wave begins when all members of the wave before it are up.  When a
member fails or the startup is cancelled, every provider that is launched by then is stopped again,
the last one first.  A refused start changes nothing.

How long things take and in which order they happen is not for the orchestrator to decide: a
`World` tells it what happens while a wave starts and how a stop call ends.  What is said here
holds for every world.
-/

namespace LocalCloud

/-- The failure that the end of a stop call stands for. -/
def StopEnd.failure? (settings : OrchestratorSettings) (provider : Provider) :
    StopEnd → Option StopFailure
  | stopped => none
  | refused reason => some (.refused provider.name reason)
  | overdue => some (.overdue provider.name settings.stopTimeout)

/-- Where providers run.  `σ` is what the world remembers. -/
structure World (σ : Type) where
  /-- What happens while the members of a wave start together. -/
  wave : σ → List Provider → List WaveEvent × σ
  /-- How a stop call ends, and whether the startup has been cancelled in the meantime. -/
  stop : σ → Provider → (StopEnd × Bool) × σ
  /-- A wave goes on until all its tasks are over or have been given up. -/
  isSettled_wave : ∀ settings cancelled s members,
    ((Wave.begin members cancelled).run settings (wave s members).1).value.isSettled

/-- What an orchestrator knows between two calls. -/
structure Orchestrator where
  settings : OrchestratorSettings := {}
  running : Bool := false
  /-- The providers that have to be stopped, in the order in which they were started. -/
  started : List Provider := []
  /-- The statuses, by name; each name once. -/
  statuses : List (String × ProviderStatus) := []
  /-- Which cancellation token is the current one. -/
  token : Nat := 0
  /-- Whether the current token is cancelled. -/
  cancelled : Bool := false
  deriving DecidableEq

namespace Orchestrator

/-- The status of a provider of the last start that was not refused. -/
def status? (o : Orchestrator) (name : String) : Option ProviderStatus := o.statuses.lookup name

/-- The orchestrator with one status changed. -/
def setStatus (o : Orchestrator) (name : String) (status : ProviderStatus) : Orchestrator :=
  { o with statuses := (name, status) :: o.statuses.filter (·.1 != name) }

/-- Cancels a token.  One that is not the current one is of no use any more. -/
def cancel (o : Orchestrator) (token : Nat) : Orchestrator :=
  if token = o.token then { o with cancelled := true } else o

/-- What a call leaves behind. -/
structure Passage (σ ε : Type) where
  result : Except ε Unit
  orchestrator : Orchestrator
  /-- What the world remembers. -/
  world : σ
  /-- What happened to providers during the call, in order. -/
  history : List Happening := []

variable {σ : Type} (w : World σ)

/-! ## Stopping -/

/-- Stops one provider.  When it fails, its status says so and its failure is given. -/
def stopOne (o : Orchestrator) (s : σ) (provider : Provider) : Passage σ StopFailure :=
  let ((ending, cancelled), s) := w.stop s provider
  let failure? := ending.failure? o.settings provider
  let o := { o with cancelled := o.cancelled || cancelled }
  { result := match failure? with
      | none => .ok ()
      | some failure => .error failure
    orchestrator := o.setStatus provider.name (if failure?.isNone then .stopped else .error)
    world := s
    history := .stopCalled provider ::
      (if cancelled then [.cancelled] else []) ++ [.stopEnded provider failure?] }

/-- Stops providers one after another, whatever becomes of those before.  The first failure is
the result, and a warning tells of each. -/
def stopEach (o : Orchestrator) (s : σ) : List Provider → Noted (Passage σ StopFailure)
  | [] => pure { result := .ok (), orchestrator := o, world := s }
  | provider :: rest => do
    let first := stopOne w o s provider
    match first.result with
    | .ok _ => pure ()
    | .error failure => Noted.warn (.stopFailed failure)
    let others ← stopEach first.orchestrator first.world rest
    pure
      { others with
        result := match first.result with
          | .ok _ => others.result
          | .error failure => .error failure
        history := first.history ++ others.history }

/-- Stops all that has been started, the last one first. -/
def stop (o : Orchestrator) (s : σ) : Noted (Passage σ StopFailure) := do
  let passage ← stopEach w o s o.started.reverse
  pure
    { passage with
      orchestrator := { passage.orchestrator with running := false, started := [] } }

/-! ## Starting -/

/-- The first name of the list that has occurred before. -/
def repeatedName? (seen : List String) : List String → Option String
  | [] => none
  | name :: rest => if name ∈ seen then some name else repeatedName? (name :: seen) rest

/-- The waves of a start, unless the start is refused. -/
def accept (o : Orchestrator) (graph : Graph) (providers : List Provider) (order : List String) :
    Except StartFailure (List (List String)) :=
  if o.running then .error .alreadyRunning
  else match graph.cycles with
    | cycle :: more => .error (.cycle (cycle :: more))
    | [] =>
      match repeatedName? [] (providers.map (·.name)) with
      | some name => .error (.duplicateProvider name)
      | none => planWaves order graph.dependencies o.settings.startup

/-- Tells of the providers whose node is not in the order, node by node. -/
def warnUnscheduled (providers : List Provider) (order : List String) : Noted Unit :=
  let nodes := Ascending.ofList (providers.map (·.node))
  (nodes.filter fun node => !order.contains node).forM fun node =>
    Noted.warn (.unscheduled (providers.countP (·.node == node)) node)

/-- Brings up the members of one wave together. -/
def startWave (o : Orchestrator) (s : σ) (members : List Provider) :
    Noted (Passage σ StartFailure) := do
  let o := members.foldl (fun o p => o.setStatus p.name .starting) o
  let (events, s) := w.wave s members
  let wave ← (Wave.begin members o.cancelled).run o.settings events
  let o := wave.fates.foldl (fun o (p, fate) => o.setStatus p.name fate.status) o
  pure
    { result := match wave.failure? with
        | none => .ok ()
        | some failure => .error failure
      orchestrator :=
        { o with started := o.started ++ wave.started, cancelled := wave.cancelled }
      world := s
      history := wave.history }

/-- Stops what a failed start has started.  The failure of the start stays the result. -/
def rollback (o : Orchestrator) (s : σ) (failure : StartFailure) :
    Noted (Passage σ StartFailure) := do
  let passage ← stop w o s
  match passage.result with
  | .ok _ => pure ()
  | .error e => Noted.warn (.rollbackIncomplete e)
  let o := passage.orchestrator
  pure
    { passage with
      result := .error failure
      orchestrator :=
        -- a cancelled start leaves a fresh token
        if failure = .cancelled then { o with token := o.token + 1, cancelled := false } else o }

/-- Brings up one wave after another, the first one under the given number.  A wave without
members is passed over. -/
def startWaves (o : Orchestrator) (s : σ) (number : Nat) :
    List (List Provider) → Noted (Passage σ StartFailure)
  | [] => pure { result := .ok (), orchestrator := { o with running := true }, world := s }
  | members :: rest =>
    if o.cancelled then do
      let passage ← rollback w o s .cancelled
      pure { passage with history := .noticed :: passage.history }
    else if members.isEmpty then startWaves o s (number + 1) rest
    else do
      let first ← startWave w o s members
      let next ← match first.result with
        | .ok _ => startWaves first.orchestrator first.world (number + 1) rest
        | .error failure => do
          if failure != .cancelled then Noted.warn (.waveFailed number failure)
          rollback w first.orchestrator first.world failure
      pure { next with history := first.history ++ next.history }

/-- Starts providers along an order of their nodes. -/
def start (o : Orchestrator) (s : σ) (graph : Graph) (providers : List Provider)
    (order : List String) : Noted (Passage σ StartFailure) :=
  match o.accept graph providers order with
  | .error failure => pure { result := .error failure, orchestrator := o, world := s }
  | .ok waves => do
    warnUnscheduled providers order
    let o :=
      { o with
        started := []
        statuses := (providers.map (·.name)).map fun name => (name, .stopped) }
    startWaves w o s 1
      (waves.map fun wave => wave.flatMap fun id => providers.filter (·.node == id))

end Orchestrator

end LocalCloud
