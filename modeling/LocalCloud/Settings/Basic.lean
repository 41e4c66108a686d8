/-!
# Settings of the orchestrator

How providers are grouped when they start, and how long the orchestrator waits for them.  All
times are whole milliseconds.
-/

namespace LocalCloud

/-- How providers are grouped when they start. -/
inductive StartupMode where
  /-- All providers whose dependencies are running start together. -/
  | waves
  /-- One node after another. -/
  | sequential
  deriving DecidableEq, Inhabited

/-- The word for a mode. -/
def StartupMode.text : StartupMode → String
  | .waves => "waves"
  | .sequential => "sequential"

/-- The mode for a word. -/
def StartupMode.ofText? : String → Option StartupMode
  | "waves" => some .waves
  | "sequential" => some .sequential
  | _ => none

/-- What the orchestrator goes by. -/
structure OrchestratorSettings where
  startup : StartupMode := .waves
  /-- How long a provider may take to become healthy. -/
  healthTimeout : Nat := 30000
  /-- The time between the end of one health check and the next one. -/
  healthPollInterval : Nat := 250
  /-- How long a stop call may take. -/
  stopTimeout : Nat := 10000
  deriving DecidableEq, Inhabited

end LocalCloud
