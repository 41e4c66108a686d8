/-!
# Providers

A provider stands in for one service.  It is known by its name, by the node it serves and by how
it behaves; several providers may serve one node.  All times are whole milliseconds.
-/

namespace LocalCloud

/-- How a provider behaves when it is started, checked and stopped. -/
structure Script where
  /-- How long the start takes. -/
  startDelay : Nat := 0
  /-- Whether the startup is cancelled when the start has taken its time. -/
  cancels : Bool := false
  /-- Whether the task of the provider dies when the start has taken its time. -/
  dies : Bool := false
  /-- Why the provider refuses to start, if it does. -/
  startError? : Option String := none
  /-- How long a health check takes. -/
  healthDelay : Nat := 0
  /-- Whether all health checks come out false. -/
  neverHealthy : Bool := false
  /-- How many health checks come out false before one comes out true. -/
  unhealthyChecks : Nat := 0
  /-- How long a stop takes. -/
  stopDelay : Nat := 0
  /-- Why the provider refuses to stop, if it does. -/
  stopError? : Option String := none
  deriving DecidableEq, Inhabited

/-- Whether a health check comes out true after `past` checks that came out false. -/
def Script.isHealthyAfter (s : Script) (past : Nat) : Bool :=
  !s.neverHealthy && s.unhealthyChecks ≤ past

/-- A provider that is bound to the node it serves. -/
structure Provider where
  name : String
  node : String
  script : Script := {}
  deriving DecidableEq, Inhabited

/-- How a stop call ends. -/
inductive StopEnd where
  | stopped
  | refused (reason : String)
  /-- The stop timeout was over first. -/
  | overdue
  deriving DecidableEq

/-- Where a provider is in its life. -/
inductive ProviderStatus where
  | stopped
  | starting
  | running
  | error
  deriving DecidableEq, Inhabited

/-- The word for a status. -/
def ProviderStatus.text : ProviderStatus → String
  | .stopped => "stopped"
  | .starting => "starting"
  | .running => "running"
  | .error => "error"

end LocalCloud
