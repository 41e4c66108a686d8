import LocalCloud.Text.Cut

/-!
# Why starting or stopping providers fails

The causes, each with its one sentence.  A refused start names what is wrong with the request; a
failed start names the first provider, in the order of its wave, that did not come up.
-/

namespace LocalCloud

/-- Cycles as lists of names, each closed by its first name. -/
def describeCycles (cycles : List (List String)) : String :=
  Text.join "; " (cycles.map (Text.join " -> "))

/-- A stop call that did not succeed. -/
inductive StopFailure where
  /-- The provider refused. -/
  | refused (provider reason : String)
  /-- The provider did not answer within the stop timeout. -/
  | overdue (provider : String) (timeout : Nat)
  deriving DecidableEq

namespace StopFailure

/-- The reason that a provider gives, as it is quoted. -/
def quoteReason (reason : String) : String := "stop failed: " ++ reason

def message : StopFailure → String
  | .refused provider reason =>
    "provider " ++ provider ++ " failed to stop: " ++ quoteReason reason
  | .overdue provider timeout =>
    "provider " ++ provider ++ " did not stop within " ++ toString timeout ++ "ms"

end StopFailure

/-- A start that did not succeed. -/
inductive StartFailure where
  /-- The graph has cycles. -/
  | cycle (cycles : List (List String))
  /-- A node stands before nodes that it waits for. -/
  | invalidOrder (node : String) (waitingOn : List String)
  /-- A start has succeeded and nothing has been stopped since. -/
  | alreadyRunning
  /-- Two providers have one name. -/
  | duplicateProvider (name : String)
  /-- A provider refused to start. -/
  | refused (provider reason : String)
  /-- A provider was not healthy in time. -/
  | unhealthy (provider : String) (timeout : Nat)
  /-- The task of a provider died. -/
  | died (provider : String)
  /-- The start was cancelled. -/
  | cancelled
  deriving DecidableEq

namespace StartFailure

def message : StartFailure → String
  | .cycle cycles => "refusing to start a cyclic topology: " ++ describeCycles cycles
  | .invalidOrder node waitingOn =>
    "startup order is not dependency-ordered at '" ++ node ++ "' (waiting on " ++
      Text.join ", " waitingOn ++ ")"
  | .alreadyRunning => "orchestrator is already running"
  | .duplicateProvider name => "duplicate provider name: " ++ name
  | .refused provider reason =>
    "provider " ++ provider ++ " failed to start: start failed: " ++ reason
  | .unhealthy provider timeout =>
    "provider " ++ provider ++ " not healthy after " ++ toString timeout ++ "ms"
  | .died provider => "provider " ++ provider ++ " task aborted: task panicked"
  | .cancelled => "startup cancelled"

end StartFailure

end LocalCloud
