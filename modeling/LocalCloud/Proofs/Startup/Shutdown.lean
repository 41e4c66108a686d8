import LocalCloud.Proofs.Graph.Formation
import LocalCloud.Proofs.Startup.Session

/-!
# Shutting down

Whether it is asked to stop or a start has failed, the orchestrator stops what it has started, the
last one first, each one once and one after another (`ShutDown`).  What has been started comes in
the order of the waves, so that nothing is stopped before all that waits for it has been stopped
(`sublist_of_edge`).  When a start has failed, these are the providers that the history tells to be
left over (`LeftOver`): those that were up, and those whose tasks were given up after their starts
had returned.
-/

namespace LocalCloud

section Pairs

variable {α β : Type} {l : List α} {a b : α}

end Pairs

/-! ## The order in which providers are started -/

section Order

variable {graph : Graph} {mode : StartupMode} {order : List String} {waves : List (List String)}
  {providers up : List Provider}

end Order

/-! ## Who is left over when a start fails -/

namespace Orchestrator

variable {σ : Type} {o : Orchestrator} {lists : List (List Provider)}
  {passage : Passage σ StartFailure} {failure : StartFailure}

/-- When every provider has a name of its own, the statuses tell how each stop call has ended. -/
theorem StoppedEach.status?_of_mem {o' : Orchestrator} {up : List Provider}
    {ends : List (Provider × StopEnd)} {history : List Happening}
    (h : StoppedEach o ends history o') (hends : ends.map (·.1) = up.reverse)
    (hnames : (up.map (·.name)).Nodup) {x : Provider × StopEnd} (hx : x ∈ ends) :
    o'.status? x.1.name = some x.2.status := by
  refine h.statuses.status?_of_mem ?_ (List.mem_map_of_mem hx)
  rw [names_of_ends hends, List.nodup_reverse]
  exact hnames

section BroughtUp

variable {members : List Provider} {wave : Wave} {first : Passage σ StartFailure}
  (hfirst : BroughtUp o members wave first)

include hfirst

end BroughtUp

section Calls

variable {ε : Type} {settings : OrchestratorSettings} {graph : Graph} {up : List Provider}
  {ends : List (Provider × StopEnd)}

end Calls

end Orchestrator

namespace Session

variable {settings : OrchestratorSettings} {x : Session} {σ : Type} (w : World σ) (s : σ)

end Session

end LocalCloud
