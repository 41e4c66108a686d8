import LocalCloud.Assembly.Basic
import LocalCloud.Topology

/-!
# Running an application

From an assembly directory to running providers: an assembly that cannot be read or ordered fails
before any provider is made.
-/

namespace LocalCloud

/-- The topology of the assembly in a directory. -/
def Disk.ingest (disk : Disk) (dir : Path) : Attempt IngestFailure Topology := do
  let model ← ExceptT.adapt IngestFailure.assembly (disk.assemble dir)
  ExceptT.adapt IngestFailure.graph (Topology.ofModel model)

/-- What running an application leaves behind. -/
structure ApplicationRun (σ : Type) where
  result : Except RunFailure Topology
  orchestrator : Orchestrator
  /-- What the world remembers. -/
  world : σ
  /-- What happened to providers, in order. -/
  history : List Happening := []

/-- Starts the application of the assembly in a directory. -/
def Disk.run {σ : Type} (disk : Disk) (dir : Path) (registry : Registry) (w : World σ)
    (o : Orchestrator) (s : σ) : Noted (ApplicationRun σ) := do
  match ← ExceptT.run (disk.ingest dir) with
  | .error failure => pure { result := .error (.ingest failure), orchestrator := o, world := s }
  | .ok topology =>
    let passage ← topology.launch registry w o s
    pure
      { result := match passage.result with
          | .ok _ => .ok topology
          | .error failure => .error (.start failure)
        orchestrator := passage.orchestrator
        world := passage.world
        history := passage.history }

end LocalCloud
