import LocalCloud.Application
import LocalCloud.Command.Basic
import LocalCloud.Report.Inspection
import LocalCloud.Report.Plan

/-!
# Running commands

A command leaves a disk behind and two texts, one for the result and one for complaints, and may
fail for one reason.
-/

namespace LocalCloud

/-- Why a command fails. -/
inductive CommandFailure where
  | alreadyThere (path : Path)
  | uncreatable (path : Path) (fault : ReadFault)
  | unwritable (path : Path) (fault : ReadFault)
  | settings (failure : SettingsFailure)
  | senseless (count : Nat)
  | noAssembly (dir : Path)
  | ingest (failure : IngestFailure)
  | start (failure : StartFailure)
  deriving DecidableEq

def CommandFailure.message : CommandFailure → String
  | .alreadyThere path => path.text ++ " already exists"
  | .uncreatable path fault => "cannot create " ++ path.text ++ ": " ++ fault.message
  | .unwritable path fault => "cannot write " ++ path.text ++ ": " ++ fault.message
  | .settings failure => failure.message
  | .senseless count => toString count ++ " validation error(s)"
  | .noAssembly dir => "assembly directory " ++ dir.text ++ " does not exist"
  | .ingest failure => failure.message
  | .start failure => failure.message

/-- What a command leaves behind. -/
structure CommandResult where
  result : Except CommandFailure Unit := .ok ()
  disk : Disk
  /-- What the command shows. -/
  output : String := ""
  /-- What the command complains about. -/
  complaints : String := ""

namespace Command

variable (disk : Disk)

/-- A command that leaves a disk behind and fails. -/
def fail (failure : CommandFailure) : CommandResult where
  result := .error failure
  disk

/-- Makes a project file in a directory, unless there is one. -/
def runInit (dir : Path) : CommandResult :=
  let file := dir.join projectFile
  if disk.holds file then fail disk (.alreadyThere file)
  else
    match disk.createDirectories dir with
    | (made, some fault) => fail made (.uncreatable dir fault)
    | (made, none) =>
      match made.write file ProjectSettings.initialText.toUTF8 with
      | .error fault => fail made (.unwritable file fault)
      | .ok written =>
        { disk := written
          output :=
            "Initialized ldk project at " ++ dir.text ++ "\n  Created: " ++ file.text ++ "\n" }

/-- Where the assembly of a project is: its path in the project file is seen from there. -/
def assemblyDirectory (project : ProjectChoice) (settings : ProjectSettings) : Path :=
  match project.assembly? with
  | some dir => dir
  | none => ((project.file.parent?).getD ⟨""⟩).join settings.assembly.text

/-- What the program complains about. -/
def complain (defects : List ProjectSettings.Defect) : String :=
  String.join (defects.map fun d => "  ERROR: " ++ d.message ++ "\n")

/-- Shows what `present` makes of the settings and the topology of a project. -/
def runWith (project : ProjectChoice)
    (present : ProjectSettings → Topology → Noted (Except CommandFailure String)) :
    Noted CommandResult :=
  match ProjectSettings.load disk project.file with
  | .error failure => pure (fail disk (.settings failure))
  | .ok settings =>
    match settings.defects with
    | first :: more =>
      pure
        { fail disk (.senseless (first :: more).length) with
          complaints := complain (first :: more) }
    | [] => do
      let dir := assemblyDirectory project settings
      if !disk.isDirectory dir then pure (fail disk (.noAssembly dir))
      else
        match ← ExceptT.run (disk.ingest dir) with
        | .error failure => pure (fail disk (.ingest failure))
        | .ok topology =>
          match ← present settings topology with
          | .error failure => pure (fail disk failure)
          | .ok output => pure { disk, output }

/-- The one line that says that an application can be started. -/
def summary (t : Topology) : String :=
  "OK: " ++ toString t.model.resourceCount ++ " resources, " ++ toString t.graph.size ++
    " nodes, " ++ toString t.graph.edges.length ++ " edges\n"

/-- Runs a command. -/
def run : Command → Noted CommandResult
  | .init dir => pure (runInit disk dir)
  | .validate project =>
    runWith disk project fun settings t =>
      pure ((t.waves settings.orchestrator.startup).mapError .start |>.map fun _ => summary t)
  | .inspect project json =>
    runWith disk project fun _ t => do
      let assets ← t.assetReports disk
      pure (.ok (if json then (t.inspectionJson assets).pretty ++ "\n"
        else t.inspectionText assets))
  | .plan project sequential =>
    runWith disk project fun settings t =>
      let mode := if sequential then .sequential else settings.orchestrator.startup
      pure ((t.waves mode).mapError .start |>.map fun waves => t.planText waves mode)

/-! ## What a command concerns -/

/-- The places that a command looks at; where the assembly is stands in the project file. -/
def places : Command → List Path
  | .init dir => [dir.join projectFile]
  | .validate project | .inspect project _ | .plan project _ =>
    match ProjectSettings.load disk project.file with
    | .error _ => [project.file]
    | .ok settings => [project.file, assemblyDirectory project settings]

/-- The directories that a command may make, each one behind those it lies in. -/
def folders : Command → List Path
  | .init dir => dir.upwards.reverse
  | _ => []

/-- The files that a command makes. -/
def products : Command → List Path
  | .init dir => [dir.join projectFile]
  | _ => []

end Command

end LocalCloud
