import LocalCloud.Topology

/-!
# The startup plan as text

The waves of a topology, each node with its kind and with what it waits for.
-/

namespace LocalCloud.Topology

/-- The line of a node. -/
def planLine (t : Topology) (id : String) : String :=
  let kind := ((t.graph.node? id).map (·.type.text)).getD ""
  let line := "  + " ++ id ++ " [" ++ kind ++ "]"
  match t.graph.dependencies id with
  | [] => line ++ "\n"
  | needed => line ++ " after " ++ Text.join ", " needed ++ "\n"

/-- The lines of a wave. -/
def planWave (t : Topology) (number : Nat) (wave : List String) : String :=
  "wave " ++ toString number ++ ":\n" ++ String.join (wave.map t.planLine)

/-- The plan for the waves of a mode. -/
def planText (t : Topology) (waves : List (List String)) (mode : StartupMode) : String :=
  "Startup plan: " ++ toString t.order.length ++ " nodes in " ++ toString waves.length ++
    " waves (" ++ mode.text ++ ")\n\n" ++
    String.join (waves.zipIdx.map fun (wave, i) => t.planWave (i + 1) wave)

end LocalCloud.Topology
