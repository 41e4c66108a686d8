import LocalCloud.Settings.Basic
import LocalCloud.Startup.Failure

/-!
# Waves

An order is cut into waves from the front: each wave is the longest stretch of nodes that wait
for nothing but nodes of earlier waves.  Nodes outside the order are not waited for.  The
sequential mode cuts after every node.
-/

namespace LocalCloud

/-- The nodes of the order that `id` waits for and that are not done. -/
def blockers (dependencies : String → List String) (scheduled done : List String) (id : String) :
    List String :=
  (dependencies id).filter fun d => scheduled.contains d && !done.contains d

/-- The next wave of the nodes that are left. -/
def nextWave (mode : StartupMode) (isFree : String → Bool) (left : List String) : List String :=
  match mode with
  | .waves => left.takeWhile isFree
  | .sequential => (left.take 1).takeWhile isFree

/-- The nodes that are left, cut into waves. -/
def cutWaves (mode : StartupMode) (dependencies : String → List String) (scheduled : List String)
    (done : List String) : List String → Except StartFailure (List (List String))
  | [] => .ok []
  | head :: rest =>
    match nextWave mode (fun id => (blockers dependencies scheduled done id).isEmpty)
        (head :: rest) with
    | [] =>
      .error (.invalidOrder head
        ((blockers dependencies scheduled done head).mergeSort fun a b => decide (a ≤ b)))
    | first :: more => do
      let waves ← cutWaves mode dependencies scheduled (done ++ first :: more)
        (rest.drop more.length)
      .ok ((first :: more) :: waves)
termination_by left => left.length
decreasing_by simp only [List.length_drop, List.length_cons]; omega

/-- An order cut into waves; a repeated id counts where it stands first. -/
def planWaves (order : List String) (dependencies : String → List String) (mode : StartupMode) :
    Except StartFailure (List (List String)) :=
  cutWaves mode dependencies order.eraseDups [] order.eraseDups

end LocalCloud
