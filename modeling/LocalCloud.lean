import LocalCloud.Main
import LocalCloud.Startup.Clock
import LocalCloud.Proofs.Assembly.Bundles
import LocalCloud.Proofs.Assembly.Merging
import LocalCloud.Proofs.Assembly.Worklist
import LocalCloud.Proofs.ConstructTree
import LocalCloud.Proofs.Digest.Listing
import LocalCloud.Proofs.Expression.Holes
import LocalCloud.Proofs.Expression.Lists
import LocalCloud.Proofs.Expression.NormalForm
import LocalCloud.Proofs.Expression.Segments
import LocalCloud.Proofs.Graph.Blocked
import LocalCloud.Proofs.Graph.Sweep
import LocalCloud.Proofs.Json.Keys
import LocalCloud.Proofs.Model.Absence
import LocalCloud.Proofs.Model.Closure
import LocalCloud.Proofs.Model.Definitions
import LocalCloud.Proofs.Model.Edges
import LocalCloud.Proofs.Model.Environment
import LocalCloud.Proofs.Model.Naming
import LocalCloud.Proofs.Model.Parents
import LocalCloud.Proofs.Model.Rearranging
import LocalCloud.Proofs.Model.RuleConservation
import LocalCloud.Proofs.Startup.Cleanup
import LocalCloud.Proofs.Startup.Deaths
import LocalCloud.Proofs.Startup.Interleaving
import LocalCloud.Proofs.Startup.Layering
import LocalCloud.Proofs.Startup.Modes
import LocalCloud.Proofs.Startup.Precedence
import LocalCloud.Proofs.Startup.Shutdown
import LocalCloud.Proofs.Template.Evaluation
import LocalCloud.Proofs.Topology
