import PointsTo.Main
import PointsTo.Directory
import PointsTo.Proofs.CallGraph.Consistency
import PointsTo.Proofs.DenseSet.Refinement
import PointsTo.Proofs.DiffStore.Refinement
import PointsTo.Proofs.Graph.Consistency
import PointsTo.Proofs.Graph.FieldPaths
import PointsTo.Proofs.PointeeSet.Refinement
import PointsTo.Proofs.Program.NodeNames
import PointsTo.Proofs.Program.Safety
import PointsTo.Proofs.Program.Writing
import PointsTo.Proofs.Report.IndirectCalls
import PointsTo.Proofs.Report.PointsToSets
import PointsTo.Proofs.Solver.FieldInsensitive
import PointsTo.Proofs.Solver.Fixpoint
import PointsTo.Proofs.Solver.Monotonicity
import PointsTo.Proofs.Solver.Scheduling
import PointsTo.Proofs.Solver.VariantAccess
import PointsTo.Proofs.Worklist.Order
