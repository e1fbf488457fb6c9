import RootFinding.LineSearch.Probe
import RootFinding.TrustRegion.Rectangular
import RootFinding.Main
import RootFinding.Proofs.Plan
import RootFinding.Proofs.Solver.Report
import RootFinding.Proofs.TrustRegion.Rejection
import RootFinding.Proofs.Exact.Descent
import RootFinding.Proofs.LineSearch.MeritFunction
import RootFinding.Proofs.Exact.StrongWolfe
import RootFinding.Proofs.Binary64.Value
import RootFinding.Proofs.Binary64.Nearest
import RootFinding.Proofs.Binary64.Operations
import RootFinding.Proofs.Binary64.UnitInterval
import RootFinding.Proofs.LineSearch.Backtracking
import RootFinding.Proofs.Solver.Finiteness
import RootFinding.Proofs.SquareSystem.Failures
import RootFinding.Proofs.Solver.Failures
import RootFinding.Proofs.Solver.Presentations
import RootFinding.Proofs.Solver.Counters
import RootFinding.Proofs.Storage.Solved
import RootFinding.Proofs.Solver.Stopping
import RootFinding.Proofs.Exact.Rescaling
import RootFinding.Proofs.Exact.Affine
import RootFinding.Proofs.Exact.NewtonDescent
import RootFinding.Proofs.Solver.History
import RootFinding.Proofs.Solver.Resumption
import RootFinding.Proofs.Solver.FullSteps
import RootFinding.Proofs.Solver.Recording
import RootFinding.Proofs.Solver.Tracing
import RootFinding.Proofs.Solver.Singular
import RootFinding.Proofs.Exact.FullStep
import RootFinding.Proofs.Exact.Covariance
import RootFinding.Proofs.Exact.Renumbering
import RootFinding.Proofs.Exact.Step
import RootFinding.Proofs.Exact.Boundary
import RootFinding.Proofs.Exact.Reductions
import RootFinding.Proofs.CommandLine.Execution
import RootFinding.Proofs.Exact.Stationary
import RootFinding.Proofs.Exact.Weights
import RootFinding.Proofs.Exact.Problems
import RootFinding.Proofs.Solver.CombinedCalls
import RootFinding.Proofs.Trace.Acceptance
import RootFinding.Proofs.TrustRegion.Rectangular
