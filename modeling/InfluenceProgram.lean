import InfluenceProgram.Analysis.Risk.Tables
import InfluenceProgram.Cut.Values
import InfluenceProgram.Drawing.Tables
import InfluenceProgram.Evaluation
import InfluenceProgram.Main
import InfluenceProgram.Solver.Session
import InfluenceProgram.Text.Line
import InfluenceProgram.Proofs.Exact
import InfluenceProgram.Proofs.Path
import InfluenceProgram.Proofs.Context
import InfluenceProgram.Proofs.Accepted
import InfluenceProgram.Proofs.Weight
import InfluenceProgram.Proofs.Compatible
import InfluenceProgram.Proofs.TotalProbability
import InfluenceProgram.Proofs.Decoding
import InfluenceProgram.Proofs.Feasible
import InfluenceProgram.Proofs.Following
import InfluenceProgram.Proofs.CutRow
import InfluenceProgram.Proofs.Expectation
import InfluenceProgram.Proofs.Optimality
import InfluenceProgram.Proofs.CutCalls
import InfluenceProgram.Proofs.CutRun
import InfluenceProgram.Proofs.Detection
import InfluenceProgram.Proofs.Unreached
import InfluenceProgram.Proofs.ChanceOutcomes
import InfluenceProgram.Proofs.Elimination
import InfluenceProgram.Proofs.Distribution
import InfluenceProgram.Proofs.PushForward
import InfluenceProgram.Proofs.Marginals
import InfluenceProgram.Proofs.Ancestors
import InfluenceProgram.Proofs.ExpectedValue
import InfluenceProgram.Proofs.Layout
import InfluenceProgram.Proofs.Attainment
import InfluenceProgram.Proofs.Information
import InfluenceProgram.Proofs.Given
import InfluenceProgram.Proofs.Quantile
import InfluenceProgram.Proofs.Validated
import InfluenceProgram.Proofs.Cumulative
import InfluenceProgram.Proofs.WorstShare
import InfluenceProgram.Proofs.RiskMeasures
import InfluenceProgram.Proofs.Rescaling
import InfluenceProgram.Proofs.ConditionalLaw
import InfluenceProgram.Proofs.Axes
import InfluenceProgram.Proofs.Relabelling
import InfluenceProgram.Proofs.Equivariance
import InfluenceProgram.Proofs.Checks
import InfluenceProgram.Proofs.NormalForm
import InfluenceProgram.Proofs.FiniteScalar
import InfluenceProgram.Proofs.LayoutDefects
import InfluenceProgram.Proofs.TableDefects
import InfluenceProgram.Proofs.DecodedPlan
import InfluenceProgram.Proofs.NearlyChosen
import InfluenceProgram.Proofs.LeastProbability
import InfluenceProgram.Proofs.Draws
import InfluenceProgram.Proofs.RandomOutline
import InfluenceProgram.Proofs.RandomDiagram
import InfluenceProgram.Proofs.RequestedOutline
import InfluenceProgram.Proofs.LeafHomes
import InfluenceProgram.Proofs.RandomTables
import InfluenceProgram.Proofs.RandomProblem
import InfluenceProgram.Proofs.RandomRequest
import InfluenceProgram.Proofs.Running
import InfluenceProgram.Proofs.Enumeration
import InfluenceProgram.Proofs.Walking
import InfluenceProgram.Proofs.Shaped
import InfluenceProgram.Proofs.Multiplicity
import InfluenceProgram.Proofs.ModelShape
import InfluenceProgram.Proofs.Names
