import InfluenceProgram.Analysis.Distribution
import InfluenceProgram.Analysis.Risk
import InfluenceProgram.Datum.Key
import InfluenceProgram.Solver.BestStrategy
import InfluenceProgram.Solver.FirstStrategy
import InfluenceProgram.Solver.Parameters
import InfluenceProgram.Solver.Submission

/-!
Solving a decision problem from end to end: the decision model is built, the best strategy is found,
and what follows from the strategy is computed.
-/

namespace InfluenceProgram

/-- What is reported about an optimal strategy. -/
structure Solution where
  strategy : Strategy
  /--
  The probability of each path: all it can have if it is compatible, else none. A path that adds
  nothing to the objective has its probability only if a cut asks for it.
  -/
  pathValues : List (Path × Float)
  /-- The shifted expected utility. -/
  objective : Float
  expectedValue : Float
  /-- The expected utility by the path values. -/
  pathExpectedValue : Float
  /-- Utilities and their probabilities. -/
  distribution : List (Float × Float)
  marginals : List (Int × List Float)
  /-- Levels in ascending order with value at risk and conditional value at risk. -/
  risk : List (Datum × Float × Float)

namespace Solution

/-- The risk levels that are reported unless others are asked for. -/
def defaultLevels : List Datum :=
  [.real (Scalar.decimal 5 2), .real (Scalar.decimal 1 1), .real (Scalar.decimal 2 1)]

/-- Both risk measures at each level, levels ascending. -/
def riskMeasures (distribution : List (Float × Float)) (levels : List Datum) :
    Except Fault (List (Datum × Float × Float)) := do
  let utilities := distribution.map (·.1)
  let probabilities := distribution.map (·.2)
  let measured ← levels.mapM fun level => do
    let x ← Risk.readLevel level
    let var ← Risk.valueAtRisk utilities probabilities x
    let cvar ← Risk.conditionalValueAtRisk utilities probabilities x
    return (← level.key, var, cvar)
  let table := (Keyed.ofPairs measured).map fun (level, values) => (level.datum, values)
  Sorting.sort (fun a b => a.1.before b.1) table

/-- The value of an objective that is to be great: what the solver makes small, negated. -/
def negatedTwice (x : Float) : Float := -(-x + 0.0)

/--
The cuts that have an effect. Cuts come up only in the search for a strategy, so without decision
nodes there are none, and a cut whose row the solver refuses is as good as not there.
-/
def effectiveCuts (f : Formulation Float) : List CutKind :=
  if f.problem.diagram.decision.isEmpty then []
  else f.specs.cuts.filter fun kind => (do Solver.checkCutRow (← f.cutRow kind)).isOk

def pathNumber? (cuts : List CutKind) : Option Nat :=
  cuts.findSome? fun
    | .pathCount number => some number
    | .probabilitySum => none

/-- The best strategy under some cuts, if they leave any. -/
def bestUnder (p : Problem Float) (cuts : List CutKind) : Except Fault (Option Strategy) :=
  match pathNumber? cuts with
  | some number => BestStrategy.findCounting p number (cuts.contains .probabilitySum)
  | none => return some (← BestStrategy.find p)

/-- A compatible path with its probability and what it adds to the objective. -/
structure Share where
  path : Path
  weight : Float
  gain : Float

/--
The shares that have their probability: without cuts those that add something, else all of them or
as many as a cut asks for.
-/
def taken (cuts : List CutKind) (shares : List Share) : List Share :=
  if cuts.isEmpty then shares.filter (·.gain != 0.0)
  else
    match pathNumber? cuts with
    | some number => BestStrategy.greatest number (·.gain) (shares.filter (0.0 < ·.weight))
    | none => shares

/-- The solution that a strategy stands for. -/
def ofStrategy (f : Formulation Float) (σ : Strategy) (levels : Datum) :
    Except Fault Solution := do
  let p := f.problem
  let weighted ← p.weightedPaths σ
  let shares : List Share ← weighted.mapM fun (path, weight) =>
    return { path, weight, gain := weight * (← p.utility f.leastUtility path) }
  let taken := taken (effectiveCuts f) shares
  let pathValues := p.paths.map fun s =>
    (s, ((taken.find? (·.path == s)).map (·.weight)).getD 0.0)
  let distribution ← p.utilityDistribution σ
  return {
    strategy := σ
    pathValues
    objective := negatedTwice (Scalar.sum (taken.map (·.gain)))
    expectedValue := Scalar.dot (distribution.map (·.1)) (distribution.map (·.2))
    pathExpectedValue := ← p.expectedValue pathValues
    distribution
    marginals := ← p.stateProbabilities σ
    risk := ← riskMeasures distribution (← levels.items) }

end Solution

/-- What a run is asked for besides the problem. -/
structure Request where
  timeLimit : Datum := .null
  mipGap : Datum := .null
  verbose : Bool := true
  levels : Datum := .list Solution.defaultLevels

/-- Why the solver stops without a solution. -/
inductive Failure where
  | infeasible
  | outOfTime
deriving DecidableEq, Repr

def Failure.status : Failure → Nat
  | infeasible => 3
  | outOfTime => 9

/-- A run: the decision model, the settings it was solved with, and how that ended. -/
structure Run where
  formulation : Formulation Float
  settings : SolverSettings
  ending : Except Failure Solution

/-- The solution of a run if there is one. -/
def Run.solution? (r : Run) : Option Solution := r.ending.toOption

/--
The strategy that the solver ends with, if there is any. A gap without end is reached by the first
strategy that is found.
-/
def strategyFor (f : Formulation Float) (parameters : SolverParameters) :
    Except Fault (Option Strategy) := do
  if parameters.mipGap.isInf then return some (← FirstStrategy.find f.problem)
  else Solution.bestUnder f.problem (Solution.effectiveCuts f)

/-- Solves a problem; without any time there is no solution. -/
def solveProblem (w : Drawing) (specs : Specs) (p : Problem Float) (r : Request) :
    Except Fault Run := do
  let formulation ← Solver.submit w specs p Solver.defaultName
  let settings ← SolverSettings.ofArguments [("time_limit", r.timeLimit), ("mip_gap", r.mipGap),
    ("output_flag", .int (if r.verbose then 1 else 0))]
  let (refused, parameters) := SolverParameters.apply {} settings
  match refused with
  | some fault => .error fault
  | none =>
    Solver.checkSize formulation.program
    if parameters.timeLimit ≤ 0.0 then
      return { formulation, settings, ending := .error .outOfTime }
    else
      match ← strategyFor formulation parameters with
      | none => return { formulation, settings, ending := .error .infeasible }
      | some σ =>
        let solution ← Solution.ofStrategy formulation σ r.levels
        return { formulation, settings, ending := .ok solution }

end InfluenceProgram
