import InfluenceProgram.Analysis.Plan
import InfluenceProgram.Decimal.Fixed
import InfluenceProgram.Solver.Solution

/-!
The texts that are printed: strategies, distributions, marginal probabilities, the summary of a
solution, and the messages of a run.
-/

namespace InfluenceProgram.Report

open Decimal Text

/-- Lines, each with a line end. -/
def lines (ls : List String) : String := String.join (ls.map (· ++ "\n"))

def bar : String := String.ofList (List.replicate 70 '=')

/-- The chosen state of every decision node in each context. -/
def strategy (w : Drawing) (σ : Plan) : Except Fault String := do
  let blocks ← w.diagram.decision.mapM fun j => do
    let header := "  Decision node " ++ (w.label j).plain ++ " (information set " ++
      listText (w.diagram.informationSet j) ++ "):"
    let choices := (← (← σ.local? w j).sorted).map fun (context, x) =>
      "    - " ++ context.keyPlain ++ " -> " ++ x.plain
    return header :: choices
  return lines ("" :: "--- Decision Strategy ---" :: blocks.flatten)

/-- A key at the left of a column; truth values count as numbers, and lists have no columns. -/
def column (width : Nat) : Datum → Except Fault String
  | .null | .list _ | .record _ => .error .wrongType
  | .bool b => .ok (alignLeft width (if b then "1" else "0"))
  | d => .ok (alignLeft width d.plain)

/-- Utilities beside their probabilities, as many as there are of both. -/
def distribution (utilities probabilities : List Datum) : Except Fault String := do
  let rows ← (utilities.zip probabilities).mapM fun (u, p) => do
    let u := alignRight 12 (fixed 4 (← u.amount))
    let p := alignRight 12 (fixed 4 (← p.amount))
    return "  " ++ u ++ " | " ++ p
  let header := "  " ++ alignRight 12 "Utility" ++ " | " ++ alignRight 12 "Probability"
  let rule := "  " ++ String.ofList (List.replicate 27 '-')
  return lines ("" :: "--- Utility Distribution ---" :: header :: rule :: rows)

/-- The probabilities of the states of nodes, nodes ascending. -/
def marginals (w : Drawing) (table : List (Datum × Datum)) : Except Fault String := do
  let rows ← (← Sorting.sort (fun a b => a.1.before b.1) table).mapM fun (node, values) => do
    let kind := if w.isDecision node then "decision" else "chance"
    let states ← (← values.items).mapM fun x => return fixed 4 (← x.amount)
    return "  Node " ++ (← column 3 node) ++ " (" ++ alignLeft 8 kind ++ "): " ++
      "  ".intercalate states
  return lines ("" :: "--- State Probabilities ---" :: rows)

def summaryHeader : List String := ["", bar, "DECISION MODEL SOLUTION SUMMARY", bar]

/-- The summary when there is no solution. -/
def noSolution : String := lines (summaryHeader ++ ["No solution found."])

/-- The lines on the risk measures by level, levels ascending; none if nothing was measured. -/
def riskLines (risk : List (Datum × Datum)) : Except Fault (List String) := do
  if risk.isEmpty then return []
  else
    let rows ← (← Sorting.sort (fun a b => a.1.before b.1) risk).mapM fun (level, measures) => do
      let (var, cvar) ← measures.pair
      let level ← column 5 level
      let var := alignRight 10 (fixed 4 (← var.amount))
      let cvar := alignRight 10 (fixed 4 (← cvar.amount))
      return "  alpha=" ++ level ++ ": VaR=" ++ var ++ "  CVaR=" ++ cvar
    return "" :: "--- Risk Measures ---" :: rows

/-- How long the solver took, in seconds. -/
def seconds (time : Datum) : Except Fault String := return fixed 2 (← time.amount) ++ "s"

/-- The summary of a solution. The time is computed after the two values have been laid out. -/
def summary (objective expected : Datum) (time : Except Fault String)
    (risk : List (Datum × Datum)) : Except Fault String := do
  let objective := grouped 4 (← objective.amount)
  let expected := grouped 4 (← expected.amount)
  let values := ["", "Objective Value (shifted): " ++ objective,
    "Expected Utility:          " ++ expected, "Solve time:                " ++ (← time)]
  return lines (summaryHeader ++ values ++ (← riskLines risk) ++ [bar, ""])

def field (fields : Named) (name : String) : Except Fault Datum :=
  match fields.get? name with
  | some d => .ok d
  | none => .error (.missingKey (.text name))

/-- The summary of a solution given by its fields; each is looked up when its line is laid out. -/
def summaryOfFields (fields : Named) (risk : List (Datum × Datum)) : Except Fault String := do
  let objective ← field fields "objective_value"
  let _ ← objective.amount
  let expected ← field fields "expected_value"
  let _ ← expected.amount
  summary objective expected (field fields "solve_time" >>= seconds) risk

/-- The names of the cuts of a model, or that there are none. -/
def cutNames (cuts : List CutKind) : String :=
  if cuts.isEmpty then "none"
  else bracketed (cuts.map fun kind => quoted kind.name)

/-- What is said while a decision model is built. -/
def building (f : Formulation Float) : String :=
  let d := f.problem.diagram
  let count {β : Type} (xs : List β) : String := toString xs.length
  lines [
    "[Phase 1] Computing path probabilities...",
    "  - Chance nodes: " ++ count d.chance ++ ", decision nodes: " ++ count d.decision ++
      ", value nodes: " ++ count d.value,
    "  - Paths: " ++ count f.problem.paths,
    "  - Minimum path probability: " ++ significant 6 f.epsilon,
    "[Phase 2] Shifting utilities to non-negative values...",
    "  - Utility shift: " ++ significant 6 f.leastUtility,
    "[Phase 3] Creating variables...",
    "  - Path probability variables: " ++ count f.problem.paths,
    "  - Decision strategy variables: " ++ toString f.program.binaryCount,
    "[Phase 4] Setting expected utility objective...",
    "[Phase 5] Adding constraints...",
    "  - Constraints: " ++ count f.program.rows,
    "[Phase 6] Registering lazy cuts...",
    "  - Lazy cuts: " ++ cutNames f.specs.cuts]

def opening : String :=
  lines [bar, "DECISION PROGRAMMING SOLVER", bar, "", "[Building Model]"]

def solving (s : SolverSettings) : String :=
  lines ["", "[Solving with Gurobi]", "  Time limit: " ++ s.timeLimit.plain ++ "s",
    "  MIP gap: " ++ fixed 2 (s.mipGap * 100.0) ++ "%", ""]

def reals (xs : List Float) : List Datum := xs.map .real

/-- All that is said about a solution; `time` stands for the time it took. -/
def solution (w : Drawing) (s : Solution) (time : String) : Except Fault String := do
  return (← strategy w (.ofStrategy s.strategy)) ++
    (← marginals w (s.marginals.map fun (j, xs) => (.int j, .list (reals xs)))) ++
    (← distribution (reals (s.distribution.map (·.1))) (reals (s.distribution.map (·.2)))) ++
    (← summary (.real s.objective) (.real s.expectedValue) (.ok time)
      (s.risk.map fun (level, var, cvar) => (level, .list [.real var, .real cvar])))

/-- All that is said during a run; `time` stands for the time it took. -/
def run (w : Drawing) (r : Run) (time : String) : Except Fault String := do
  let start := opening ++ building r.formulation ++ solving r.settings
  match r.ending with
  | .error failure =>
    return start ++ lines ["", "[ERROR] Solver returned no solution (status " ++
      toString failure.status ++ ")"]
  | .ok s => return start ++ (← solution w s time)

end InfluenceProgram.Report
