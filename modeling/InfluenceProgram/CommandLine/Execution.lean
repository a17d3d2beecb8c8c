import InfluenceProgram.CommandLine.Arguments
import InfluenceProgram.Random.Request
import InfluenceProgram.Random.Source
import InfluenceProgram.Report

/-!
The command line: makes a random decision problem, solves it and reports on the solution.
-/

namespace InfluenceProgram.CommandLine

def usage : String :=
  Report.lines [
    "usage: decision-programming [-h] [--chance CHANCE] [--decision DECISION]",
    "                            [--value VALUE] [--info-limit INFO_LIMIT]",
    "                            [--seed SEED] [--states STATES [STATES ...]]",
    "                            [--probability-sum-cut] [--num-paths NUM_PATHS]",
    "                            [--time-limit TIME_LIMIT] [--mip-gap MIP_GAP]",
    "                            [--quiet]"]

def help : String :=
  usage ++ Report.lines [
    "",
    "Solve a random influence diagram as a path-based MILP",
    "",
    "options:",
    "  -h, --help            show this help message and exit",
    "  --chance CHANCE       Number of chance nodes",
    "  --decision DECISION   Number of decision nodes",
    "  --value VALUE         Number of value nodes",
    "  --info-limit INFO_LIMIT",
    "                        Maximum information set size",
    "  --seed SEED           Random seed",
    "  --states STATES [STATES ...]",
    "                        Choices for the number of states of each node",
    "  --probability-sum-cut",
    "                        Register the probability sum lazy cut",
    "  --num-paths NUM_PATHS",
    "                        Register the number of paths lazy cut with this value",
    "  --time-limit TIME_LIMIT",
    "                        Solver time limit (seconds)",
    "  --mip-gap MIP_GAP     MIP gap tolerance",
    "  --quiet               Suppress detailed output"]

/-- What the process leaves behind. -/
structure Result where
  exit : Nat
  stdout : String := ""
  stderr : String := ""

/-- A finished execution, still without the time that it took. -/
inductive Execution where
  | stopped (result : Result)
  | solved (options : Options) (run : Run)

def experiment (o : Options) (settings : RandomSettings) : Experiment Float (Problem Float) :=
  Random.Request.problem o.chance o.decision o.value o.infoLimit
    [("state_choices", .list settings.stateChoices), ("low", .real settings.low),
      ("high", .real settings.high)]

/-- The random problem and the specs that the options ask for. -/
def prepare (o : Options) : Except Fault (Specs × Problem Float) := do
  let settings ← RandomSettings.ofArguments [("seed", o.seed), ("state_choices", o.states)]
  if settings.seed < 0 then .error .negativeSeed
  else
    let (problem, _) := (experiment o settings).runOn (Source.ofSeed settings.seed [])
    let problem ← problem
    let specs ← Specs.create (.bool o.probabilitySumCut) o.numPaths
    return (specs, problem)

/-- Faults of values are reported; a missing value and a lack of room end the execution. -/
def reported : Fault → Bool
  | .wrongType | .rangeTooLarge | .outOfMemory | .noRoom _ _ => false
  | _ => true

/-- Executes the command line. A fault of the solver is a fault of the execution. -/
def execute (args : List String) : Except Fault Execution :=
  match parse args with
  | .error .helpAsked => .ok (.stopped { exit := 0, stdout := help })
  | .error (.misuse message) =>
    .ok (.stopped {
      exit := 2
      stderr := usage ++ "decision-programming: error: " ++ message ++ "\n" })
  | .ok o =>
    match prepare o with
    | .error fault =>
      if reported fault then
        .ok (.stopped { exit := 1, stdout := "ERROR: " ++ fault.message ++ "\n" })
      else .error fault
    | .ok (specs, problem) => do
      let run ← solveProblem (.ofDiagram problem.diagram) specs problem
        { timeLimit := o.timeLimit, mipGap := o.mipGap, verbose := !o.quiet }
      return .solved o run

/-- What an execution prints; `time` stands for the time that the solver took. -/
def Execution.result (time : String) : Execution → Except Fault Result
  | stopped result => .ok result
  | solved o run => do
    let said ←
      if o.quiet then pure ""
      else do
        let d := run.formulation.problem.diagram
        pure (d.text ++ "\n" ++ (← Report.run (.ofDiagram d) run time))
    match run.solution? with
    | none => return { exit := 1, stdout := said }
    | some s =>
      return { exit := 0, stdout := said ++ "\n[SUCCESS] Expected utility: " ++
        Decimal.fixed 4 s.expectedValue ++ "\n" }

end InfluenceProgram.CommandLine
