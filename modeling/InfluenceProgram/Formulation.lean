import InfluenceProgram.Problem
import InfluenceProgram.Program
import InfluenceProgram.Settings

/-!
The decision model of a problem: a linear program with one continuous variable for the probability
of each path and one binary variable for each choice of a state in a context. Choices of one
context add up to one, and a path has no probability unless all its choices are made.
-/

namespace InfluenceProgram

inductive Variable where
  /-- The probability of a path. -/
  | path (s : Path)
  /-- Node `j` takes the last state of the key in the context of its other states. -/
  | choice (j : Int) (key : Path)
deriving DecidableEq, Repr

/-- The name of a variable, given how nodes are written. -/
def Variable.nameBy (node : Int → String) : Variable → String
  | path s => "pi_" ++ Path.key s
  | choice j key => "z" ++ node j ++ "_" ++ Path.key key

def Variable.name : Variable → String := nameBy toString

/-- The cuts that a model can get while it is solved. -/
inductive CutKind where
  /-- The probabilities of all paths add up to one. -/
  | probabilitySum
  /-- Exactly so many paths are active. -/
  | pathCount (number : Nat)
deriving DecidableEq, Repr

namespace CutKind

def name : CutKind → String
  | probabilitySum => "probability_sum_cut"
  | pathCount _ => "number_of_paths_cut"

def title : CutKind → String
  | probabilitySum => "ProbabilitySumCut"
  | pathCount _ => "NumberOfPathsCut"

end CutKind

/-- The cuts that specs ask for, in the order in which they are registered. -/
def Specs.cuts (s : Specs) : List CutKind :=
  (if s.sumCut then [.probabilitySum] else []) ++
    (if 0 < s.pathCount then [.pathCount s.pathCount] else [])

structure Formulation (α : Type) where
  problem : Problem α
  specs : Specs
  /-- The least probability of a path. -/
  epsilon : α
  /-- The least utility, which is taken from every value node. -/
  leastUtility : α
  program : Program Variable α

namespace Formulation

variable {α : Type} [Scalar α]

/-- The keys of the choices of one node: a state for each node of its family. -/
def choiceKeys (d : Diagram) (j : Int) : Except Fault (List Path) := do
  return paths (← d.countsAt (d.family j))

def pathColumn (p : Problem α) (s : Path) : Except Fault (Column Variable α) := do
  return { key := .path s, name := (Variable.path s).name,
           lower := some 0, upper := some (← p.probability s), binary := false }

def choiceColumn (node : Int → String) (j : Int) (key : Path) : Column Variable α :=
  { key := .choice j key, name := (Variable.choice j key).nameBy node,
    lower := some 0, upper := some 1, binary := true }

/-- The variable of a choice, provided that it has been created. -/
def choice (keys : Keyed Int (List Path)) (j : Int) (key : Path) : Except Fault Variable :=
  match keys.get? j with
  | some known =>
    if known.contains key then .ok (.choice j key) else .error (.missingKey (.list (key.map .int)))
  | none => .error (.missingKey (.int j))

/-- In one context exactly one state is chosen. -/
def strategyRow (node : Int → String) (keys : Keyed Int (List Path)) (j count : Int)
    (context : Path) : Except Fault (Row Variable α) := do
  let terms ← (states count).mapM fun x => return (← choice keys j (context ++ [x]), 1)
  return { name := "local_strategy_" ++ node j ++ "_" ++ Path.key context,
           terms, sense := .exactly, rhs := 1 }

/-- A path is no more probable than the choice that node `j` makes on it. -/
def consistencyRow (node : Int → String) (d : Diagram) (keys : Keyed Int (List Path)) (s : Path)
    (j : Int) : Except Fault (Row Variable α) := do
  let chosen ← choice keys j (← Path.restrict s (d.family j))
  return { name := "consistency_" ++ node j ++ "_" ++ Path.key s,
           terms := [(.path s, 1), (chosen, 0 - 1)], sense := .atMost, rhs := 0 }

def strategyRows (node : Int → String) (d : Diagram) (keys : Keyed Int (List Path)) :
    Except Fault (List (Row Variable α)) := do
  let groups ← d.decision.mapM fun j => do
    let contexts ← d.contextCounts j
    (paths contexts).mapM fun context => do strategyRow node keys j (← d.countOf j) context
  return groups.flatten

/-- The rows that keep paths away from choices that are not made. -/
def consistencyRows (node : Int → String) (d : Diagram) (keys : Keyed Int (List Path)) :
    Except Fault (List (Row Variable α)) := do
  let groups ← (paths d.counts).mapM fun s => d.decision.mapM (consistencyRow node d keys s)
  return groups.flatten

/-- The decision model of a problem, given how nodes are written in names. -/
def buildBy (node : Int → String) (specs : Specs) (p : Problem α) (name : String) :
    Except Fault (Formulation α) := do
  let d := p.diagram
  let epsilon ← p.leastProbability
  let leastUtility := p.leastUtility
  let pathColumns ← p.paths.mapM (pathColumn p)
  let keys : Keyed Int (List Path) ← d.decision.mapM fun j => return (j, ← choiceKeys d j)
  let choiceColumns := keys.flatMap fun (j, known) => known.map (choiceColumn node j)
  let objective ← p.paths.mapM fun s => return (Variable.path s, ← p.utility leastUtility s)
  let rows := (← strategyRows node d keys) ++ (← consistencyRows node d keys)
  return { problem := p, specs, epsilon, leastUtility,
           program := { name, columns := pathColumns ++ choiceColumns, rows, objective,
                        constant := 0, maximize := true } }

def build (specs : Specs) (p : Problem α) (name : String) : Except Fault (Formulation α) :=
  buildBy toString specs p name

/-- Builds the decision model, provided that there is room to walk through the paths. -/
def formulate (specs : Specs) (p : Problem α) (name : String) : Except Fault (Formulation α) :=
  Path.walking p.diagram.counts fun _ => build specs p name

def pathVariables (f : Formulation α) : List (Path × Variable) :=
  f.problem.paths.map fun s => (s, .path s)

def choiceVariables (f : Formulation α) : Except Fault (List (Int × List (Path × Variable))) :=
  f.problem.diagram.decision.mapM fun j => do
    return (j, (← choiceKeys f.problem.diagram j).map fun key => (key, .choice j key))

def shifts (f : Formulation α) : List (Int × α) :=
  f.problem.diagram.value.map fun v => (v, f.leastUtility)

/--
The row that a cut adds. A path counts as its share of the probability it can have at most;
impossible paths are left out.
-/
def cutRow (f : Formulation α) : CutKind → Except Fault (Row Variable α)
  | .probabilitySum =>
    return { name := "cut", terms := f.problem.paths.map fun s => (.path s, 1),
             sense := .exactly, rhs := 1 }
  | .pathCount number => do
    let shares ← f.problem.paths.mapM fun s => do
      let p ← f.problem.probability s
      return if 0 < p then [(Variable.path s, 1 / p)] else []
    return { name := "cut", terms := shares.flatten, sense := .exactly, rhs := Scalar.ofInt number }

end Formulation

end InfluenceProgram
