import InfluenceProgram.Cut
import InfluenceProgram.Drawing.Basic
import InfluenceProgram.Solver.Acceptance

/-!
Decision models as they go to a solver. What the formulation of a model leaves open is checked
here: whether its paths can be held, whether its decision nodes have places in them, and whether
the solver takes every variable and every row. Rows of cuts are checked when they are added.
-/

namespace InfluenceProgram.Solver

/-- How a decision model is called unless it is given a name. -/
def defaultName : Datum := .text "DecisionModel"

/-- The decision model of a problem, provided that a solver takes it. -/
def submit (w : Drawing) (specs : Specs) (p : Problem Float) (name : Datum) :
    Except Fault (Formulation Float) :=
  Path.walking p.diagram.counts fun _ => do
    let name ← readName name
    p.paths.forM fun s => checkName (Variable.path s).name
    p.diagram.decision.forM w.checkPosition
    let formulation ← Formulation.buildBy w.nodeName specs p name
    checkProgram formulation.program
    return formulation

/-- Refuses the row of a cut if its right side is too large for a number, or as any other row. -/
def checkCutRow (row : Row Variable Float) : Except Fault Unit :=
  if row.rhs.isFinite then checkRow row else .error .wrongType

/--
Adds rows of cuts up to the first that the solver refuses. A cut has been submitted even if its row
is refused afterwards.
-/
def enterRows (r : CutRun Float) : List (Row Variable Float) → Except Fault Unit × CutRun Float
  | [] => (.ok (), r)
  | row :: rest =>
    match checkCutRow row with
    | .ok _ => enterRows { r with rows := r.rows ++ [row] } rest
    | .error fault => (.error fault, r)

def enter (r : CutRun Float) (e : CutEvent Float) : Except Fault Unit × CutRun Float :=
  let after := r.step e
  enterRows { after with rows := r.rows } (after.rows.drop r.rows.length)

/-- The items of a sequence by their positions; a record with fields has none at position zero. -/
def sequenceOf : Datum → Except Fault (List Datum)
  | .record (_ :: _) => .error (.missingKey (.int 0))
  | d => d.items

/--
The values of so many variables as they were given; variables without one have the value zero, and
values without a variable are not looked at.
-/
def readValues (count : Nat) (given : Datum) : Except Fault (List Float) := do
  let values ← ((← sequenceOf given).take count).mapM Datum.toReal
  return (List.range count).map fun k => values.getD k 0.0

/-- An event of a run, what kept it from ending well, and the run after it. -/
structure Occurrence where
  event : CutEvent Float
  outcome : Except Fault Unit
  after : CutRun Float

/--
An event with values as they were given. That they cannot be read is a fault only if a cut asks
for them.
-/
def occur (r : CutRun Float) (event : Reply Float → CutEvent Float) (given : Datum) :
    Occurrence :=
  let values := readValues r.formulation.problem.paths.length given
  let event := event { values := values.toOption }
  let (outcome, after) := enter r event
  let failed := (r.invocations event).any fun (_, i) => i.verdict == .failed
  { event, after, outcome := do outcome; if failed then let _ ← values }

end InfluenceProgram.Solver
