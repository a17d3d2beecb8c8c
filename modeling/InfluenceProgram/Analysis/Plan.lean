import InfluenceProgram.Analysis.Strategy
import InfluenceProgram.Drawing.Basic

/-!
Strategies as they are given: contexts and states may be any data. A path is a list of integers,
so only contexts and states that are whole numbers by value have a say in what happens on it.
-/

namespace InfluenceProgram

abbrev LocalPlan := Keyed Key Datum

abbrev Plan := Keyed Key LocalPlan

namespace LocalPlan

/-- The choices that can be met on a path. -/
def strategy (l : LocalPlan) : LocalStrategy :=
  l.filterMap fun (context, state) =>
    match context.datum with
    | .list parts => do return (← parts.mapM Datum.whole?, ← state.whole?)
    | _ => none

def ofStrategy (l : LocalStrategy) : LocalPlan :=
  l.map fun (context, x) => (⟨.list (context.map .int)⟩, .int x)

/-- The contexts in ascending order, each with its state. -/
def sorted (l : LocalPlan) : Except Fault (List (Datum × Datum)) :=
  Sorting.sort (fun a b => (Datum.list [a.1, a.2]).before (.list [b.1, b.2]))
    (l.map fun (context, x) => (context.datum, x))

/-- The parts of a key before its last one, and the last one as a state. -/
def splitParts (missing : Fault) (parts : List Datum) : Except Fault (Key × Datum) :=
  match parts.getLast? with
  | some x => return (⟨.list parts.dropLast⟩, .int (← x.toInt))
  | none => .error missing

/-- The context and the state in a key of choices, which has to be a sequence. -/
def split (key : Key) : Except Fault (Key × Datum) :=
  match key.datum with
  | .list parts => splitParts .outsideTuple parts
  | .text s => do splitParts .outsideText (← (Datum.text s).items)
  | _ => .error .wrongType

/-- Values above this are choices that are made. -/
def half : Datum := .real (Scalar.decimal 5 1)

def decode (values : Keyed Key Datum) : Except Fault LocalPlan :=
  decodeChoices half.before split values

end LocalPlan

namespace Plan

/-- What a node does that has to do something; `w` says how the node was written. -/
def local? (w : Drawing) (σ : Plan) (j : Int) : Except Fault LocalPlan :=
  match σ.get? ⟨.int j⟩ with
  | some l => .ok l
  | none => .error (.missingKey (w.label j))

def ofStrategy (σ : Strategy) : Plan :=
  σ.map fun (j, l) => (⟨.int j⟩, LocalPlan.ofStrategy l)

def decode (w : Drawing) (values : Keyed Key (Keyed Key Datum)) :
    Except Fault (List (Int × LocalPlan)) :=
  w.diagram.decision.mapM fun j =>
    match values.get? ⟨.int j⟩ with
    | some table => return (j, ← LocalPlan.decode table)
    | none => .error (.missingKey (w.label j))

/--
The strategy that matters to the paths. A decision node that was written as a real number has no
place in a path, which is a fault as soon as a path is asked for its state there.
-/
def strategy (w : Drawing) (σ : Plan) : Except Fault Strategy := do
  let d := w.diagram
  let locals ← d.decision.mapM fun j => return (j, (← σ.local? w j).strategy)
  Path.walking d.counts fun _ => do
    if d.decision.any fun j => (w.label j).isReal then
      (paths d.counts).forM fun s => do
        let _ ← locals.allM fun (j, l) => do
          w.checkPosition j
          Strategy.agrees d l j s
    return locals

/-- The paths on which every decision is the one of a plan, found by walking through all paths. -/
def compatiblePaths (w : Drawing) (σ : Plan) : Except Fault (List Path) := do
  (← σ.strategy w).compatiblePaths w.diagram

end Plan

end InfluenceProgram
