import InfluenceProgram.Drawing.Basic
import InfluenceProgram.Problem

/-!
Tables as they are given, by nodes that may be written in any way. A fault names a node the way it
was written in the diagram, and a node that is not there the way it was written with its table.
-/

namespace InfluenceProgram

/-- The same fault, with the node of its table as it was written. -/
def Fault.at (label : Datum) : Fault → Fault
  | .table _ defect => .table label defect
  | fault => fault

abbrev GivenTables := Keyed Key Datum

namespace GivenTables

/-- Refuses tables for other nodes; the least of them is named. -/
def only (nodes : List Int) (defect : TableDefect) (given : GivenTables) : Except Fault Unit := do
  let others := (given.keys.map Key.datum).filter fun d => !Drawing.among nodes d
  match ← Datum.least? others with
  | some d => .error (.table d defect)
  | none => return

def find? (given : GivenTables) (j : Int) : Option (Supplied Float) :=
  (given.get? ⟨.int j⟩).map Datum.supplied

end GivenTables

namespace Drawing

/-- The checked table of one chance node. -/
def probabilityTable (w : Drawing) (given : GivenTables) (j : Int) :
    Except Fault (Tensor Float) := do
  let table := given.find? j
  match table with
  | some t => do
    let _ ← (t.tensor j).mapError (Fault.at (w.label j))
    w.checkPosition j
  | none => pure ()
  (InfluenceProgram.probabilityTable w.diagram j table).mapError (Fault.at (w.label j))

def utilityTable (w : Drawing) (given : GivenTables) (v : Int) : Except Fault (Tensor Float) :=
  (InfluenceProgram.utilityTable w.diagram v (given.find? v)).mapError (Fault.at (w.label v))

/-- The tables of the chance nodes, ascending. -/
def probabilities (w : Drawing) (X : GivenTables) : Except Fault (Keyed Int (Tensor Float)) := do
  X.only w.diagram.chance .notChance
  w.diagram.chance.mapM fun j => return (j, ← w.probabilityTable X j)

/-- The tables of the value nodes, ascending. -/
def utilities (w : Drawing) (Y : GivenTables) : Except Fault (Keyed Int (Tensor Float)) := do
  Y.only w.diagram.value .notValue
  w.diagram.value.mapM fun v => return (v, ← w.utilityTable Y v)

/-- The problem of a diagram with the given tables; probabilities are checked first. -/
def problem (w : Drawing) (X Y : GivenTables) : Except Fault (Problem Float) := do
  let probabilities ← w.probabilities X
  let utilities ← w.utilities Y
  return ⟨w.diagram, probabilities, utilities⟩

def tablesText (w : Drawing) (p : Problem Float) : String :=
  p.tablesText fun nodes => (Datum.list (w.labels nodes)).shown

end Drawing

end InfluenceProgram
