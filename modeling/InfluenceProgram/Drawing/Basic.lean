import InfluenceProgram.Datum.Key
import InfluenceProgram.Diagram

/-!
Diagrams as they are drawn: the nodes of a diagram are whole numbers by value, and the way each of
them was written is kept, so that it can be shown again. Only chance, decision and value nodes keep
how they were written; arcs lead between integers.
-/

namespace InfluenceProgram

structure Drawing where
  diagram : Diagram
  /-- The nodes with the data they were written as. -/
  written : Keyed Int Datum

namespace Drawing

/-- Nodes in order, each once, and each as it was written first. -/
def readNodes (d : Datum) : Except Fault (List Datum) := do
  let nodes ← (← d.items).mapM fun node =>
    match node with
    | .list _ | .record _ => .error .wrongType
    | node => .ok node
  Datum.sorted (Datum.distinct nodes)

/-- The nodes of both lists, as they stand in the shorter one. -/
def shared (xs ys : List Datum) : List Datum :=
  if xs.length < ys.length then xs.filter fun x => ys.any (·.same x)
  else ys.filter fun y => xs.any (·.same y)

/-- Whether nodes are the whole numbers from `first` on, so many of them. -/
def fill (first : Int) (length : Nat) (nodes : List Datum) : Bool :=
  nodes.length == length && nodes.all fun node =>
    match node.whole? with
    | some j => first ≤ j && j < first + length
    | none => false

/-- Checks the nodes; what is wrong with them is shown as they were written. -/
def checkNodes (chance decision value : List Datum) : Except Fault Unit := do
  let inner := chance.length + decision.length
  let both := shared chance decision
  if !both.isEmpty then .error (.layout (.overlap (← Datum.sorted both)))
  else if !fill 1 inner (chance ++ decision) then
    .error (.layout (.union inner (← Datum.sorted (chance ++ decision))))
  else if !fill (inner + 1) value.length value then
    .error (.layout (.values (inner + 1) (inner + value.length) value))
  else .ok ()

def numbers (nodes : List Datum) : List Int := nodes.filterMap Datum.whole?

/--
The diagram that data stand for: chance, decision and value nodes, arcs, and state counts. Nodes
are checked before arcs, and arcs before the state counts are looked at.
-/
def create (chance decision value arcs counts : Datum) : Except Fault Drawing := do
  let chance ← readNodes chance
  let decision ← readNodes decision
  let value ← readNodes value
  let arcs ← (← arcs.items).mapM Datum.toArc
  checkNodes chance decision value
  let outline := Outline.ofLists (numbers chance) (numbers decision) (numbers value) arcs
  match outline.arcs.findSome? outline.arcDefect? with
  | some defect => .error (.layout defect)
  | none =>
    let diagram ← Diagram.create (numbers chance) (numbers decision) (numbers value) arcs
      (← counts.items)
    let written := (chance ++ decision ++ value).filterMap fun node =>
      node.whole?.map fun j => (j, node)
    return { diagram, written }

def ofDiagram (diagram : Diagram) : Drawing := { diagram, written := [] }

def label (w : Drawing) (j : Int) : Datum := (w.written.get? j).getD (.int j)

def labels (w : Drawing) (nodes : List Int) : List Datum := nodes.map w.label

/-- A node inside a name, as it was written. -/
def nodeName (w : Drawing) (j : Int) : String := (w.label j).plain

/-- Refuses a node that was written as a real number where a position is needed. -/
def checkPosition (w : Drawing) (j : Int) : Except Fault Unit :=
  if (w.label j).isReal then .error .wrongType else .ok ()

/-- The information set of a node; a list or record is no node at all. -/
def informationSet? (w : Drawing) : Datum → Except Fault (List Int)
  | .list _ | .record _ => .error .wrongType
  | node =>
    match node.whole? with
    | some j => (w.diagram.informationSet? j).mapError fun _ => .missingKey node
    | none => .error (.missingKey node)

def countsAt (w : Drawing) (nodes : Datum) : Except Fault (List Int) := do
  (← nodes.items).mapM fun node => do
    let j ← node.position
    Position.pick .outsideTuple w.diagram.counts (j - 1)

/-- Whether a datum has the value of one of some nodes. -/
def among (nodes : List Int) (d : Datum) : Bool := d.whole?.elim false nodes.contains

def isChance (w : Drawing) (d : Datum) : Bool := d.whole?.elim false w.diagram.isChance

def isDecision (w : Drawing) (d : Datum) : Bool := d.whole?.elim false w.diagram.isDecision

/-- Whether a number is past the inner nodes. -/
def isValue (w : Drawing) (d : Datum) : Except Fault Bool :=
  match d.whole? with
  | some j => .ok (w.diagram.isValue j)
  | none => d.above w.diagram.inner

def text (w : Drawing) : String :=
  let nodes (js : List Int) : String := (Datum.list (w.labels js)).shown
  w.diagram.textWith nodes

end Drawing

/-- The arcs that information sets stand for, in order and with the nodes as they were written. -/
def drawnArcs (sets : Keyed Key Datum) : Except Fault (List Datum) := do
  let groups ← sets.mapM fun (node, parents) => do
    return (← parents.items).map fun i => Datum.list [i, node.datum]
  Datum.sorted groups.flatten

end InfluenceProgram
