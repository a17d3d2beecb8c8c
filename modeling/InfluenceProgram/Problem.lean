import InfluenceProgram.Diagram
import InfluenceProgram.Keyed
import InfluenceProgram.Tensor

/-!
Decision problems: a diagram with a table of conditional probabilities for each chance node and a
table of utilities for each value node. Tables are checked against the diagram node by node in
ascending order, and the first bad one is named.
-/

namespace InfluenceProgram

variable {α : Type} [Scalar α]

/-- How far the probabilities of one context may add up to something else than one. -/
def probabilityTolerance : α := Scalar.decimal 1 8

/-- The least node that got a table although it may not have one. -/
def leastExtra? (given allowed : List Int) : Option Int :=
  (given.filter fun j => !allowed.contains j).min?

def Diagram.contextCounts (d : Diagram) (j : Int) : Except Fault (List Int) :=
  d.countsAt (d.informationSet j)

def Diagram.countOf (d : Diagram) (j : Int) : Except Fault Int :=
  Position.pick .outsideTuple d.counts (j - 1)

/-- Checks the table of one chance node: shape, finiteness, sign, and the sum of each context. -/
def checkProbabilities (d : Diagram) (j : Int) (t : Tensor α) : Except Fault Unit := do
  let contexts ← d.contextCounts j
  let count ← d.countOf j
  let shape := (contexts ++ [count]).map Int.toNat
  if t.shape ≠ shape then
    .error (.table (.int j) (.probabilityShape shape t.shape))
  else if !t.entries.all Scalar.isFinite then
    .error (.table (.int j) .probabilityNotFinite)
  else if t.entries.any (· < 0) then
    .error (.table (.int j) .negative)
  else
    (paths contexts).forM fun context => do
      let total := Scalar.pairwiseSum (← t.row context count)
      if Scalar.distance total 1 ≤ probabilityTolerance then .ok ()
      else .error (.table (.int j) (.total (Scalar.shown total) context))

/-- Checks the table of one value node: shape and finiteness. -/
def checkUtilities (d : Diagram) (v : Int) (t : Tensor α) : Except Fault Unit := do
  let contexts ← d.contextCounts v
  let shape := contexts.map Int.toNat
  if t.shape ≠ shape then
    .error (.table (.int v) (.utilityShape shape t.shape))
  else if !t.entries.all Scalar.isFinite then
    .error (.table (.int v) .utilityNotFinite)
  else .ok ()

def probabilityTable (d : Diagram) (j : Int) : Option (Supplied α) → Except Fault (Tensor α)
  | none => .error (.table (.int j) .probabilitiesMissing)
  | some given => do
    let t ← given.tensor j
    checkProbabilities d j t
    return t

def utilityTable (d : Diagram) (v : Int) : Option (Supplied α) → Except Fault (Tensor α)
  | none => .error (.table (.int v) .utilitiesMissing)
  | some given => do
    let t ← given.tensor v
    checkUtilities d v t
    return t

/-- The tables of the chance nodes, ascending. -/
def validateProbabilities (d : Diagram) (X : Keyed Int (Supplied α)) :
    Except Fault (Keyed Int (Tensor α)) :=
  match leastExtra? X.keys d.chance with
  | some j => .error (.table (.int j) .notChance)
  | none =>
    d.chance.mapM fun j => return (j, ← probabilityTable d j (X.get? j))

/-- The tables of the value nodes, ascending. -/
def validateUtilities (d : Diagram) (Y : Keyed Int (Supplied α)) :
    Except Fault (Keyed Int (Tensor α)) :=
  match leastExtra? Y.keys d.value with
  | some v => .error (.table (.int v) .notValue)
  | none =>
    d.value.mapM fun v => return (v, ← utilityTable d v (Y.get? v))

structure Problem (α : Type) where
  diagram : Diagram
  probabilities : Keyed Int (Tensor α)
  utilities : Keyed Int (Tensor α)

namespace Problem

/-- The problem of a diagram with the given tables; probabilities are checked first. -/
def create (d : Diagram) (X Y : Keyed Int (Supplied α)) : Except Fault (Problem α) := do
  let probabilities ← validateProbabilities d X
  let utilities ← validateUtilities d Y
  return ⟨d, probabilities, utilities⟩

/-- How the tables of a problem are shown, given how their nodes are. -/
def tablesText (p : Problem α) (nodes : List Int → String) : String :=
  "ModelParameters(X=" ++ nodes p.probabilities.keys ++ ", Y=" ++ nodes p.utilities.keys ++ ")"

/-- A table together with the nodes whose states index it. -/
structure Factor (α : Type) where
  table : Tensor α
  nodes : List Int

def Factor.read (f : Factor α) (s : Path) : Except Fault α := do
  f.table.get (Path.toIndex (← Path.restrict s f.nodes))

/-- The entry of a table that a path selects whose states are still as they were given. -/
def Factor.readAt (f : Factor α) (s : List Datum) : Except Fault α := do
  f.table.getAt (← Path.restrict s f.nodes)

def chanceFactors (p : Problem α) : List (Factor α) :=
  p.probabilities.map fun (j, t) => ⟨t, p.diagram.family j⟩

def valueFactors (p : Problem α) : List (Factor α) :=
  p.utilities.map fun (v, t) => ⟨t, p.diagram.informationSet v⟩

def probabilityBy (p : Problem α) (read : Factor α → Except Fault α) : Except Fault α :=
  p.chanceFactors.foldlM (fun product f => return product * (← read f)) 1

/-- The sum of the entries that are read from some tables; none without tables. -/
def sumBy? (factors : List (Factor α)) (read : Factor α → Except Fault α) :
    Except Fault (Option α) := do
  let gains ← factors.mapM read
  return if gains.isEmpty then none else some (Scalar.sum gains)

/--
The sum of the entries that are read from the tables of the value nodes, with `least` taken from
each of them; none without value nodes.
-/
def utilityBy? (p : Problem α) (least : α) (read : Factor α → Except Fault α) :
    Except Fault (Option α) :=
  sumBy? p.valueFactors fun f => return (← read f) - least

/--
The probability of a path when every decision on it is taken: the product of the conditional
probabilities of its chance states.
-/
def probability (p : Problem α) (s : Path) : Except Fault α := p.probabilityBy (·.read s)

/-- The utility of a path with `least` taken from every value node; none without value nodes. -/
def utility? (p : Problem α) (least : α) (s : Path) : Except Fault (Option α) :=
  p.utilityBy? least (·.read s)

/-- The utility of a path, zero without value nodes. -/
def utility (p : Problem α) (least : α) (s : Path) : Except Fault α := do
  return (← p.utility? least s).getD 0

def paths (p : Problem α) : List Path := InfluenceProgram.paths p.diagram.counts

/-- The least probability of a path. -/
def leastProbability (p : Problem α) : Except Fault α := do
  return (Scalar.least? (← p.paths.mapM p.probability)).getD 1

/-- The least probability, provided that there is room to walk through the paths. -/
def minimumProbability (p : Problem α) : Except Fault α :=
  Path.walking p.diagram.counts fun _ => p.leastProbability

/--
The least utility in any table, zero without value nodes. Of several in one table the last counts,
of several tables the first.
-/
def leastUtility (p : Problem α) : α :=
  (Scalar.least? (p.utilities.filterMap fun (_, t) => Scalar.lastLeast? t.entries.toList)).getD 0

end Problem

end InfluenceProgram
