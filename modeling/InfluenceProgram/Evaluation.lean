import InfluenceProgram.Analysis.Distribution
import InfluenceProgram.Datum.Key
import InfluenceProgram.Tensor.Overlay

/-!
Values of a problem at data as they are given: paths with any states, a deduction that may be a
table of its own, weights that may be whole numbers or reals.
-/

namespace InfluenceProgram.Problem

def probabilityAt (p : Problem Float) (s : List Datum) : Except Fault Float :=
  p.probabilityBy (·.readAt s)

def loweredFactors (p : Problem Float) (deduction : Datum) : Except Fault (List (Factor Float)) :=
  p.valueFactors.mapM fun f => return { f with table := ← f.table.lowered deduction }

/-- The sum of the entries that a path selects from tables of utilities; none without tables. -/
def utilityOf? (factors : List (Factor Float)) (s : List Datum) : Except Fault (Option Float) :=
  sumBy? factors (·.readAt s)

/--
The entry of a table at a key; a table without nodes does not look at the key. The characters of a
text stand at the positions of nodes, but they are no states.
-/
def Factor.readKey (f : Factor Float) (key : Key) : Except Fault Float := do
  if f.nodes.isEmpty then f.readAt []
  else
    match key.datum with
    | .text s =>
      f.nodes.forM fun j => do let _ ← Position.pick .outsideText s.toList (j - 1)
      .error .wrongType
    | path => f.readAt (← path.items)

/-- A weight times a utility; without value nodes the utility is the whole number zero. -/
def share (weight : Datum) : Option Float → Except Fault Datum
  | some utility => return .real ((← weight.quantity) * utility)
  | none =>
    match weight with
    | .int _ | .bool _ => .ok (.int 0)
    | .real x => .ok (.real (x * 0.0))
    | _ => .error .wrongType

/-- The sum of some shares: zero if there are no reals among them. -/
def sumOfShares (shares : List Datum) : Datum :=
  let reals := shares.filterMap fun
    | .real x => some x
    | _ => none
  if reals.isEmpty then .int 0 else .real (Scalar.sum reals)

/-- The expected utility of path weights as they were given, the shift taken back. -/
def expectedValueOf (p : Problem Float) (weights : Keyed Key Datum) : Except Fault Datum := do
  let shares ← weights.mapM fun (key, weight) => do
    let utility ← p.utilityBy? p.leastUtility (·.readKey key)
    share weight (utility.map (· + p.totalShift))
  return sumOfShares shares

end InfluenceProgram.Problem
