import InfluenceProgram.Analysis.Strategy

/-!
What a strategy leads to: the distribution of the utility, the marginal probabilities of the states
of every node, and the expected value of a solution.
-/

namespace InfluenceProgram

variable {α : Type} [Scalar α]

namespace Problem

def weightedPaths (p : Problem α) (σ : Strategy) : Except Fault (List (Path × α)) := do
  (← σ.compatiblePaths p.diagram).mapM fun s => return (s, ← p.probability s)

/-- The probability of each utility that occurs, utilities ascending. -/
def utilityDistribution (p : Problem α) (σ : Strategy) : Except Fault (List (α × α)) := do
  let reached := (← p.weightedPaths σ).filter fun (_, weight) => 0 < weight
  let mass ← reached.foldlM (fun (mass : Keyed α α) (s, weight) =>
    return mass.update (← p.utility 0 s) 0 (· + weight)) []
  return mass.mergeSort fun a b => !(decide (b.1 < a.1))

def stateProbabilities (p : Problem α) (σ : Strategy) : Except Fault (List (Int × List α)) := do
  let weighted ← p.weightedPaths σ
  return (p.diagram.innerNodes.zip p.diagram.counts).zipIdx.map fun ((j, count), k) =>
    (j, (states count).map fun x =>
      Scalar.sum ((weighted.filter fun (s, _) => s[k]? == some x).map (·.2)))

/-- The probability of each state, provided that there is room for the states of every node. -/
def marginals (p : Problem α) (σ : Strategy) : Except Fault (List (Int × List α)) := do
  p.diagram.counts.forM fun count => holdable true [count.toNat]
  p.stateProbabilities σ

/-- The utility that all value nodes together lost to the shift. -/
def totalShift (p : Problem α) : α := Scalar.sum (p.diagram.value.map fun _ => p.leastUtility)

/-- The expected utility of path weights, the shift taken back. -/
def expectedValue (p : Problem α) (weights : List (Path × α)) : Except Fault α := do
  let parts ← weights.mapM fun (s, w) =>
    return w * ((← p.utility p.leastUtility s) + p.totalShift)
  return Scalar.sum parts

end Problem

end InfluenceProgram
