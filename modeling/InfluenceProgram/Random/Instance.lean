import InfluenceProgram.Problem
import InfluenceProgram.Random.Experiment

/-!
Random decision problems: the outline of a diagram, state counts, and tables for its nodes. Nodes
that are no parent of another chance or decision node become parents of value nodes, so that every
node has an influence on some utility. Whether nodes and tables can be held is found out where a
problem is asked for with data.
-/

namespace InfluenceProgram.Random

open Experiment

variable {α : Type}

/-- Parents of a chance or decision node: as many of the nodes before it as are drawn. -/
def informationSet (drawSize : Experiment α Int) (j : Int) : Experiment α (List Int) := do
  let size ← drawSize
  let earlier ← drawShuffle (span 1 (j - 1).toNat)
  return Ascending.ofList nodeBefore (earlier.take (min size (j - 1)).toNat)

/-- Parents of a value node: its leaves, and some of the other nodes if there are any. -/
def valueInformationSet (leaves : List Int) (n : Nat) : Experiment α (List Int) := do
  let others ← drawShuffle ((span 1 n).filter fun i => !leaves.contains i)
  if others.isEmpty then
    return Ascending.ofList nodeBefore leaves
  else
    let size ← drawInteger 1 (others.length + 1)
    return Ascending.ofList nodeBefore (leaves ++ others.take size.toNat)

def checkCounts (chance decision value limit : Int) : Experiment α Unit := do
  require (0 ≤ chance) .chanceCount
  require (0 ≤ decision) .decisionCount
  require (1 ≤ chance + decision) .nodeCount
  require (1 ≤ value) .valueCount
  require (1 ≤ limit) .informationLimit

/-- A random outline with the given numbers of nodes and a way to draw sizes of information sets. -/
def outlineBy (drawSize : Experiment α Int) (chance decision value : Int) :
    Experiment α Outline := do
  let n := (chance + decision).toNat
  let inner := span 1 n
  let values := span (n + 1) value.toNat
  let order ← drawShuffle inner
  let sets ← inner.mapM fun j => return (j, ← informationSet drawSize j)
  let parents := sets.flatMap (·.2)
  let leaves := inner.filter fun j => !parents.contains j
  let homes ← leaves.mapM fun i => return (i, (n : Int) + 1 + (← drawInteger 0 value))
  let valueSets ← values.mapM fun v =>
    return (v, ← valueInformationSet ((homes.filter (·.2 == v)).map (·.1)) n)
  return { chance := Ascending.ofList nodeBefore (order.take chance.toNat),
           decision := Ascending.ofList nodeBefore (order.drop chance.toNat),
           value := values, arcs := arcsOfInformationSets (sets ++ valueSets) }

/-- So many items, each any one of a list. -/
def drawItems {β : Type} (fallback : β) (items : List β) (count : Nat) :
    Experiment α (List β) :=
  (List.range count).mapM fun _ => do
    let k ← drawInteger 0 items.length
    return items.getD k.toNat fallback

def outline (chance decision value limit : Int) : Experiment α Outline := do
  checkCounts chance decision value limit
  outlineBy (drawInteger 0 (limit + 1)) chance decision value

/-- A state count for each of so many nodes; the choices are positive, and there is one. -/
def states (choices : List Int) (nodes : Int) : Experiment α (List Int) := do
  require (!choices.isEmpty && choices.all fun c => 1 ≤ c) .stateChoices
  drawItems 0 choices nodes.toNat

/-- The state counts of the context of a node, and its own. -/
def familyCounts (d : Diagram) (j : Int) : Except Fault (List Int × Int) := do
  let contexts ← d.countsAt (← d.informationSet? j)
  return (contexts, ← d.countOf j)

variable [Scalar α]

def cut (rows length : Nat) (xs : List α) : List (List α) :=
  (List.range rows).map fun r => (xs.drop (r * length)).take length

def tabulate (shape : List Int) (xs : List α) : Tensor α :=
  let items := xs.toArray
  Tensor.generate (shape.map Int.toNat) fun k => items.getD k 0

/--
How many outcomes each context loses when `size` outcomes are taken away. Each context stands in
the pool once for every outcome but one, so it keeps at least one.
-/
def drawLosses (contexts count size : Nat) : Experiment α (Keyed Nat Nat) := do
  let chosen ← drawSample (contexts * (count - 1)) size
  return chosen.foldl (fun losses k => losses.update (k / (count - 1)) 0 (· + 1)) []

/-- The outcomes that become impossible, each with its context. -/
def drawInactive (contexts count size : Nat) : Experiment α (List (Nat × List Nat)) := do
  (← drawLosses contexts count size).mapM fun (context, lost) =>
    return (context, ← drawSample count lost)

/-- The rows with zeros at the impossible outcomes. -/
def deactivate (inactive : List (Nat × List Nat)) (rows : List (List α)) : List (List α) :=
  rows.zipIdx.map fun (row, r) =>
    row.zipIdx.map fun (x, k) =>
      if inactive.any fun (context, lost) => context == r && lost.contains k then 0 else x

def normalize (rows : List (List α)) : List (List α) :=
  rows.map fun row =>
    let total := Scalar.pairwiseSum row
    row.map (· / total)

/-- Random probabilities of a chance node with `inactive` impossible outcomes. -/
def probabilities (d : Diagram) (j inactive : Int) : Experiment α (Tensor α) := do
  let (contextCounts, count) ← ofExcept (familyCounts d j)
  let contexts := Path.number contextCounts
  require (0 ≤ inactive ∧ inactive ≤ contexts * (count - 1)) .inactiveCount
  let xs ← drawUniforms (contexts * count.toNat)
  let zeros ←
    if 0 < inactive then drawInactive contexts count.toNat inactive.toNat else pure []
  return tabulate (contextCounts ++ [count])
    (normalize (deactivate zeros (cut contexts count.toNat xs))).flatten

/-- Shares of a width on top of a lowest value, as a table. -/
def spread (contextCounts : List Int) (low width : α) (shares : List α) : Tensor α :=
  tabulate contextCounts (shares.map fun x => x * width + low)

def utilities (d : Diagram) (v : Int) (low high : α) : Experiment α (Tensor α) := do
  require (low < high) .utilityRange
  let contextCounts ← ofExcept (d.informationSet? v >>= d.countsAt)
  let xs ← drawUniforms (Path.number contextCounts)
  return spread contextCounts low (high - low) xs

/-- A random local strategy as a table of zeros with a one in each context. -/
def localStrategy (d : Diagram) (j : Int) : Experiment α (Tensor Int) := do
  let (contextCounts, count) ← ofExcept (familyCounts d j)
  let picks ← (List.range (Path.number contextCounts)).mapM fun _ => drawInteger 0 count
  let items := (picks.flatMap fun pick =>
    (span 0 count.toNat).map fun x => if x == pick then (1 : Int) else 0).toArray
  return Tensor.generate ((contextCounts ++ [count]).map Int.toNat) fun k => items.getD k 0

/-- A random problem from an outline, state counts for it, and ways to make the tables of nodes. -/
def assemble (outline : Experiment α Outline) (counts : Outline → Experiment α (List Int))
    (odds gains : Diagram → Int → Experiment α (Tensor α)) : Experiment α (Problem α) := do
  let o ← outline
  let counts ← counts o
  let d ← ofExcept (Diagram.create o.chance o.decision o.value o.arcs (counts.map .int))
  let X ← d.chance.mapM fun j => return (j, Supplied.table (← odds d j))
  let Y ← d.value.mapM fun v => return (v, Supplied.table (← gains d v))
  ofExcept (Problem.create d X Y)

/-- A random problem: an outline, state counts, and the tables of all nodes. -/
def problem (chance decision value limit : Int) (choices : List Int) (low high : α) :
    Experiment α (Problem α) :=
  assemble (outline chance decision value limit) (fun _ => states choices (chance + decision))
    (fun d j => probabilities d j 0) fun d v => utilities d v low high

end InfluenceProgram.Random
