import InfluenceProgram.Datum.Order
import InfluenceProgram.Scalar

/-!
Risk measures of a discrete distribution given as utilities and their probabilities. The value at
risk is a quantile; the conditional value at risk is the mean of the worst share.
-/

namespace InfluenceProgram.Risk

variable {α : Type} [Scalar α]

/-- How much a cumulative probability may fall short of a level that it reaches. -/
def levelTolerance : α := Scalar.decimal 1 12

/-- Levels are above zero and at most one. -/
def checkLevel (level : α) : Except Fault Unit :=
  if 0 < level ∧ level ≤ 1 then .ok () else .error (.domain .riskLevel)

/-- A level as it was given; only its value counts. -/
def readLevel (d : Datum) : Except Fault Float := do
  if (← d.above 0) && !(← d.above 1) then d.toReal else .error (.domain .riskLevel)

/-- Utilities in order; what cannot be compared with itself goes last. -/
def notAbove (a b : α) : Bool := a ≤ b || !(b == b)

/-- The utilities in ascending order, each with the probability at its place. -/
def arranged (utilities probabilities : List α) : Except Fault (List (α × α)) :=
  (utilities.zipIdx.mergeSort fun a b => notAbove a.1 b.1).mapM fun (u, k) =>
    match probabilities[k]? with
    | some p => .ok (u, p)
    | none => .error (.outsideAxis k 0 probabilities.length)

/-- The first place from `low` on whose item is not below `x`, found by halving `[low, high)`. -/
def firstReaching (items : List α) (x : α) (low high : Nat) : Nat :=
  if low < high then
    let middle := low + (high - low) / 2
    if items.getD middle x < x then firstReaching items x (middle + 1) high
    else firstReaching items x low middle
  else low
termination_by high - low
decreasing_by all_goals omega

/--
The utility at which the cumulative probability reaches a level, else the greatest utility. There
may be more or fewer probabilities than utilities.
-/
def quantileOf (utilities probabilities : List α) (level : α) : Except Fault α :=
  let cumulative := Scalar.cumulative probabilities
  let k := firstReaching cumulative (level - levelTolerance) 0 cumulative.length
  match utilities[min k (utilities.length - 1)]? with
  | some u => .ok u
  | none => .error (.outsideAxis (-1) 0 0)

def quantile (pairs : List (α × α)) (level : α) : Except Fault α :=
  quantileOf (pairs.map (·.1)) (pairs.map (·.2)) level

/-- The least utility whose cumulative probability reaches a level. -/
def valueAtRisk (utilities probabilities : List α) (level : α) : Except Fault α := do
  checkLevel level
  quantile (← arranged utilities probabilities) level

/--
The mean utility of the worst share of the distribution. The value at risk checks the level and
arranges the utilities once more.
-/
def conditionalValueAtRisk (utilities probabilities : List α) (level : α) : Except Fault α := do
  checkLevel level
  let pairs ← arranged utilities probabilities
  let threshold ← valueAtRisk (pairs.map (·.1)) (pairs.map (·.2)) level
  let below := pairs.filter fun (u, _) => u < threshold
  let tail := Scalar.pairwiseSum (below.map (·.2))
  let worst := Scalar.dot (below.map (·.1)) (below.map (·.2))
  return (worst + (level - tail) * threshold) / level

end InfluenceProgram.Risk
