import InfluenceProgram.Cut
import InfluenceProgram.Datum.Order

/-!
Cuts at values of the path variables as they were given. Whole numbers are added up exactly until
a real number comes, and each value is compared by its exact value.
-/

namespace InfluenceProgram.CutKind

/-- Whether a value is at least the least path probability. -/
def reaches (epsilon : Float) (value : Datum) : Except Fault Bool := do
  return (← (Datum.real epsilon).before value) || (Datum.real epsilon).same value

/-- The number of active paths among some values. -/
def activeAmong (epsilon : Float) (values : List Datum) : Except Fault Nat := do
  return (← values.filterM (reaches epsilon)).length

/-- Whether values violate a cut. -/
def violatedBy (epsilon : Float) (values : List Datum) : CutKind → Except Fault Bool
  | probabilitySum => do return sumMissed epsilon (← (← Datum.total values).quantity)
  | pathCount number => do return countMissed Float (← activeAmong epsilon values) number

end InfluenceProgram.CutKind
