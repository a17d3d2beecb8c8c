import InfluenceProgram.Analysis.Risk
import InfluenceProgram.Tensor

/-!
Risk measures of utilities and probabilities that are given as tables. Utilities are put in order
along their last axis, and the places found there select rows along the first axis of both tables.
A measure is a number only if its tables have one axis; probabilities in further axes are added up
one after the other on the way to the value at risk.
-/

namespace InfluenceProgram.Risk

variable {α : Type} [Scalar α]

/-- So many pieces of one size, one after the other. -/
def pieces (count size : Nat) (items : List α) : List (List α) :=
  (List.range count).map fun k => (items.drop (k * size)).take size

/-- The places along the last axis, each piece of the table in ascending order of its entries. -/
def order (t : Tensor α) : List Nat :=
  match t.shape.reverse with
  | [] => [0]
  | size :: outer =>
    (pieces (volume outer) size t.entries.toList).flatMap fun piece =>
      (piece.zipIdx.mergeSort fun a b => notAbove a.1 b.1).map (·.2)

/-- The rows at some places along the first axis. -/
def rowsAt (t : Tensor α) (places : List Nat) : Except Fault (List (List α)) :=
  match t.shape with
  | [] => .error (.tooManyIndices 0 1)
  | count :: inner =>
    let rows := pieces count (volume inner) t.entries.toList
    places.mapM fun (k : Nat) =>
      match rows[k]? with
      | some row => .ok row
      | none => .error (.outsideAxis k 0 count)

/-- The rows of utilities in ascending order, and the rows of probabilities at the same places. -/
def arrangedRows (utilities probabilities : Tensor α) :
    Except Fault (List (List α) × List (List α)) := do
  let places := order utilities
  return (← rowsAt utilities places, ← rowsAt probabilities places)

def valueAtRiskOf (utilities probabilities : Tensor α) (level : α) : Except Fault α := do
  checkLevel level
  let (us, ps) ← arrangedRows utilities probabilities
  if utilities.shape.length = 1 then quantileOf us.flatten ps.flatten level
  else .error .wrongType

/--
The conditional value at risk of utilities and probabilities in tables. Utilities below the value
at risk are multiplied by columns of probabilities, which have to be as long.
-/
def conditionalValueAtRiskOf (utilities probabilities : Tensor α) (level : α) :
    Except Fault α := do
  let threshold ← valueAtRiskOf utilities probabilities level
  match probabilities.shape.reverse with
  | [_] =>
    conditionalValueAtRisk utilities.entries.toList probabilities.entries.toList level
  | _ :: column :: _ :: _ =>
    let (us, _) ← arrangedRows utilities probabilities
    let below := us.flatten.countP fun u => u < threshold
    .error (if column = below then .wrongType else .columnLength column below)
  | _ => .error .wrongType

end InfluenceProgram.Risk
