import InfluenceProgram.Keyed
import InfluenceProgram.Program

/-!
Solving a program by trying every assignment of zeros and ones. A continuous variable is not tried
if one equation alone says what it is.
-/

namespace InfluenceProgram.Program

variable {κ α : Type} [DecidableEq κ] [Scalar α]

/-- How far a row may be missed. -/
def feasibilityTolerance : α := Scalar.decimal 1 6

/-- Every assignment of zeros and ones to some variables, as a list of pairs. -/
def assignments : List κ → List (List (κ × α))
  | [] => [[]]
  | v :: rest =>
    let tails := assignments rest
    [0, 1].flatMap fun value => tails.map ((v, value) :: ·)

/-- The value of a variable in an assignment, zero if it has none. -/
def valueIn (assignment : List (κ × α)) (v : κ) : α :=
  (Keyed.get? v assignment).getD 0

/--
The only row that a continuous variable is in, if it is an equation and the variable stands there
as it is.
-/
def definingRow? (p : Program κ α) (c : Column κ α) : Option (Row κ α) :=
  match p.rows.filter (·.terms.any (·.1 == c.key)) with
  | [r] =>
    if !c.binary && r.sense == .exactly && r.terms.coefficient c.key == 1 then some r else none
  | _ => none

/-- Every assignment to try: zeros and ones, and what follows from them as far as bounds admit. -/
def candidates (p : Program κ α) : List (List (κ × α)) :=
  let free := p.columns.filter fun c => (p.definingRow? c).isNone
  (assignments (free.map (·.key))).map fun a =>
    a ++ p.columns.filterMap fun c => (p.definingRow? c).map fun r =>
      (c.key, c.nearest (r.rhs - r.terms.value (valueIn a)))

/-- A feasible candidate with the best objective among those that may pass, the first of several. -/
def optimumAmong? (p : Program κ α) (passes : (κ → α) → Bool) : Option (List (κ × α) × α) :=
  let feasible := p.candidates.filter fun a =>
    p.feasible feasibilityTolerance (valueIn a) && passes (valueIn a)
  feasible.foldl (fun best a =>
    let value := p.objectiveAt (valueIn a)
    match best with
    | some (_, bestValue) => if p.better value bestValue then some (a, value) else best
    | none => some (a, value)) none

/-- A feasible candidate with the best objective, the first of several. -/
def optimum? (p : Program κ α) : Option (List (κ × α) × α) := p.optimumAmong? fun _ => true

end InfluenceProgram.Program
