import InfluenceProgram.Scalar

/-!
Mixed-binary linear programs: variables with bounds, rows, and an objective, with what it means
for an assignment to satisfy them. Variables can be of any type that tells them apart.
-/

namespace InfluenceProgram

inductive Sense where
  | atMost
  | atLeast
  | exactly
deriving DecidableEq, Repr

namespace Sense

def symbol : Sense → String
  | atMost => "<"
  | atLeast => ">"
  | exactly => "="

/-- Whether two scalars stand in a relation, up to a slack. -/
def holds {α : Type} [Scalar α] (slack left right : α) : Sense → Bool
  | atMost => left ≤ right + slack
  | atLeast => right ≤ left + slack
  | exactly => left ≤ right + slack && right ≤ left + slack

/-- Whether two scalars miss a relation by more than a slack; unknown numbers miss nothing. -/
def missed {α : Type} [Scalar α] (slack left right : α) : Sense → Bool
  | atMost => right + slack < left
  | atLeast => left < right - slack
  | exactly => slack < Scalar.distance left right

end Sense

/-- Variables with coefficients, in the order in which they were added. -/
abbrev Terms (κ α : Type) := List (κ × α)

namespace Terms

variable {κ α : Type} [DecidableEq κ] [Scalar α]

def coefficient (terms : Terms κ α) (v : κ) : α :=
  Scalar.sum ((terms.filter (·.1 == v)).map (·.2))

def value (terms : Terms κ α) (x : κ → α) : α := Scalar.sum (terms.map fun (v, c) => c * x v)

/-- Coefficients of at least this size count. -/
def leastCoefficient : α := Scalar.decimal 1 13

/-- Each of some variables once, with its coefficient, provided that the coefficient counts. -/
def merged (terms : Terms κ α) (order : List κ) : Terms κ α :=
  order.filterMap fun v =>
    if terms.any (·.1 == v) then
      let c := terms.coefficient v
      if leastCoefficient ≤ Scalar.distance c 0 then some (v, c) else none
    else none

end Terms

structure Column (κ α : Type) where
  key : κ
  name : String
  /-- `none` for a variable without lower bound. -/
  lower : Option α
  /-- `none` for a variable without upper bound. -/
  upper : Option α
  binary : Bool

structure Row (κ α : Type) where
  name : String
  terms : Terms κ α
  sense : Sense
  rhs : α

structure Program (κ α : Type) where
  name : String
  columns : List (Column κ α) := []
  rows : List (Row κ α) := []
  objective : Terms κ α := []
  constant : α
  maximize : Bool := false

variable {κ α : Type} [DecidableEq κ] [Scalar α]

/-- Whether a value is within the bounds of a variable, and zero or one where it has to be. -/
def Column.admits (c : Column κ α) (value : α) : Bool :=
  (match c.lower with | some l => decide (l ≤ value) | none => true) &&
    (match c.upper with | some u => decide (value ≤ u) | none => true) &&
    (!c.binary || value == 0 || value == 1)

/-- The value within the bounds of a variable that is nearest to some value. -/
def Column.nearest (c : Column κ α) (value : α) : α :=
  let raised := match c.lower with | some l => if value < l then l else value | none => value
  match c.upper with | some u => if u < raised then u else raised | none => raised

/-- Whether an assignment satisfies a row, up to a slack. -/
def Row.holds (slack : α) (r : Row κ α) (x : κ → α) : Bool :=
  r.sense.holds slack (r.terms.value x) r.rhs

namespace Program

def keys (p : Program κ α) : List κ := p.columns.map (·.key)

def binaryCount (p : Program κ α) : Nat := p.columns.countP (·.binary)

/-- Whether an assignment satisfies all bounds and all rows, up to a slack. -/
def feasible (p : Program κ α) (slack : α) (x : κ → α) : Bool :=
  p.columns.all (fun c => c.admits (x c.key)) && p.rows.all fun r => r.holds slack x

def objectiveAt (p : Program κ α) (x : κ → α) : α := p.constant + p.objective.value x

/-- Whether the first of two objective values is the better one. -/
def better (p : Program κ α) (a b : α) : Bool := if p.maximize then b < a else a < b

end Program

end InfluenceProgram
