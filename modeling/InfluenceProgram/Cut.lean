import InfluenceProgram.Formulation

/-!
Lazy cuts. A cut waits until the solver reports values that violate it, is then submitted once,
and does nothing from then on. What the solver answers to a query is an input here, so a run of
events is a fold over a state.
-/

namespace InfluenceProgram

/-- Number of active paths: counts differ by whole numbers, so less than one is no difference. -/
def pathCountTolerance {α : Type} [Scalar α] : α := Scalar.decimal 9 1

namespace CutKind

variable {α : Type} [Scalar α]

/-- A path is active if its value is at least the least path probability. -/
def activePaths (epsilon : α) (values : List α) : Nat :=
  values.countP fun value => epsilon ≤ value

/-- Whether a sum of path probabilities is not one. -/
def sumMissed (epsilon sum : α) : Bool := epsilon < Scalar.distance sum 1

variable (α) in
/-- Whether a number of active paths is not the one that is asked for. -/
def countMissed (active number : Nat) : Bool :=
  let gap := (Int.ofNat active - Int.ofNat number).natAbs
  pathCountTolerance < (Scalar.ofInt (Int.ofNat gap) : α)

/-- Whether the values of the path variables violate a cut. -/
def violated (epsilon : α) (values : List α) : CutKind → Bool
  | probabilitySum => sumMissed epsilon (Scalar.sum values)
  | pathCount number => countMissed α (activePaths epsilon values) number

end CutKind

structure Cut where
  kind : CutKind
  submitted : Bool := false
deriving DecidableEq, Repr

namespace Cut

def stateName (c : Cut) : String := if c.submitted then "submitted" else "pending"

def text (c : Cut) : String := c.kind.title ++ "(state=" ++ c.stateName ++ ")"

/-- How a cut without a rule of its own is called and shown. -/
def bareName : String := "lazy_cut"

def bareText : String := "LazyCut(state=pending)"

end Cut

/-- The place in a run where the solver asks for cuts. -/
inductive Moment where
  /-- A new incumbent has been found. -/
  | incumbent
  /-- The relaxation of a node has been solved. -/
  | node
  | other
deriving DecidableEq, Repr

def Moment.ofCode (code : Int) : Moment :=
  if code = 4 then .incumbent else if code = 5 then .node else .other

/-- The status of a relaxation that has been solved to optimality. -/
def optimalStatus : Int := 2

/-- What is asked of the solver, in order. -/
inductive Query where
  | status
  | incumbentValues
  | relaxationValues
  | submission
deriving DecidableEq, Repr

def Query.text : Query → String
  | status => "get"
  | incumbentValues => "solution"
  | relaxationValues => "relaxation"
  | submission => "lazy"

/-- The values are those of the incumbent where one was found, else those of the relaxation. -/
def Moment.values : Moment → Query
  | incumbent => .incumbentValues
  | _ => .relaxationValues

/-- What the solver answers to one cut: values, if it has any, and whether it takes a row. -/
structure Reply (α : Type) where
  values : Option (List α)
  accepts : Bool := true

inductive Verdict where
  /-- The cut is not violated, or it is not needed any more. -/
  | quiet
  /-- The cut has been submitted by this call. -/
  | fired
  /-- A query or the submission failed. -/
  | failed
deriving DecidableEq, Repr

/-- One call of a cut: its new state, its verdict, what was asked, and the row it submitted. -/
structure Invocation (α : Type) where
  cut : Cut
  verdict : Verdict
  log : List Query
  row? : Option (Row Variable α) := none

variable {α : Type} [Scalar α]

/-- A pending cut asks for values and is submitted if they violate it. -/
def Cut.invoke (f : Formulation α) (moment : Moment) (reply : Reply α) (c : Cut) :
    Invocation α :=
  if c.submitted then { cut := c, verdict := .quiet, log := [] }
  else
    match reply.values with
    | none => { cut := c, verdict := .failed, log := [moment.values] }
    | some values =>
      if c.kind.violated f.epsilon values then
        match f.cutRow c.kind, reply.accepts with
        | .ok row, true =>
          { cut := { c with submitted := true }, verdict := .fired,
            log := [moment.values, .submission], row? := some row }
        | .ok _, false => { cut := c, verdict := .failed, log := [moment.values, .submission] }
        | .error _, _ => { cut := c, verdict := .failed, log := [moment.values] }
      else { cut := c, verdict := .quiet, log := [moment.values] }

/-- A run: the cuts of a model in order of registration, and the rows submitted so far. -/
structure CutRun (α : Type) where
  formulation : Formulation α
  cuts : List Cut
  rows : List (Row Variable α) := []

/-- What happens during a run. Reply `k` is meant for cut `k`. -/
inductive CutEvent (α : Type) where
  /-- One cut is called by itself. -/
  | call (cut : Nat) (moment : Moment) (reply : Reply α)
  /-- The solver passes by; a status is missing if it could not be queried. -/
  | dispatch (moment : Moment) (status : Option Int) (replies : Nat → Reply α)

/-- Calls cuts one after the other, from number `k` on, up to the first that fails. -/
def invokeFrom (f : Formulation α) (moment : Moment) (replies : Nat → Reply α) (k : Nat) :
    List Cut → List (Nat × Invocation α)
  | [] => []
  | c :: rest =>
    let i := c.invoke f moment (replies k)
    (k, i) :: if i.verdict = .failed then [] else invokeFrom f moment replies (k + 1) rest

namespace CutRun

def start (f : Formulation α) : CutRun α :=
  { formulation := f, cuts := f.specs.cuts.map fun kind => { kind } }

/-- Whether cuts are called: at an incumbent, and at a node whose relaxation is optimal. -/
def reached (moment : Moment) (status : Option Int) : Bool :=
  moment == .incumbent || (moment == .node && status == some optimalStatus)

/-- The calls that an event brings about, each with the number of its cut. -/
def invocations (r : CutRun α) : CutEvent α → List (Nat × Invocation α)
  | .call k moment reply =>
    match r.cuts[k]? with
    | some c => [(k, c.invoke r.formulation moment reply)]
    | none => []
  | .dispatch moment status replies =>
    if reached moment status then invokeFrom r.formulation moment replies 0 r.cuts else []

/-- What is asked of the solver before any cut is called. -/
def preamble : CutEvent α → List Query
  | .dispatch .node _ _ => [.status]
  | _ => []

/-- All that is asked of the solver during an event, in order. -/
def log (r : CutRun α) (e : CutEvent α) : List Query :=
  preamble e ++ (r.invocations e).flatMap (·.2.log)

def record (r : CutRun α) (made : List (Nat × Invocation α)) : CutRun α :=
  { r with
    cuts := made.foldl (fun cuts (k, i) => cuts.set k i.cut) r.cuts
    rows := r.rows ++ made.flatMap (·.2.row?.toList) }

def step (r : CutRun α) (e : CutEvent α) : CutRun α := r.record (r.invocations e)

def after (r : CutRun α) (events : List (CutEvent α)) : CutRun α := events.foldl step r

/-- The number of the cut at a position, counted from either end. -/
def number (r : CutRun α) (i : Int) : Except Fault Nat :=
  Position.pick .outsideList (List.range r.cuts.length) i

/-- The row of one cut, added to the model although the cut was not violated. -/
def addRow (r : CutRun α) (i : Int) : Except Fault (Row Variable α × CutRun α) := do
  let c ← Position.pick .outsideList r.cuts i
  let row ← r.formulation.cutRow c.kind
  return (row, { r with rows := r.rows ++ [row] })

/-- The number of rows of the model, those of the cuts included. -/
def rowCount (r : CutRun α) : Nat := r.formulation.program.rows.length + r.rows.length

end CutRun

end InfluenceProgram
