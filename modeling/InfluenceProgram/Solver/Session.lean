import InfluenceProgram.Datum.Table
import InfluenceProgram.Position
import InfluenceProgram.Solver.Acceptance
import InfluenceProgram.Solver.Exhaustive
import InfluenceProgram.Solver.Parameters

/-!
A program under construction, as a modelling session sees it. New variables become part of the
program at its next update; changing the program discards the last answer, while a program that
has not changed keeps a solution that has been found. Lazy rows are kept as they were given and
read when the solver has found something to check them against; what is wrong with them then stays
without a word.
-/

namespace InfluenceProgram

/-- The outcome of a run of the solver. -/
structure Answer where
  /-- The assignment and its objective, if one was found. -/
  found : Option (List (Nat × Float) × Float)
  /-- Whether nothing better can be found. -/
  optimal : Bool

namespace Answer

def hasSolution (a : Answer) : Bool := a.found.isSome

def objective? (a : Answer) : Option Float := a.found.map (·.2)

end Answer

/-- A row as it was given. -/
structure GivenRow where
  terms : Datum
  sense : Datum
  rhs : Datum

def GivenRow.sense? (given : GivenRow) : Option Sense :=
  [Sense.atMost, .atLeast, .exactly].find? fun sense => given.sense == .text sense.symbol

/-- The right side of a row, with the sense that the row has by it. -/
inductive RightSide where
  | number (sense : Sense) (x : Float)
  /-- The terms of an equation may lie anywhere between two numbers. -/
  | range (low high : Float)
  /-- Nothing is equal to nothing. -/
  | nothing

structure Session where
  program : Program Nat Float
  /-- Variables that wait for the next update. -/
  waiting : List (Column Nat Float) := []
  /-- The variables that can be referred to, in order of creation. -/
  handles : List Nat := []
  lazyRows : List GivenRow := []
  parameters : SolverParameters := {}
  answer? : Option Answer := none

namespace Session

def start (name : String) : Session := { program := { name, constant := 0.0 } }

/-- Bounds of this size and more are no bounds. -/
def infiniteBound : Float := Scalar.ofInt 100000000000000000000

def lowerBound (x : Float) : Option Float :=
  if x ≤ -infiniteBound then none else some (Solver.readBack x)

def upperBound (x : Float) : Option Float :=
  if infiniteBound ≤ x then none
  else if x ≤ -Solver.infinity then some (-1.0 / 0.0)
  else some x

def update (s : Session) : Session :=
  if s.waiting.isEmpty then s
  else { s with
    program := { s.program with columns := s.program.columns ++ s.waiting }
    waiting := []
    answer? := none }

def change (s : Session) (f : Program Nat Float → Program Nat Float) : Session :=
  let s := s.update
  { s with program := f s.program, answer? := none }

/-- The number that the next variable gets. -/
def nextNumber (s : Session) : Nat := s.program.columns.length + s.waiting.length

/-- The name of the variable of a key: the parts of a tuple follow each other. -/
def variableName (number : Nat) (name : String) (key : Datum) : String :=
  let parts :=
    match key with
    | .list items => "_".intercalate (items.map Datum.keyPlain)
    | d => d.plain
  Solver.nameOr "C" number (name ++ "_" ++ parts)

abbrev Created := Keyed Key (Column Nat Float)

/--
Creates waiting variables one by one up to the first one that is refused. A variable whose datum
cannot be a key waits all the same, but nothing is known of it.
-/
def create (s : Session) (column : Nat → Datum → Except Fault (Column Nat Float)) :
    List Datum → Created → Except Fault Created × Session
  | [], made => (.ok made, s)
  | d :: rest, made =>
    match column s.nextNumber d with
    | .error fault => (.error fault, s)
    | .ok c =>
      let s := { s with waiting := s.waiting ++ [c] }
      match d.key with
      | .error fault => (.error fault, s)
      | .ok key => create s column rest (made.set key c)

/-- Creates variables and, if all could be created, makes them known. -/
def addVariables (s : Session) (column : Nat → Datum → Except Fault (Column Nat Float))
    (keys : Datum) : Except Fault Created × Session :=
  match keys.items with
  | .error fault => (.error fault, s)
  | .ok keys =>
    match s.create column keys [] with
    | (.error fault, s) => (.error fault, s)
    | (.ok made, s) =>
      let s := s.update
      (.ok made, { s with handles := s.handles ++ made.values.map (·.key) })

/-- The upper bound of a variable: for all keys alike, or read off a table. -/
inductive Ceiling where
  | all (bound : Datum)
  | byKey (table : Keyed Key Datum)

/-- The upper bound of a key; nothing is no bound when it is meant for all keys. -/
def Ceiling.at (d : Datum) : Ceiling → Except Fault Float
  | all .null => .ok (1.0 / 0.0)
  | all bound => bound.quantity
  | byKey table => do
    match table.get? (← d.key) with
    | some bound => bound.quantity
    | none => .error (.missingKey d)

/-- An upper bound as it is given; a list is a table. -/
def Ceiling.read : Datum → Except Fault Ceiling
  | .list table => do return .byKey (← (Datum.list table).table)
  | bound => .ok (.all bound)

/-- The keys of new variables; as the keys of a table each comes once. -/
def readKeys (options : Keyed String Datum) (keys : Datum) : Except Fault Datum := do
  if ((options.get? "as_dict").getD .null).isBlank then return keys
  else return .list (← keys.distinctKeys)

/-- A lower bound; nothing is no bound. -/
def floorValue : Datum → Except Fault Float
  | .null => .ok (-1.0 / 0.0)
  | d => d.quantity

/-- Continuous variables, one for each key, between a floor and a ceiling. -/
def addContinuousBetween (s : Session) (name : String) (keys floor : Datum) (ceiling : Ceiling) :
    Except Fault Created × Session :=
  s.addVariables (fun number d => do
    let upper ← ceiling.at d
    let lower ← floorValue floor
    let name := variableName number name d
    Solver.checkKnown lower
    Solver.checkKnown upper
    Solver.checkName name
    return { key := number, name, lower := lowerBound lower, upper := upperBound upper,
             binary := false }) keys

/-- Continuous variables with their bounds among the options: at least zero unless they say more. -/
def addContinuous (s : Session) (name : String) (keys options : Datum) :
    Except Fault Created × Session :=
  let read : Except Fault (Datum × Ceiling × Datum) := do
    let options ← options.fields
    let keys ← readKeys options keys
    let ceiling ← Ceiling.read ((options.get? "ub").getD .null)
    return (keys, ceiling, (options.get? "lb").getD (.real 0.0))
  match read with
  | .error fault => (.error fault, s)
  | .ok (keys, ceiling, floor) => s.addContinuousBetween name keys floor ceiling

/-- Binary variables, one for each key. -/
def addBinary (s : Session) (name : String) (keys options : Datum) :
    Except Fault Created × Session :=
  match (do readKeys (← options.fields) keys) with
  | .error fault => (.error fault, s)
  | .ok keys =>
    s.addVariables (fun number d => do
      let name := variableName number name d
      Solver.checkName name
      return { key := number, name, lower := some 0.0, upper := some 1.0, binary := true }) keys

/-- A number in an expression; whatever cannot become one is of the wrong kind. -/
def operand (read : Datum → Except Fault Float) (d : Datum) : Except Fault Float :=
  (read d).mapError fun _ => .wrongType

/-- Terms over the variables that were made known, with coefficients that are still to be read. -/
def termsBy (s : Session) (coefficient : Datum → Except Fault Float) (given : Datum) :
    Except Fault (Terms Nat Float) := do
  (← given.items).mapM fun term => do
    let (place, c) ← term.pair
    let v ← Position.pick .outsideList s.handles (← place.position)
    return (v, ← coefficient c)

/-- Terms of an expression; texts are read as coefficients. -/
def terms (s : Session) (given : Datum) : Except Fault (Terms Nat Float) :=
  s.termsBy (operand Datum.toReal) given

/-- The name of the next row; a row may go without. -/
def rowName (s : Session) : Datum → Except Fault String
  | .text "" => .ok ""
  | .text name => .ok (Solver.nameOr "R" s.program.rows.length name)
  | d => Solver.readName d

/-- A range whose lower or upper end is no bound has only the other one, first of all the upper. -/
def rangeSide (low high : Float) : RightSide :=
  if low ≤ -infiniteBound then .number .atMost high
  else if infiniteBound ≤ high then .number .atLeast low
  else .range low high

def rangeEnd (d : Datum) : Except Fault Float := d.quantity.mapError fun _ => .solverRefusal

/-- Reads the right side of a row; only an equation can do without a number. -/
def readRightSide (sense : Sense) (d : Datum) : Except Fault RightSide := do
  match sense, d with
  | .exactly, .null => return .nothing
  | .exactly, .list [low, high] => return rangeSide (← rangeEnd low) (← rangeEnd high)
  | .exactly, .list _ => .error .solverRefusal
  | _, d => return .number sense (← operand Datum.quantity d)

/-- A row that the solver takes. It keeps only coefficients that count. -/
def takenRow (s : Session) (r : Row Nat Float) : Except Fault (Row Nat Float) := do
  let r := { r with rhs := Solver.held (r.rhs + 0.0) }
  Solver.checkRow r
  return { r with terms := r.terms.merged s.update.program.keys }

/-- The variable that makes an equation of a range: what is missing up to its upper end. -/
def rangeColumn (s : Session) (rowName : String) (low high : Float) : Column Nat Float :=
  let rowName := if rowName.isEmpty then Solver.nameOr "R" s.program.rows.length "" else rowName
  { key := s.nextNumber, name := "Rg" ++ rowName, lower := some 0.0,
    upper := upperBound (high - low), binary := false }

/--
The row of a name, and the variable that comes with it if its right side is a range. A row whose
sense is unknown is an equation; nothing satisfies one without a right side.
-/
def row (s : Session) (given : GivenRow) (name : Datum) :
    Except Fault (Row Nat Float × Option (Column Nat Float)) := do
  let terms ← s.terms given.terms
  let rhs ← readRightSide (given.sense?.getD .exactly) given.rhs
  let name ← s.rowName name
  match rhs with
  | .number sense x => return (← s.takenRow { name, terms, sense, rhs := x }, none)
  | .nothing => return (← s.takenRow { name, terms := [], sense := .atMost, rhs := -1.0 }, none)
  | .range low high =>
    Solver.checkKnown low
    let r ← s.takenRow { name, terms, sense := .exactly, rhs := high }
    let c := s.rangeColumn name low high
    return ({ r with terms := r.terms ++ [(c.key, 1.0)] }, some c)

/-- Adds a row, unless the solver refuses it. -/
def addRow (s : Session) (given : GivenRow) (name : Datum) :
    Except Fault (Row Nat Float × Session) := do
  let (r, column?) ← s.row given name
  return (r, s.change fun p =>
    { p with columns := p.columns ++ column?.toList, rows := p.rows ++ [r] })

/-- Registers a row that is enforced only while the program is solved. -/
def addLazyRow (s : Session) (given : GivenRow) : Session :=
  { s with lazyRows := s.lazyRows ++ [given] }

/-- The constant of an objective; one that is blank is left out. -/
def readConstant (d : Datum) : Except Fault Float :=
  if d.isBlank then .ok 0.0 else operand Datum.quantity d

/--
Sets the objective, unless the solver refuses it. A constant that is too large is not taken over:
the one before it stays.
-/
def setObjective (s : Session) (maximize : Bool) (given constant : Datum) :
    Except Fault Session := do
  let objective ← s.terms given
  let constant ← readConstant constant
  Solver.checkObjective objective
  Solver.checkFinite constant
  return s.change fun p =>
    { p with
      objective, maximize
      constant := if constant < Solver.infinity then constant + 0.0 else p.constant }

/-- Whether an assignment misses a lazy row; a row whose sense is unknown is never missed. -/
def misses (s : Session) (given : GivenRow) (x : Nat → Float) : Except Fault Bool := do
  let terms ← s.termsBy Datum.quantity given.terms
  match given.sense? with
  | some sense =>
    return sense.missed Program.feasibilityTolerance (terms.value x) (← given.rhs.quantity)
  | none => return false

/--
Whether lazy rows let an assignment pass. They are asked in order: one that is missed rules the
assignment out if the solver takes it, and after a fault no other row is asked.
-/
def passes (s : Session) (x : Nat → Float) : List GivenRow → Bool
  | [] => true
  | given :: rest =>
    match s.misses given x with
    | .ok false => s.passes x rest
    | .ok true => !(s.row given (.text "")).isOk
    | .error _ => true

/-- The lazy rows that are asked: without binary variables there is no search that asks them. -/
def askedRows (s : Session) : List GivenRow :=
  if s.program.binaryCount == 0 then [] else s.lazyRows

/--
The answer of the solver. A solution that has been found for the same program stays; without time
nothing else is found, and nothing is known to be best.
-/
def compute (s : Session) : Answer :=
  let kept := s.answer?.bind Answer.found
  if s.parameters.timeLimit ≤ 0.0 then ⟨kept, false⟩
  else
    let found :=
      match kept with
      | some found => some found
      | none => s.program.optimumAmong? fun x => s.passes x s.askedRows
    ⟨found, found.isSome⟩

/-- Solves the program, quietly, unless it is too large. -/
def solve (s : Session) : Except Fault Answer × Session :=
  let s := s.update
  let s := { s with parameters := { s.parameters with outputFlag := 0 } }
  match Solver.checkSize s.program with
  | .error fault => (.error fault, s)
  | .ok _ =>
    let answer := s.compute
    (.ok answer, { s with answer? := some answer })

/-- Whether the last answer has a solution. -/
def hasSolution (s : Session) : Bool := (s.answer?.map Answer.hasSolution).getD false

/-- The objective of the last answer. -/
def objective? (s : Session) : Option Float := s.answer?.bind Answer.objective?

/--
How far the last answer may be from the best, which only programs with binary variables tell: not at
all if it has a solution, else any way.
-/
def gap? (s : Session) : Option Float :=
  if s.program.binaryCount == 0 then none
  else s.answer?.map fun a => if a.hasSolution then 0.0 else 1.0 / 0.0

def values? (s : Session) (a : Answer) : Option (List (Nat × Float)) :=
  a.found.map fun (assignment, _) =>
    s.handles.zipIdx.map fun (v, i) => (i, Program.valueIn assignment v)

end Session

end InfluenceProgram
