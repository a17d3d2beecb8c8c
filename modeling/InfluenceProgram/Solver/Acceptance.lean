import InfluenceProgram.Fault
import InfluenceProgram.Program

/-!
What a solver takes. Names end at a character zero and have to be short, coefficients are bounded,
and numbers beyond a certain size are kept as infinities; only programs up to a certain size are
solved. In a row only what the terms of a variable add up to matters.
-/

namespace InfluenceProgram.Solver

/-- Numbers of this size and more are infinite. -/
def infinity : Float := Binary64.ofDecimal false 1 100

def held (x : Float) : Float :=
  if infinity ≤ x then 1.0 / 0.0 else if x ≤ -infinity then -1.0 / 0.0 else x

/-- A number that is kept as it is reads back as infinite only if it equals the least such one. -/
def readBack (x : Float) : Float :=
  if x == infinity then 1.0 / 0.0 else if x == -infinity then -1.0 / 0.0 else x

/-- A name as it is kept: it ends before the first character zero. -/
def keptName (name : String) : String := String.ofList (name.toList.takeWhile (·.toNat != 0))

/-- A variable or row whose name is cut to nothing gets one that tells its number. -/
def nameOr (kind : String) (number : Nat) (name : String) : String :=
  let kept := keptName name
  if kept.isEmpty then kind ++ toString number else kept

/-- Names have at most so many bytes. -/
def maxNameBytes : Nat := 255

def checkName (name : String) : Except Fault Unit :=
  if name.utf8ByteSize ≤ maxNameBytes then .ok () else .error .solverRefusal

/-- A name as it was given, as far as it is kept; only texts are names. -/
def readName : Datum → Except Fault String
  | .text name => .ok (keptName name)
  | _ => .error .nameKind

def checkKnown (x : Float) : Except Fault Unit :=
  if x.isNaN then .error .solverRefusal else .ok ()

def checkFinite (x : Float) : Except Fault Unit :=
  if x.isFinite then .ok () else .error .solverRefusal

def checkBounded (x : Float) : Except Fault Unit :=
  if x.isInf then .error .solverRefusal else .ok ()

variable {κ : Type} [DecidableEq κ]

/-- Refuses an objective with a term that is no finite number. -/
def checkObjective (terms : Terms κ Float) : Except Fault Unit :=
  terms.forM fun (_, c) => checkFinite c

def checkRow (r : Row κ Float) : Except Fault Unit := do
  checkName r.name
  r.terms.forM fun (v, _) => checkBounded (r.terms.coefficient v)
  checkKnown r.rhs

/-- A program that is to be solved has at most so many variables, and at most so many rows. -/
def maxSize : Nat := 2000

def checkSize (p : Program κ Float) : Except Fault Unit :=
  if p.columns.length ≤ maxSize && p.rows.length ≤ maxSize then .ok () else .error .solverRefusal

def checkProgram (p : Program κ Float) : Except Fault Unit := do
  p.columns.forM fun c => checkName c.name
  checkObjective p.objective
  checkFinite p.constant
  p.rows.forM checkRow

end InfluenceProgram.Solver
