import InfluenceProgram.Settings
import InfluenceProgram.Solver.Acceptance

/-!
The parameters of a solver. A value outside its range is refused and leaves the parameter alone.
-/

namespace InfluenceProgram

structure SolverParameters where
  /-- Seconds; there is no limit at first. -/
  timeLimit : Float := 1.0 / 0.0
  mipGap : Float := Scalar.decimal 1 4
  threads : Int := 0
  outputFlag : Int := 1

namespace SolverParameters

/-- A real parameter that may not be negative; an unknown value is no limit. -/
def realValue (d : Datum) : Except Fault Float := do
  let x ← d.quantity
  if x < 0.0 then .error .solverRefusal
  else if x < Solver.infinity then return x
  else return 1.0 / 0.0

/-- A whole parameter between two bounds; reals lose their fraction, and words are 32 bits long. -/
def wholeValue (low high : Int) : Datum → Except Fault Int
  | .text _ => .error .wrongType
  | d => do
    let n ← d.toInt
    if n < -(Nat.pow 2 63) ∨ (Nat.pow 2 63 : Int) ≤ n then .error .wordTooLarge
    else if n < -(Nat.pow 2 31) ∨ (Nat.pow 2 31 : Int) ≤ n then .error .halfWordTooLarge
    else if n < low ∨ high < n then .error .solverRefusal
    else return n

/-- Whether a datum asks for what a parameter is at first; the word is read in any case. -/
def asksForDefault : Datum → Bool
  | .text s => s.map Char.toLower == "default"
  | _ => false

def setTimeLimit (p : SolverParameters) (seconds : Datum) : Except Fault SolverParameters :=
  if asksForDefault seconds then .ok { p with timeLimit := ({} : SolverParameters).timeLimit }
  else do return { p with timeLimit := ← realValue seconds }

def setMipGap (p : SolverParameters) (gap : Datum) : Except Fault SolverParameters :=
  if asksForDefault gap then .ok { p with mipGap := ({} : SolverParameters).mipGap }
  else do return { p with mipGap := ← realValue gap }

/-- The greatest number of threads that can be asked for. -/
def maxThreads : Int := 1024

/-- One less than no threads leaves the choice to the solver, too. -/
def setThreads (p : SolverParameters) (threads : Datum) : Except Fault SolverParameters :=
  if asksForDefault threads then .ok { p with threads := ({} : SolverParameters).threads }
  else do return { p with threads := ← wholeValue (-1) maxThreads threads }

def setOutputFlag (p : SolverParameters) (flag : Datum) : Except Fault SolverParameters := do
  return { p with outputFlag := ← wholeValue 0 1 flag }

/-- Runs setters in order up to the first refusal; what was set before it stays. -/
def setAll (p : SolverParameters)
    (setters : List (SolverParameters → Except Fault SolverParameters)) :
    Option Fault × SolverParameters :=
  match setters with
  | [] => (none, p)
  | set :: rest =>
    match set p with
    | .ok p => setAll p rest
    | .error fault => (some fault, p)

/-- Takes over settings: time limit, gap, threads, output flag, in this order. -/
def apply (p : SolverParameters) (s : SolverSettings) : Option Fault × SolverParameters :=
  p.setAll [
    fun p => p.setTimeLimit s.timeLimit,
    fun p => p.setMipGap (.real s.mipGap),
    fun p => p.setThreads (.int s.threads),
    fun p => p.setOutputFlag (.int s.outputFlag)]

end SolverParameters

end InfluenceProgram
