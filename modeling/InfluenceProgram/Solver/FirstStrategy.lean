import InfluenceProgram.Analysis.Strategy

/-!
A strategy that is found without a search. Paths are gone through from the last one on; a path that
adds something makes the choices on it, unless one of them has been made differently before. What
is left open in the end is decided for the last state.
-/

namespace InfluenceProgram.FirstStrategy

variable {α : Type} [Scalar α]

/-- Where a choice is made: a decision node and a context of it. -/
abbrev Place := Int × Path

def choicesOn (d : Diagram) (s : Path) : Except Fault (Keyed Place Int) :=
  d.decision.mapM fun j => do
    return ((j, ← Path.restrict s (d.informationSet j)), ← Position.pick .outsideTuple s (j - 1))

/-- Adds choices to those that have been made, provided that they do not contradict them. -/
def settle (made choices : Keyed Place Int) : Keyed Place Int :=
  if choices.all fun (place, x) => (made.get? place).all (· == x) then
    choices.foldl (fun made (place, x) => made.set place x) made
  else made

def settled (p : Problem α) : Except Fault (Keyed Place Int) :=
  p.paths.reverse.foldlM (fun made s => do
    let gain := (← p.probability s) * (← p.utility p.leastUtility s)
    if 0 < gain then return settle made (← choicesOn p.diagram s) else return made) []

/-- The strategy of these choices, with last states where none has been made. -/
def find (p : Problem α) : Except Fault Strategy := do
  let made ← settled p
  p.diagram.decision.mapM fun j => do
    let count ← p.diagram.countOf j
    return (j, (paths (← p.diagram.contextCounts j)).map fun context =>
      (context, (made.get? (j, context)).getD count))

end InfluenceProgram.FirstStrategy
