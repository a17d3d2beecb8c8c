import InfluenceProgram.Problem

/-!
Decision strategies: a state for every context of every decision node. A path is compatible with a
strategy if each decision on it is the one the strategy takes in the context on the path.
-/

namespace InfluenceProgram

/-- What one decision node does: the state it takes in each context. -/
abbrev LocalStrategy := Keyed Path Int

/--
Reads choices off the values of their keys: a choice that is made maps its context to its state,
and the last one of a context counts.
-/
def decodeChoices {κ ν γ σ : Type} [BEq γ] (made : ν → Except Fault Bool)
    (split : κ → Except Fault (γ × σ)) (values : List (κ × ν)) : Except Fault (Keyed γ σ) :=
  values.foldlM (fun l (key, value) => do
    if ← made value then
      let (context, x) ← split key
      return l.set context x
    else return l) []

abbrev Strategy := Keyed Int LocalStrategy

namespace LocalStrategy

/-- The context and the state in a key of choices: its last state is the one of the node. -/
def split (key : Path) : Except Fault (Path × Int) :=
  match key.getLast? with
  | some x => .ok (key.dropLast, x)
  | none => .error .outsideTuple

/-- Reads the choices of one node off the values of its keys: those above one half are made. -/
def decode {α : Type} [Scalar α] (values : List (Path × α)) : Except Fault LocalStrategy :=
  decodeChoices (fun value => .ok (decide (Scalar.decimal 5 1 < value))) split values

end LocalStrategy

namespace Strategy

def local? (σ : Strategy) (j : Int) : Except Fault LocalStrategy :=
  match σ.get? j with
  | some l => .ok l
  | none => .error (.missingKey (.int j))

def decode {α : Type} [Scalar α] (d : Diagram) (values : Keyed Int (Keyed Path α)) :
    Except Fault Strategy :=
  d.decision.mapM fun j =>
    match values.get? j with
    | some table => return (j, ← LocalStrategy.decode table)
    | none => .error (.missingKey (.int j))

/-- Whether a path has the state that a node takes in the context on the path. -/
def agrees (d : Diagram) (l : LocalStrategy) (j : Int) (s : Path) : Except Fault Bool := do
  let context ← Path.restrict s (d.informationSet j)
  let own ← Position.pick .outsideTuple s (j - 1)
  return l.get? context == some own

/-- The paths on which every decision is the one that the strategy takes. -/
def compatiblePaths (d : Diagram) (σ : Strategy) : Except Fault (List Path) := do
  let locals ← d.decision.mapM fun j => return (j, ← σ.local? j)
  (paths d.counts).filterM fun s => locals.allM fun (j, l) => agrees d l j s

end Strategy

end InfluenceProgram
