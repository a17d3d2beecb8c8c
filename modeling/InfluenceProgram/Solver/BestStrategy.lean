import InfluenceProgram.Analysis.Strategy

/-!
The best strategy of a problem: the one with the greatest expected utility over its compatible
paths. All local strategies but one are tried; the last decision node takes in each context the
state that is best given the others, since its contexts do not interfere with each other. When only
some of the paths count they do, and all local strategies are tried.
-/

namespace InfluenceProgram.BestStrategy

variable {α : Type} [Scalar α]

/-- A path seen by decision nodes: what it adds, and the context and the state of each of them. -/
structure Play (α : Type) where
  weight : α
  moves : List (Path × Int)

/-- A decision node with its contexts and its number of states. -/
structure Decider where
  node : Int
  contexts : List Path
  count : Int

def Decider.freedom (d : Decider) : Nat := Nat.pow d.count.toNat d.contexts.length

/-- The better of two candidates, the first if they are on a par. -/
def best {β : Type} : List (α × β) → Option (α × β)
  | [] => none
  | c :: cs => some (cs.foldl (fun m c => if m.1 < c.1 then c else m) c)

def total (plays : List (Play α)) : α := Scalar.sum (plays.map (·.weight))

/-- Plays of a context in which the first decider takes a state. -/
def taking (context : Path) (x : Int) (plays : List (Play α)) : List (Play α) :=
  plays.filter fun play => play.moves.head? == some (context, x)

/-- Plays that stay possible when the first decider takes a state in a context. -/
def keeping (context : Path) (x : Int) (plays : List (Play α)) : List (Play α) :=
  plays.filter fun play =>
    match play.moves.head? with
    | some (c, y) => c != context || y == x
    | none => true

/-- In each context on its own the state with the greatest weight. -/
def respond (d : Decider) (plays : List (Play α)) : α × LocalStrategy :=
  let answers := d.contexts.map fun context =>
    let options := (states d.count).map fun x => (total (taking context x plays), (context, x))
    (best options).getD (0, (context, 1))
  (Scalar.sum (answers.map (·.1)), answers.map (·.2))

/-- The states to try in a context: where no play comes all of them are alike, so one will do. -/
def candidates (count : Int) (context : Path) (plays : List (Play α)) : List Int :=
  if plays.any fun play => play.moves.head?.any (·.1 == context) then states count
  else (states count).take 1

/-- Tries the states in every context, and finishes each combination. -/
def tryAll (count : Int) (finish : List (Play α) → α × List LocalStrategy) :
    List Path → LocalStrategy → List (Play α) → α × List LocalStrategy
  | [], chosen, plays =>
    let (value, rest) := finish plays
    (value, chosen.reverse :: rest)
  | context :: contexts, chosen, plays =>
    let options := (candidates count context plays).map fun x =>
      tryAll count finish contexts ((context, x) :: chosen) (keeping context x plays)
    (best options).getD (0, [])

/-- The best local strategies of some deciders, with what the plays add up to under them. -/
def search : List Decider → List (Play α) → α × List LocalStrategy
  | [], plays => (total plays, [])
  | [d], plays =>
    let (value, response) := respond d plays
    (value, [response])
  | d :: rest, plays =>
    tryAll d.count
      (fun plays => search rest (plays.map fun p => { p with moves := p.moves.drop 1 }))
      d.contexts [] plays

def decider (d : Diagram) (j : Int) : Except Fault Decider := do
  return { node := j, contexts := paths (← d.contextCounts j), count := ← d.countOf j }

/-- A path as the deciders see it; it adds its probability times its shifted utility. -/
def play (p : Problem α) (deciders : List Decider) (s : Path) : Except Fault (Play α) := do
  let weight := (← p.probability s) * (← p.utility p.leastUtility s)
  let moves ← deciders.mapM fun d => do
    return (← Path.restrict s (p.diagram.informationSet d.node),
            ← Position.pick .outsideTuple s (d.node - 1))
  return { weight, moves }

/-- The decision nodes of a diagram, those with most local strategies last. -/
def decidersOf (d : Diagram) : Except Fault (List Decider) := do
  return (← d.decision.mapM (decider d)).mergeSort fun a b => decide (a.freedom ≤ b.freedom)

def strategyOf (deciders : List Decider) (locals : List LocalStrategy) : Strategy :=
  ((deciders.map (·.node)).zip locals).mergeSort fun a b => decide (a.1 ≤ b.1)

def find (p : Problem α) : Except Fault Strategy := do
  let deciders ← decidersOf p.diagram
  let plays ← p.paths.mapM (play p deciders)
  return strategyOf deciders (search deciders plays).2

/-- All local strategies of the first decider, each with the plays that stay possible. -/
def localPlans (count : Int) : List Path → List (Play α) → List (LocalStrategy × List (Play α))
  | [], plays => [([], plays)]
  | context :: contexts, plays =>
    (candidates count context plays).flatMap fun x =>
      (localPlans count contexts (keeping context x plays)).map fun (l, plays) =>
        ((context, x) :: l, plays)

/-- All local strategies of some deciders, each with the plays that stay possible. -/
def plans : List Decider → List (Play α) → List (List LocalStrategy × List (Play α))
  | [], plays => [([], plays)]
  | d :: rest, plays =>
    (localPlans d.count d.contexts plays).flatMap fun (l, plays) =>
      (plans rest (plays.map fun p => { p with moves := p.moves.drop 1 })).map fun (ls, plays) =>
        (l :: ls, plays)

/-- The greatest items by a weight, so many of them and in their order. -/
def greatest {β : Type} (number : Nat) (weight : β → α) (items : List β) : List β :=
  let ranked := items.zipIdx.mergeSort fun a b => !decide (weight a.1 < weight b.1)
  let chosen := (ranked.take number).map (·.2)
  (items.zipIdx.filter fun (_, i) => chosen.contains i).map (·.1)

/--
The best strategy when just so many of its possible paths count, those that add most. If all of
them have to count there must not be more; without enough possible paths there is no strategy.
-/
def findCounting (p : Problem α) (number : Nat) (all : Bool) : Except Fault (Option Strategy) := do
  let outcomes := Path.number (← p.diagram.chance.mapM p.diagram.countOf)
  if outcomes < number then return none
  else if number == outcomes && 0 < (← p.leastProbability) then return some (← find p)
  else
    let deciders ← decidersOf p.diagram
    let possible ← p.paths.filterM fun s => return decide (0 < (← p.probability s))
    let plays ← possible.mapM (play p deciders)
    let counted := (plans deciders plays).filterMap fun (locals, plays) =>
      if plays.length < number || (all && number < plays.length) then none
      else some (total (greatest number (·.weight) plays), locals)
    return (best counted).map fun (_, locals) => strategyOf deciders locals

end InfluenceProgram.BestStrategy
