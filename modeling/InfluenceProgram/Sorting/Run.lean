import InfluenceProgram.Sorting.Search

/-!
Runs where a comparison can fail: the items that stand in order at the front of a list are kept as
they are, and if they are few, each further one goes to a place found by halving. Equal items keep
their order.
-/

namespace InfluenceProgram.Sorting

variable {α : Type} (before : α → α → Except Fault Bool)

/-- The items that go on a run from its last item on, and the others. -/
def goesOn (falling : Bool) (last : α) : List α → Except Fault (List α × List α)
  | [] => .ok ([], [])
  | x :: rest => do
    if (← before x last) == falling then
      let (run, others) ← goesOn falling x rest
      return (x :: run, others)
    else return ([], x :: rest)

/-- The longest run at the front, put in order if it falls, and the other items. -/
def firstRun : List α → Except Fault (List α × List α)
  | x :: y :: rest => do
    let falling ← before y x
    let (run, others) ← goesOn before falling y rest
    let whole := x :: y :: run
    return (if falling then whole.reverse else whole, others)
  | few => .ok (few, [])

/-- Puts an item at its place among items in order, behind all items that it is not before. -/
def place (items : List α) (x : α) : Except Fault (List α) := do
  let notBehind (y : α) : Except Fault Bool := return !(← before x y)
  return items.insertIdx (← bisect (testAt notBehind items) 0 items.length) x

/-- Runs of at least a certain length, the last one excepted; `fuel` is the number of items. -/
def runs (least : Nat) : (fuel : Nat) → List α → Except Fault (List (List α))
  | 0, _ => .ok []
  | _, [] => .ok []
  | fuel + 1, items => do
    let (run, others) ← firstRun before items
    let missing := least - run.length
    let run ← (others.take missing).foldlM (place before) run
    return run :: (← runs least fuel (others.drop missing))

end InfluenceProgram.Sorting
