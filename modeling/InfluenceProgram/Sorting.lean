import InfluenceProgram.Sorting.Merge
import InfluenceProgram.Sorting.Run

/-!
Sorting where a comparison can fail. A list is cut into runs, and neighbouring runs are merged: the
boundary between two runs has a power, and boundaries of greater power vanish first. Equal items
keep their order; where some items cannot be told apart from any other, the order of the
comparisons decides.
-/

namespace InfluenceProgram.Sorting

/-- The length up to which short runs are filled, between 32 and 64 if there are so many items. -/
def leastRun (count : Nat) (carry : Nat := 0) : Nat :=
  if count < 64 then count + carry else leastRun (count / 2) (max carry (count % 2))

/--
The first binary place in which two fractions with the same denominator differ; the numerators are
less than twice the denominator, and the place of the units is the first.
-/
def firstDifference (denominator : Nat) : (fuel : Nat) → Nat → Nat → Nat
  | 0, _, _ => 0
  | fuel + 1, a, b =>
    if denominator ≤ a then
      firstDifference denominator fuel (2 * (a - denominator)) (2 * (b - denominator)) + 1
    else if denominator ≤ b then 1
    else firstDifference denominator fuel (2 * a) (2 * b) + 1

/--
The power of the boundary between two runs, the left one of which starts at `start`: the place in
which the midpoints of the runs differ, as fractions of the whole length.
-/
def power (total start left right : Nat) : Nat :=
  let a := 2 * start + left
  firstDifference total (total + 1) a (a + left + right)

/-- A run with the power of the boundary behind it. -/
structure Pending (α : Type) where
  run : List α
  power : Nat

variable {α : Type} (before : α → α → Except Fault Bool)

/-- Merges the last run with those before it as long as the boundaries have a greater power. -/
def collapse (power : Nat) : List (Pending α) → List α → Nat →
    Except Fault (List (Pending α) × List α × Nat)
  | [], last, patience => .ok ([], last, patience)
  | p :: rest, last, patience => do
    if power < p.power then
      let (last, patience) ← merge before p.run last patience
      collapse power rest last patience
    else return (p :: rest, last, patience)

/-- Merges what is left, the last two runs first unless the one before them is shorter. -/
def mergeAll : (fuel : Nat) → List (List α) → List α → Nat → Except Fault (List α)
  | 0, _, last, _ => .ok last
  | _, [], last, _ => .ok last
  | fuel + 1, [run], last, patience => do
    let (last, patience) ← merge before run last patience
    mergeAll fuel [] last patience
  | fuel + 1, run :: front :: rest, last, patience => do
    if front.length < last.length then
      let (run, patience) ← merge before front run patience
      mergeAll fuel (run :: rest) last patience
    else
      let (last, patience) ← merge before run last patience
      mergeAll fuel (front :: rest) last patience

/-- Merges runs as they come; `start` is the place of the last run so far. -/
def mergeRuns (total : Nat) : List (List α) → (start : Nat) → List (Pending α) → List α → Nat →
    Except Fault (List α)
  | [], _, pending, last, patience =>
    mergeAll before pending.length (pending.map (·.run)) last patience
  | run :: rest, start, pending, last, patience => do
    let power := power total start last.length run.length
    let length := last.length
    let (pending, last, patience) ← collapse before power pending last patience
    mergeRuns total rest (start + length) (⟨last, power⟩ :: pending) run patience

def sort (items : List α) : Except Fault (List α) := do
  match ← runs before (leastRun items.length) items.length items with
  | [] => return []
  | run :: rest => mergeRuns before items.length rest 0 [] run worthwhile

end InfluenceProgram.Sorting
