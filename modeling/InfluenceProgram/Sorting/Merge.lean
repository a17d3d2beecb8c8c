import InfluenceProgram.Sorting.Search

/-!
Merging two neighbouring runs where a comparison can fail. Of equal items those of the left run go
first. The shorter run is merged into the longer one from the end where it stands. As soon as one
run has won often in a row, the merge goes on in strides: it looks for all items that one run can
give before the other one has its turn.
-/

namespace InfluenceProgram.Sorting

/-- The end at which a merge begins. -/
inductive Direction where
  | forward
  | backward
deriving DecidableEq, Repr

/-- How a merge goes on. -/
inductive Pace where
  /-- Item by item; how often in a row each run has won. -/
  | steps (left right : Nat)
  /-- The left run is next to give all that it can. -/
  | leftStride
  /-- The right run is next, the left one having given so many items. -/
  | rightStride (given : Nat)
deriving DecidableEq, Repr

/-- As many wins in a row as strides have to save. -/
def worthwhile : Nat := 7

/-- A merge on its way. The items of the runs stand in the direction of the merge. -/
structure Merge (α : Type) where
  left : List α
  right : List α
  /-- The items that have found their places, the last one first. -/
  merged : List α := []
  pace : Pace := .steps 0 0
  /-- How often in a row a run has to win before the merge goes on in strides. -/
  patience : Nat

namespace Merge

variable {α : Type} (before : α → α → Except Fault Bool)

/--
What is left of the runs once nothing has to be compared any more. The run that is merged into the
other one is left with one item at last, which goes behind the rest of the other.
-/
def settled? (d : Direction) (m : Merge α) : Option (List α) :=
  match d with
  | .forward =>
    if m.right.isEmpty then some m.left
    else if m.left.length ≤ 1 then some (m.right ++ m.left)
    else none
  | .backward =>
    if m.left.isEmpty then some m.right
    else if m.right.length ≤ 1 then some (m.left ++ m.right)
    else none

/-- The left run gives so many items. -/
def giveLeft (m : Merge α) (count : Nat) : Merge α :=
  { m with left := m.left.drop count, merged := (m.left.take count).reverse ++ m.merged }

/-- The right run gives so many items. -/
def giveRight (m : Merge α) (count : Nat) : Merge α :=
  { m with right := m.right.drop count, merged := (m.right.take count).reverse ++ m.merged }

/--
How many items at the near end of a run come before a place that a test marks. The test holds in
front of the place, so from the back those come where it does not hold.
-/
def count (d : Direction) (test : α → Except Fault Bool) (items : List α) : Except Fault Nat :=
  match d with
  | .forward => boundary (testAt test items) items.length 0
  | .backward => do
    let place ← boundary (testAt test items.reverse) items.length (items.length - 1)
    return items.length - place

/-- One item goes to its place. -/
def step (d : Direction) (m : Merge α) (wonLeft wonRight : Nat) : Except Fault (Merge α) := do
  match m.left, m.right with
  | l :: _, r :: _ =>
    let behind ← before r l
    if behind == (d == .backward) then
      let pace := if m.patience ≤ wonLeft + 1 then .leftStride else .steps (wonLeft + 1) 0
      return { m.giveLeft 1 with pace }
    else
      let pace := if m.patience ≤ wonRight + 1 then .leftStride else .steps 0 (wonRight + 1)
      return { m.giveRight 1 with pace }
  | _, _ => return m

/-- The left run gives all that it can, then the right one an item. -/
def strideLeft (d : Direction) (m : Merge α) : Except Fault (Merge α) := do
  match m.right with
  | r :: _ =>
    let given ← count d (fun x => return !(← before r x)) m.left
    let m := m.giveLeft given
    if (m.settled? d).isSome then return m
    else return { m.giveRight 1 with pace := .rightStride given }
  | [] => return m

/--
The right run gives all that it can, then the left one an item. Strides that save enough make the
merge impatient, others make it patient again.
-/
def strideRight (d : Direction) (m : Merge α) (given : Nat) : Except Fault (Merge α) := do
  match m.left with
  | l :: _ =>
    let back ← count d (fun y => before y l) m.right
    let m := m.giveRight back
    if (m.settled? d).isSome then return m
    else
      let m := m.giveLeft 1
      if (m.settled? d).isSome then return m
      else if worthwhile ≤ given || worthwhile ≤ back then
        return { m with pace := .leftStride, patience := max 1 (m.patience - 1) }
      else return { m with pace := .steps 0 0, patience := m.patience + 1 }
  | [] => return m

def next (d : Direction) (m : Merge α) : Except Fault (Merge α) :=
  match m.pace with
  | .steps left right => m.step before d left right
  | .leftStride => m.strideLeft before d
  | .rightStride given => m.strideRight before d given

/-- Goes on until nothing has to be compared any more; every turn gives at least one item. -/
def finish (d : Direction) : (fuel : Nat) → Merge α → Except Fault (List α × Nat)
  | 0, m => .ok (m.merged.reverse ++ m.left ++ m.right, m.patience)
  | fuel + 1, m =>
    match m.settled? d with
    | some rest => .ok (m.merged.reverse ++ rest, m.patience)
    | none => do finish d fuel (← m.next before d)

/-- Merges two runs that overlap, with the patience it takes and the patience that it leaves. -/
def overlapping (left right : List α) (patience : Nat) : Except Fault (List α × Nat) := do
  let turns := left.length + right.length
  if left.length ≤ right.length then
    finish before .forward turns (giveRight { left, right, patience } 1)
  else
    let m : Merge α := { left := left.reverse, right := right.reverse, patience }
    let (items, patience) ← finish before .backward turns (m.giveLeft 1)
    return (items.reverse, patience)

end Merge

variable {α : Type} (before : α → α → Except Fault Bool)

/--
Two neighbouring runs as one. What stands in front of the first item of the right run, or behind the
last one of the left run, is in its place already.
-/
def merge (left right : List α) (patience : Nat) : Except Fault (List α × Nat) := do
  match right.head? with
  | none => return (left, patience)
  | some first =>
    let kept ← boundary (testAt (fun x => return !(← before first x)) left) left.length 0
    let rest := left.drop kept
    match rest.getLast? with
    | none => return (left ++ right, patience)
    | some last =>
      let taken ← boundary (testAt (fun y => before y last) right) right.length
        (right.length - 1)
      if taken == 0 then return (left ++ right, patience)
      else
        let (items, patience) ← Merge.overlapping before rest (right.take taken) patience
        return (left.take kept ++ items ++ right.drop taken, patience)

end InfluenceProgram.Sorting
