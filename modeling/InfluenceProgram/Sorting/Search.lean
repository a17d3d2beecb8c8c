import InfluenceProgram.Fault

/-!
Looking for a place in a row of items where a test that can fail stops to hold. All that is asked of
the test is an answer: where it does not hold exactly at the front, the order of the questions
decides which place is found.
-/

namespace InfluenceProgram.Sorting

abbrev Test := Nat → Except Fault Bool

/-- The place between `low` and `high` up to which a test holds, found by halving. -/
def bisect (test : Test) (low high : Nat) : Except Fault Nat := do
  if low < high then
    let middle := low + (high - low) / 2
    if ← test middle then bisect test (middle + 1) high else bisect test low middle
  else return low
termination_by high - low
decreasing_by all_goals omega

/--
Goes on in growing strides as long as a test holds: the last place where it held, and the first
where it did not or the limit.
-/
def stride (test : Test) (limit last next : Nat) : Except Fault (Nat × Nat) := do
  if next < limit then
    if ← test next then stride test limit next (2 * next + 1) else return (last, next)
  else return (last, limit)
termination_by limit - next
decreasing_by omega

/-- The place up to which a test holds, looked for from a place in the row. -/
def boundary (test : Test) (length hint : Nat) : Except Fault Nat := do
  if ← test hint then
    let (last, next) ← stride (fun k => test (hint + k)) (length - hint) 0 1
    bisect test (hint + last + 1) (hint + next)
  else
    let (last, next) ← stride (fun k => return !(← test (hint - k))) (hint + 1) 0 1
    bisect test (hint + 1 - next) (hint - last)

variable {α : Type}

/-- A test of items as a test of their places; it does not hold behind the last item. -/
def testAt (test : α → Except Fault Bool) (items : List α) : Test := fun k =>
  match items[k]? with
  | some x => test x
  | none => .ok false

end InfluenceProgram.Sorting
