import InfluenceProgram.Decimal.Shortest

/-!
Numbers to compute with. Everything between the tables of a problem and its answers is written
once over a scalar: doubles give the answers, in the order of operations written down here, and
rationals give the same formulas in exact arithmetic.
-/

namespace InfluenceProgram

class Scalar (α : Type) where
  [zero : Zero α]
  [one : One α]
  [add : Add α]
  [sub : Sub α]
  [mul : Mul α]
  [div : Div α]
  [lt : LT α]
  [le : LE α]
  [beq : BEq α]
  decLt : (a b : α) → Decidable (a < b)
  decLe : (a b : α) → Decidable (a ≤ b)
  ofInt : Int → α
  /-- `units / 10 ^ places`. -/
  decimal : (units places : Nat) → α
  isFinite : α → Bool
  /-- The scalar as it is shown inside a message. -/
  shown : α → String

namespace Scalar

variable {α : Type} [Scalar α]

-- Numbers with an arithmetic of their own keep that one: it is found first.
instance (priority := 100) : Zero α := Scalar.zero

instance (priority := 100) : One α := Scalar.one

instance (priority := 100) : Add α := Scalar.add

instance (priority := 100) : Sub α := Scalar.sub

instance (priority := 100) : Mul α := Scalar.mul

instance (priority := 100) : Div α := Scalar.div

instance (priority := 100) : LT α := Scalar.lt

instance (priority := 100) : LE α := Scalar.le

instance (priority := 100) : BEq α := Scalar.beq

instance (priority := 100) (a b : α) : Decidable (a < b) := Scalar.decLt a b

instance (priority := 100) (a b : α) : Decidable (a ≤ b) := Scalar.decLe a b

def distance (a b : α) : α := if a < b then b - a else a - b

/-- The sum from the left, starting at zero. -/
def sum (xs : List α) : α := xs.foldl (· + ·) 0

/-- The sum from the left, starting at the first scalar. -/
def leftSum : List α → α
  | [] => 0
  | x :: xs => xs.foldl (· + ·) x

/-- Eight running sums; each further full block of eight adds one scalar to each. -/
def lanes (sums rest : List α) : List α × List α :=
  if _ : 8 ≤ rest.length then lanes (List.zipWith (· + ·) sums (rest.take 8)) (rest.drop 8)
  else (sums, rest)
termination_by rest.length
decreasing_by simp; omega

def joinLanes : List α → α
  | [a, b, c, d, e, f, g, h] => ((a + b) + (c + d)) + ((e + f) + (g + h))
  | xs => leftSum xs

/--
The sum by halves: short lists from the left, up to 128 scalars by eight running sums, longer
lists as the sum of two parts, the first of them a multiple of eight long.
-/
def pairwiseSum (xs : List α) : α :=
  if xs.length < 8 then leftSum xs
  else if _ : xs.length ≤ 128 then
    let (sums, rest) := lanes (xs.take 8) (xs.drop 8)
    rest.foldl (· + ·) (joinLanes sums)
  else
    let half := xs.length / 2 / 8 * 8
    pairwiseSum (xs.take half) + pairwiseSum (xs.drop half)
termination_by xs.length
decreasing_by all_goals simp only [List.length_take, List.length_drop]; omega

/-- The running sums of a list. -/
def cumulative : List α → List α
  | [] => []
  | x :: xs => x :: go x xs
where
  go (total : α) : List α → List α
    | [] => []
    | x :: xs => (total + x) :: go (total + x) xs

/-- The least scalar of a list, the first of several. -/
def least? : List α → Option α
  | [] => none
  | x :: xs => some (xs.foldl (fun m y => if y < m then y else m) x)

/-- The least scalar of a list, the last of several. -/
def lastLeast? : List α → Option α
  | [] => none
  | x :: xs => some (xs.foldl (fun m y => if m < y then m else y) x)

/-- The scalar products of two lists, summed from the left. -/
def dot (xs ys : List α) : α := sum (List.zipWith (· * ·) xs ys)

end Scalar

instance : Scalar Float where
  zero := ⟨0.0⟩
  one := ⟨1.0⟩
  decLt _ _ := inferInstance
  decLe _ _ := inferInstance
  ofInt := Binary64.ofInt
  decimal units places := Binary64.ofDecimal false units (-(places : Int))
  isFinite := Float.isFinite
  shown := Decimal.shortest

instance : Scalar Rat where
  zero := ⟨Rat.ofInt 0⟩
  one := ⟨Rat.ofInt 1⟩
  decLt _ _ := inferInstance
  decLe _ _ := inferInstance
  ofInt := Rat.ofInt
  decimal units places := mkRat units (Nat.pow 10 places)
  isFinite _ := true
  shown q := toString q.num ++ "/" ++ toString q.den

end InfluenceProgram
