import InfluenceProgram.Datum.Conversion
import InfluenceProgram.Sorting

/-!
How data compare. Numbers compare by their exact values, whether they were given as integers, as
reals or as truth values; texts compare by their characters and lists item by item. Data of
different kinds are never the same and have no order.
-/

namespace InfluenceProgram

/-- The exact value of a number. -/
inductive Magnitude where
  /-- No number at all, neither before nor behind any other. -/
  | unknown
  | below
  | exactly (q : Rat)
  | above
deriving DecidableEq, Repr

namespace Magnitude

def ofReal (x : Float) : Magnitude :=
  match Binary64.parts x with
  | .nan => unknown
  | .infinite negative => if negative then below else above
  | .finite negative mantissa exponent =>
    let (num, den) := Binary64.scale 2 exponent mantissa 1
    exactly (mkRat (if negative then -(num : Int) else num) den)

def before : Magnitude → Magnitude → Bool
  | exactly p, exactly q => p < q
  | below, exactly _ | below, above | exactly _, above => true
  | _, _ => false

def same : Magnitude → Magnitude → Bool
  | unknown, _ => false
  | a, b => a == b

end Magnitude

namespace Datum

def magnitude? : Datum → Option Magnitude
  | bool b => some (.exactly (if b then 1 else 0))
  | int n => some (.exactly n)
  | real x => some (.ofReal x)
  | _ => none

def whole? (d : Datum) : Option Int :=
  match d.magnitude? with
  | some (.exactly q) => if q.den = 1 then some q.num else none
  | _ => none

def isReal : Datum → Bool
  | real _ => true
  | _ => false

mutual

/-- Whether two data have the same value. -/
def same : Datum → Datum → Bool
  | null, null => true
  | text s, text t => s == t
  | list xs, list ys => sameItems xs ys
  | a, b =>
    match a.magnitude?, b.magnitude? with
    | some x, some y => x.same y
    | _, _ => false

def sameItems : List Datum → List Datum → Bool
  | [], [] => true
  | x :: xs, y :: ys => same x y && sameItems xs ys
  | _, _ => false

end

mutual

/-- Whether the first of two data goes before the second. -/
def before : Datum → Datum → Except Fault Bool
  | text s, text t => .ok (decide (s < t))
  | list xs, list ys => itemsBefore xs ys
  | a, b =>
    match a.magnitude?, b.magnitude? with
    | some x, some y => .ok (x.before y)
    | _, _ => .error .wrongType

/-- The first difference decides; a list goes before its continuations. -/
def itemsBefore : List Datum → List Datum → Except Fault Bool
  | [], ys => .ok !ys.isEmpty
  | _ :: _, [] => .ok false
  | x :: xs, y :: ys => if same x y then itemsBefore xs ys else before x y

end

/-- Whether a number lies above a whole number. -/
def above (d : Datum) (n : Int) : Except Fault Bool := (int n).before d

def sorted (items : List Datum) : Except Fault (List Datum) := Sorting.sort before items

/-- The least of some data, the first of several. -/
def least? : List Datum → Except Fault (Option Datum)
  | [] => .ok none
  | d :: rest => do
    return some (← rest.foldlM (fun m x => do return if ← x.before m then x else m) d)

/-- The first of each value. -/
def distinct (items : List Datum) : List Datum :=
  items.foldl (fun kept d => if kept.any (same · d) then kept else kept ++ [d]) []

end Datum

end InfluenceProgram
