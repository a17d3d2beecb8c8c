import InfluenceProgram.Decimal.Digits

/-!
The shortest decimal that reads back as a given double. A decimal reads back exactly when it lies
in the interval of reals that round to the double, so the search runs over the grids with one,
two, … digits and takes the first grid with a point in that interval, of two points the nearer.
-/

namespace InfluenceProgram.Decimal

open Binary64

/-- The reals that round to a double, in quarters of its last binary place. -/
structure Interval where
  low : Nat
  middle : Nat
  high : Nat
  closed : Bool
deriving DecidableEq, Repr

/-- Below a power of two the neighbouring double is only half as far away. -/
def Interval.ofMantissa (mantissa : Nat) (exponent : Int) : Interval where
  low := 4 * mantissa - if mantissa == Nat.pow 2 52 && (-1074 : Int) < exponent then 1 else 2
  middle := 4 * mantissa
  high := 4 * mantissa + 2
  closed := mantissa % 2 == 0

/-- Whether `c` steps of `step` quarters over `unit` lie in the interval. -/
def Interval.holds (i : Interval) (unit step c : Nat) : Bool :=
  if i.closed then i.low * unit ≤ c * step && c * step ≤ i.high * unit
  else i.low * unit < c * step && c * step < i.high * unit

/-- The point of one grid that reads back and is nearest, a tie going to the even digit. -/
def Interval.onGrid? (i : Interval) (unit step : Nat) : Option Nat :=
  let c := i.middle * unit / step
  let below := i.holds unit step c
  let above := i.holds unit step (c + 1)
  if below && above then
    let left := i.middle * unit - c * step
    let right := (c + 1) * step - i.middle * unit
    some (if left < right || (left == right && c % 2 == 0) then c else c + 1)
  else if below then some c
  else if above then some (c + 1)
  else none

/-- The first grid with a hit, from the coarsest on; `k` is the power of ten of its step. -/
def Interval.search (i : Interval) (exponent : Int) : (fuel : Nat) → (k : Int) → Nat × Int
  | 0, k =>
    let (top, bottom) := scale 2 (exponent - 2) i.middle 1
    let (top, bottom) := scale 10 (-k) top bottom
    (roundDiv top bottom, k)
  | fuel + 1, k =>
    let (unit, step) := scale 2 (exponent - 2) 1 1
    let (unit, step) := scale 10 (-k) unit step
    match i.onGrid? unit step with
    | some c => (c, k)
    | none => i.search exponent fuel (k - 1)

/-- The digits and the exponent of the first digit, for `mantissa * 2 ^ exponent` above zero. -/
def shortestDigits (mantissa : Nat) (exponent : Int) : List Char × Int :=
  let (num, den) := scale 2 exponent mantissa 1
  let (c, k) := (Interval.ofMantissa mantissa exponent).search exponent 17 (exponentOf num den)
  let ds := digits c
  (dropTrailingZeros ds, k + ds.length - 1)

/-- Digits around a point; at least one digit stands on each side of it. -/
def positional (ds : List Char) (e : Int) : List Char :=
  if e < 0 then '0' :: '.' :: List.replicate ((-e).toNat - 1) '0' ++ ds
  else
    let whole := e.toNat + 1
    let front := ds.take whole ++ List.replicate (whole - ds.length) '0'
    let back := ds.drop whole
    front ++ '.' :: (if back.isEmpty then ['0'] else back)

/-- Exponents from -4 to 15 are written around the point, all others with a mark. -/
def shortest (x : Float) : String :=
  match parts x with
  | .nan => "nan"
  | .infinite negative => nonFinite negative
  | .finite negative 0 _ => signed negative ['0', '.', '0']
  | .finite negative mantissa exponent =>
    let (ds, e) := shortestDigits mantissa exponent
    signed negative (if -4 ≤ e ∧ e < 16 then positional ds e else scientific ds e)

end InfluenceProgram.Decimal
