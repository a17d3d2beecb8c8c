import InfluenceProgram.Decimal.Digits

/-!
Numbers with a fixed count of places, with a fixed count of significant digits, and numbers padded
to a column. All round the exact value of the double, a half going to the even neighbour.
-/

namespace InfluenceProgram.Decimal

open Binary64

/-- A comma before every full group of three digits, counted from the right. -/
def groupThousands (ds : List Char) : List Char :=
  let rec go : List Char → List Char
    | a :: b :: c :: d :: rest => a :: b :: c :: ',' :: go (d :: rest)
    | rest => rest
  (go ds.reverse).reverse

/-- The digits of a natural counted in units of the last of `places` places. -/
def withPoint (grouped : Bool) (places n : Nat) : List Char :=
  let ds := padded (places + 1) n
  let whole := ds.take (ds.length - places)
  let front := if grouped then groupThousands whole else whole
  if places == 0 then front else front ++ '.' :: ds.drop (ds.length - places)

/-- A number with a fixed count of places, its thousands set apart by commas on demand. -/
def fixedGrouped (grouped : Bool) (places : Nat) (x : Float) : String :=
  match parts x with
  | .nan => "nan"
  | .infinite negative => nonFinite negative
  | .finite negative mantissa exponent =>
    let (num, den) := scale 2 exponent (mantissa * Nat.pow 10 places) 1
    signed negative (withPoint grouped places (roundDiv num den))

def fixed (places : Nat) (x : Float) : String := fixedGrouped false places x

def grouped (places : Nat) (x : Float) : String := fixedGrouped true places x

/-- The digits after a point lose their trailing zeros, and the point goes with the last one. -/
def trimFraction (front back : List Char) : List Char :=
  let kept := dropTrailingZeros back
  if kept.isEmpty then front else front ++ '.' :: kept

/--
A number with at most `count` significant digits and no trailing zeros. The exponent is that of
the rounded number; from -4 up to `count` the digits are written around the point.
-/
def significant (count : Nat) (x : Float) : String :=
  match parts x with
  | .nan => "nan"
  | .infinite negative => nonFinite negative
  | .finite negative 0 _ => signed negative ['0']
  | .finite negative mantissa exponent =>
    let (num, den) := scale 2 exponent mantissa 1
    let e := exponentOf num den
    let (top, bottom) := scale 10 ((count : Int) - 1 - e) num den
    let n := roundDiv top bottom
    let (n, e) := if n == Nat.pow 10 count then (n / 10, e + 1) else (n, e)
    let ds := digits n
    signed negative <|
      if -4 ≤ e ∧ e < count then
        if e < 0 then trimFraction ['0'] (List.replicate ((-e).toNat - 1) '0' ++ ds)
        else trimFraction (ds.take (e.toNat + 1)) (ds.drop (e.toNat + 1))
      else scientific (match ds with | [] => [] | d :: rest => d :: dropTrailingZeros rest) e

def alignRight (width : Nat) (s : String) : String :=
  String.ofList (List.replicate (width - s.length) ' ') ++ s

def alignLeft (width : Nat) (s : String) : String :=
  s ++ String.ofList (List.replicate (width - s.length) ' ')

end InfluenceProgram.Decimal
