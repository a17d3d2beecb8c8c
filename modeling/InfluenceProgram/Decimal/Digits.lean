import InfluenceProgram.Decimal.Binary64

/-!
Decimal digits of naturals and of quotients: the digit texts that every number format shares,
and the decimal exponent of a positive quotient.
-/

namespace InfluenceProgram.Decimal

/-- The decimal digits of a natural, most significant first. -/
def digits (n : Nat) : List Char := Nat.toDigits 10 n

/-- The digits with zeros in front up to a width. -/
def padded (width n : Nat) : List Char :=
  let ds := digits n
  List.replicate (width - ds.length) '0' ++ ds

/-- The exponent `e` with `10 ^ e ≤ num / den < 10 ^ (e + 1)`, for a positive quotient. -/
def exponentOf (num den : Nat) : Int :=
  if den ≤ num then ((digits (num / den)).length : Int) - 1
  else -((digits ((den - 1) / num)).length : Int)

/-- The digits without the zeros at their end. -/
def dropTrailingZeros (ds : List Char) : List Char :=
  (ds.reverse.dropWhile (· == '0')).reverse

/-- The sign, then the rest. -/
def signed (negative : Bool) (body : List Char) : String :=
  String.ofList (if negative then '-' :: body else body)

/-- The exponent with its mark and sign, at least two digits. -/
def exponentText (e : Int) : List Char :=
  'e' :: (if e < 0 then '-' else '+') :: padded 2 e.natAbs

/-- One digit, then a point and the others if there are any, then the exponent. -/
def scientific (ds : List Char) (e : Int) : List Char :=
  match ds with
  | [] => '0' :: exponentText e
  | [d] => d :: exponentText e
  | d :: rest => d :: '.' :: rest ++ exponentText e

/-- A number that is not finite. -/
def nonFinite (negative : Bool) : String := if negative then "-inf" else "inf"

end InfluenceProgram.Decimal
