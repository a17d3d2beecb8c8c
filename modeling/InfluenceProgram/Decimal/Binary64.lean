/-!
Doubles as exact arithmetic. A finite double is `m * 2 ^ q` with a sign, so every text of a
number is a statement about natural numbers. `ofRatio` rounds a quotient to the nearest double,
ties to the even one, and `parts` takes a double apart again.
-/

namespace InfluenceProgram.Binary64

/-- A double taken apart; a finite one is `mantissa * 2 ^ exponent` up to its sign. -/
inductive Parts where
  | nan
  | infinite (negative : Bool)
  | finite (negative : Bool) (mantissa : Nat) (exponent : Int)
deriving DecidableEq, Repr

/-- The fields of a 64-bit word: sign, 11 bits of exponent, 52 bits of fraction. -/
def partsOfBits (bits : Nat) : Parts :=
  let negative := bits / Nat.pow 2 63 == 1
  let biased : Nat := bits / Nat.pow 2 52 % Nat.pow 2 11
  let fraction := bits % Nat.pow 2 52
  if biased == 2047 then
    if fraction == 0 then .infinite negative else .nan
  else if biased == 0 then .finite negative fraction (-1074)
  else .finite negative (Nat.pow 2 52 + fraction) ((biased : Int) - 1075)

def parts (x : Float) : Parts := partsOfBits x.toBits.toNat

/-- A quotient of naturals rounded to the nearest natural, ties to the even one. -/
def roundDiv (num den : Nat) : Nat :=
  let q := num / den
  let r := num % den
  if 2 * r < den then q
  else if den < 2 * r then q + 1
  else if q % 2 == 0 then q
  else q + 1

/-- The numerator and denominator of `num / den * base ^ k`. -/
def scale (base : Nat) (k : Int) (num den : Nat) : Nat × Nat :=
  if 0 ≤ k then (num * Nat.pow base k.toNat, den) else (num, den * Nat.pow base (-k).toNat)

/--
The word of the double nearest to a positive quotient. With exponent `e` the quotient becomes a
mantissa below `2 ^ 53`; the sum of the shifted exponent and the mantissa is the word, also for
subnormal numbers and when rounding carries into the next exponent.
-/
def bitsOfRatio (num den : Nat) : Nat :=
  let guess : Int := (num.log2 : Int) - den.log2 - 52
  let (top, bottom) := scale 2 (-guess) num den
  let exact := if top < bottom * Nat.pow 2 52 then guess - 1 else guess
  let e := max exact (-1074)
  let (top, bottom) := scale 2 (-e) num den
  min ((e + 1074).toNat * Nat.pow 2 52 + roundDiv top bottom) (2047 * Nat.pow 2 52)

/-- The double nearest to a quotient, ties to even; a quotient too large becomes infinite. -/
def ofRatio (negative : Bool) (num den : Nat) : Float :=
  let magnitude := if num == 0 then 0 else bitsOfRatio num den
  Float.ofBits (UInt64.ofNat (magnitude + if negative then Nat.pow 2 63 else 0))

def ofInt (n : Int) : Float := ofRatio (n < 0) n.natAbs 1

/--
The double nearest to `digits * 10 ^ exponent`. Exponents far outside the range are settled
without computing their power of ten.
-/
def ofDecimal (negative : Bool) (digits : Nat) (exponent : Int) : Float :=
  if digits == 0 || exponent < -((digits.log2 : Int) + 400) then ofRatio negative 0 1
  else if 400 < exponent then ofRatio negative (Nat.pow 2 1100) 1
  else
    let (num, den) := scale 10 exponent digits 1
    ofRatio negative num den

/-- The integer part, towards zero; `none` unless the double is finite. -/
def truncate? (x : Float) : Option Int :=
  match parts x with
  | .finite negative mantissa exponent =>
    let (num, den) := scale 2 exponent mantissa 1
    let magnitude : Int := (num / den : Nat)
    some (if negative then -magnitude else magnitude)
  | _ => none

end InfluenceProgram.Binary64
