import InfluenceProgram.Decimal.Fixed

/-!
Amounts of memory: a number of bytes in the largest binary unit that it fills, with three digits
where its whole part has no more of them.
-/

namespace InfluenceProgram.Decimal

/-- The binary units, each 1024 times the one before it. -/
def byteUnits : List String := ["bytes", "KiB", "MiB", "GiB", "TiB", "PiB", "EiB"]

/-- A quotient up to the third digit, the point always written. -/
def threeDigits (num den : Nat) : String :=
  let rounded (places : Nat) : Nat := Binary64.roundDiv (num * Nat.pow 10 places) den
  if rounded 2 < 1000 then String.ofList (withPoint false 2 (rounded 2))
  else if rounded 1 < 1000 then String.ofList (withPoint false 1 (rounded 1))
  else toString (rounded 0) ++ "."

/-- A number of bytes as it is shown; a unit filled 1024 times gives way to the next. -/
def bytesText (size : Nat) : String :=
  let filled := Nat.log2 size / 10
  let unit :=
    if Binary64.roundDiv size (Nat.pow 1024 filled) == 1024 then filled + 1 else filled
  let amount := if unit == 0 then toString size else threeDigits size (Nat.pow 1024 unit)
  amount ++ " " ++ byteUnits.getD unit ""

end InfluenceProgram.Decimal
