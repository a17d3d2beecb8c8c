import InfluenceProgram.Decimal.Binary64
import InfluenceProgram.Text.Digit

/-!
Reading numbers from text. Blanks around the number and single underscores between digits are
allowed; a real number has a point, an exponent, or one of the names of infinity and of nothing.
-/

namespace InfluenceProgram.Decimal

open Text

/-- The digits that go on a run, each after at most one underscore, and the rest of the text. -/
def moreDigits : List Char → List Nat × List Char
  | [] => ([], [])
  | '_' :: c :: rest =>
    match digitValue? c with
    | none => ([], '_' :: c :: rest)
    | some d => (d :: (moreDigits rest).1, (moreDigits rest).2)
  | c :: rest =>
    match digitValue? c with
    | none => ([], c :: rest)
    | some d => (d :: (moreDigits rest).1, (moreDigits rest).2)

/-- A run of digits, single underscores allowed between them, and the rest of the text. -/
def takeDigits : List Char → List Nat × List Char
  | [] => ([], [])
  | c :: rest =>
    match digitValue? c with
    | none => ([], c :: rest)
    | some d => (d :: (moreDigits rest).1, (moreDigits rest).2)

/-- The natural that a run of digits stands for. -/
def natOfDigits (ds : List Nat) : Nat := ds.foldl (fun n d => 10 * n + d) 0

def takeSign : List Char → Bool × List Char
  | '-' :: rest => (true, rest)
  | '+' :: rest => (false, rest)
  | cs => (false, cs)

def integerOf (negative : Bool) (ds : List Nat) : Int :=
  if negative then -(natOfDigits ds : Int) else natOfDigits ds

/-- The sign of an integer, its digits, and what follows them. -/
def splitInteger (s : String) : Bool × List Nat × List Char :=
  let (negative, cs) := takeSign (trimmed s.toList)
  (negative, takeDigits cs)

/-- An integer: a sign if any, then digits and nothing else. -/
def readInt? (s : String) : Option Int :=
  match splitInteger s with
  | (negative, d :: ds, []) => some (integerOf negative (d :: ds))
  | _ => none

/-- An integer is read only up to so many digits. -/
def maxDigits : Nat := 4300

/-- How many digits an integer starts with, if they are too many; a loose underscore comes first. -/
def excessDigits? (s : String) : Option Nat :=
  let (_, ds, rest) := splitInteger s
  if maxDigits < ds.length && rest.head? != some '_' then some ds.length else none

/-- The exponent at the end of a number, `0` if there is none. -/
def readExponent? : List Char → Option Int
  | [] => some 0
  | c :: rest =>
    if c == 'e' || c == 'E' then
      let (negative, cs) := takeSign rest
      match takeDigits cs with
      | (d :: ds, []) => some (integerOf negative (d :: ds))
      | _ => none
    else none

/-- Digits, a point with digits if any, and an exponent if any; at least one digit before it. -/
def readUnsigned? (negative : Bool) (cs : List Char) : Option Float :=
  let (whole, rest) := takeDigits cs
  let (fraction, rest) := match rest with
    | '.' :: rest => takeDigits rest
    | rest => ([], rest)
  if whole.isEmpty && fraction.isEmpty then none
  else (readExponent? rest).map fun e =>
    Binary64.ofDecimal negative (natOfDigits (whole ++ fraction)) (e - fraction.length)

/-- A real number in decimal, or a name: `inf`, `infinity` and `nan` in any case. -/
def readFloat? (s : String) : Option Float :=
  let (negative, cs) := takeSign (trimmed s.toList)
  match String.ofList (cs.map Char.toLower) with
  | "inf" | "infinity" => some (Binary64.ofRatio negative (Nat.pow 2 1100) 1)
  | "nan" => some (0.0 / 0.0)
  | _ => readUnsigned? negative cs

end InfluenceProgram.Decimal
