import InfluenceProgram.Decimal.Reader
import InfluenceProgram.Fault

/-!
Data turned into what a place needs: integers, reals, items, pairs. Each conversion says which
fault an unfit datum causes.
-/

namespace InfluenceProgram.Datum

/-- The double nearest to an integer, unless it is too large for every double. -/
def realOfInt (n : Int) : Except Fault Float :=
  let x := Binary64.ofInt n
  if x.isFinite then .ok x else .error .realTooLarge

def truncated (x : Float) : Except Fault Int :=
  match Binary64.truncate? x with
  | some n => .ok n
  | none => .error (if x.isNaN then .integerOfNothing else .integerOfInfinity)

/-- The integer a datum stands for; reals lose their fraction and texts are read. -/
def toInt : Datum → Except Fault Int
  | bool b => .ok (if b then 1 else 0)
  | int n => .ok n
  | real x => truncated x
  | text s =>
    match Decimal.excessDigits? s, Decimal.readInt? s with
    | some got, _ => .error (.tooManyDigits got)
    | none, some n => .ok n
    | none, none => .error (.notInteger s)
  | _ => .error .wrongType

/-- The real number a datum stands for; texts are read. -/
def toReal : Datum → Except Fault Float
  | bool b => .ok (if b then 1.0 else 0.0)
  | int n => realOfInt n
  | real x => .ok x
  | text s =>
    match Decimal.readFloat? s with
    | some x => .ok x
    | none => .error (.notReal s)
  | _ => .error .wrongType

/-- The real number a datum is; texts are no numbers here. -/
def quantity : Datum → Except Fault Float
  | text _ => .error .wrongType
  | d => d.toReal

/-- The number a datum is when it is laid out with a fixed count of places. -/
def amount : Datum → Except Fault Float
  | text _ => .error .textAsNumber
  | d => d.quantity

/-- The position a datum is; only an integer is one, a truth value included. -/
def position : Datum → Except Fault Int
  | bool b => .ok (if b then 1 else 0)
  | int n => .ok n
  | _ => .error .wrongType

/-- The sum of two numbers; it is whole if both of them are. -/
def plus (a b : Datum) : Except Fault Datum :=
  match a.position, b.position with
  | .ok m, .ok n => .ok (int (m + n))
  | _, _ => do return real ((← a.quantity) + (← b.quantity))

/-- The sum of some numbers from the left, exact as long as they are whole. -/
def total (items : List Datum) : Except Fault Datum := items.foldlM plus (int 0)

def isText : Datum → Bool
  | text _ => true
  | _ => false

/-- Whether a datum is an integer that is no 64-bit word. -/
def isLong : Datum → Bool
  | int n => n < -(Nat.pow 2 63) || (Nat.pow 2 64 : Int) ≤ n
  | _ => false

/-- A datum less one; only numbers can be lowered. -/
def lowered : Datum → Except Fault Datum
  | bool b => .ok (int (if b then 0 else -1))
  | int n => .ok (int (n - 1))
  | real x => .ok (real (x - 1.0))
  | _ => .error .wrongType

/-- Whether a datum counts as nothing. -/
def isBlank : Datum → Bool
  | null | bool false | int 0 | text "" | list [] | record [] => true
  | real x => x == 0.0
  | _ => false

/-- The items of a list, the characters of a text, the keys of a record. -/
def items : Datum → Except Fault (List Datum)
  | list xs => .ok xs
  | text s => .ok (s.toList.map fun c => text (String.singleton c))
  | record fields => .ok (fields.map fun f => text f.1)
  | _ => .error .wrongType

def pair (d : Datum) : Except Fault (Datum × Datum) := do
  match ← d.items with
  | [a, b] => return (a, b)
  | xs => if xs.length < 2 then .error (.pairTooShort xs.length) else .error .pairTooLong

def toArc (d : Datum) : Except Fault (Int × Int) := do
  let (i, j) ← d.pair
  return (← i.toInt, ← j.toInt)

end InfluenceProgram.Datum
