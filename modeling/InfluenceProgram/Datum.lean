import InfluenceProgram.Decimal.Shortest
import InfluenceProgram.Text.Quoted
import InfluenceProgram.Text.Sequence

/-!
Values as a caller supplies them, before it is known whether they are what a place needs: state
counts, arcs, tables, settings, keys.
-/

namespace InfluenceProgram

inductive Datum where
  | null
  | bool (b : Bool)
  | int (n : Int)
  | real (x : Float)
  | text (s : String)
  | list (items : List Datum)
  | record (fields : List (String × Datum))
deriving Inhabited, Repr

namespace Datum

open Text

mutual

/-- Decides whether two data are the same piece of data, kinds included. -/
def decEq : (a b : Datum) → Decidable (a = b)
  | null, b => match b with
    | null => isTrue rfl
    | bool _ | int _ | real _ | text _ | list _ | record _ => isFalse nofun
  | bool x, b => match b with
    | bool y => decidable_of_iff (x = y) (by simp)
    | null | int _ | real _ | text _ | list _ | record _ => isFalse nofun
  | int x, b => match b with
    | int y => decidable_of_iff (x = y) (by simp)
    | null | bool _ | real _ | text _ | list _ | record _ => isFalse nofun
  | real x, b => match b with
    | real y => decidable_of_iff (x = y) (by simp)
    | null | bool _ | int _ | text _ | list _ | record _ => isFalse nofun
  | text x, b => match b with
    | text y => decidable_of_iff (x = y) (by simp)
    | null | bool _ | int _ | real _ | list _ | record _ => isFalse nofun
  | list xs, b => match b with
    | list ys =>
      have := decEqItems xs ys
      decidable_of_iff (xs = ys) (by simp)
    | null | bool _ | int _ | real _ | text _ | record _ => isFalse nofun
  | record xs, b => match b with
    | record ys =>
      have := decEqFields xs ys
      decidable_of_iff (xs = ys) (by simp)
    | null | bool _ | int _ | real _ | text _ | list _ => isFalse nofun

def decEqItems : (xs ys : List Datum) → Decidable (xs = ys)
  | [], ys => match ys with
    | [] => isTrue rfl
    | _ :: _ => isFalse nofun
  | x :: xs, ys => match ys with
    | [] => isFalse nofun
    | y :: ys =>
      have := decEq x y
      have := decEqItems xs ys
      decidable_of_iff (x = y ∧ xs = ys) (by simp)

def decEqFields : (xs ys : List (String × Datum)) → Decidable (xs = ys)
  | [], ys => match ys with
    | [] => isTrue rfl
    | _ :: _ => isFalse nofun
  | (k, x) :: xs, ys => match ys with
    | [] => isFalse nofun
    | (l, y) :: ys =>
      have := decEq x y
      have := decEqFields xs ys
      decidable_of_iff ((k = l ∧ x = y) ∧ xs = ys) (by simp)

end

instance : DecidableEq Datum := decEq

mutual

/-- A datum as it is shown inside a message; `enclose` joins the items of a list. -/
def shownBy (enclose : List String → String) : Datum → String
  | null => "None"
  | bool b => if b then "True" else "False"
  | int n => toString n
  | real x => Decimal.shortest x
  | text s => quoted s
  | list items => enclose (shownItems enclose items)
  | record fields => "\x7b" ++ commaSeparated (shownFields enclose fields) ++ "\x7d"

def shownItems (enclose : List String → String) : List Datum → List String
  | [] => []
  | item :: rest => item.shownBy enclose :: shownItems enclose rest

def shownFields (enclose : List String → String) : List (String × Datum) → List String
  | [] => []
  | (key, value) :: rest =>
    (quoted key ++ ": " ++ value.shownBy enclose) :: shownFields enclose rest

end

def shown (d : Datum) : String := d.shownBy bracketed

/-- A key as it is shown inside a message: the lists in a key are tuples. -/
def keyShown (d : Datum) : String := d.shownBy tupled

/-- A datum as text of its own: texts stand without quotes. -/
def plain : Datum → String
  | text s => s
  | d => d.shown

def keyPlain : Datum → String
  | text s => s
  | d => d.keyShown

end Datum

end InfluenceProgram
