import InfluenceProgram.Tensor

/-!
Tables laid over each other. Axes are matched from the last one on; an axis with a single place
stretches to any size, and a table without an axis is the same all along it.
-/

namespace InfluenceProgram

namespace Tensor

variable {α β γ : Type}

/-- The axes of two tables laid over each other, the last axis first; none if two of them differ. -/
def overlayAxes : List Nat → List Nat → Option (List Nat)
  | [], ns => some ns
  | ms, [] => some ms
  | m :: ms, n :: ns => do
    let rest ← overlayAxes ms ns
    if m = n ∨ n = 1 then some (m :: rest) else if m = 1 then some (n :: rest) else none

/--
The place in a stretched table for a place in the table it is stretched to, both with the last
axis first. `stride` is how far apart neighbours on the first of the remaining axes lie.
-/
def stretchedPlace (stride place : Nat) : List Nat → List Nat → Nat
  | m :: ms, n :: ns =>
    (if m = 1 then 0 else place % n) * stride + stretchedPlace (stride * m) (place / n) ms ns
  | _, _ => 0

/-- The entry of a stretched table at a place in the table with the given axes. -/
def stretchedEntry? (t : Tensor α) (shape : List Nat) (place : Nat) : Option α :=
  t.entries[stretchedPlace 1 place t.shape.reverse shape.reverse]?

/-- Two tables laid over each other, combined place by place. -/
def overlay (f : α → β → Except Fault γ) (t : Tensor α) (u : Tensor β) :
    Except Fault (Tensor γ) := do
  match overlayAxes t.shape.reverse u.shape.reverse with
  | none => .error (.axesApart t.shape u.shape)
  | some axes =>
    let shape := axes.reverse
    let entries ← (List.range (volume shape)).mapM fun place =>
      match t.stretchedEntry? shape place, u.stretchedEntry? shape place with
      | some x, some y => f x y
      | _, _ => .error .indexKind
    ofList shape entries

end Tensor

namespace Datum

/-- Whether a datum is kept as it is in an array, so that its items need not be numbers. -/
def isLoose : Datum → Bool
  | null | list _ | record _ => true
  | d => d.isLong

end Datum

/--
A table with a deduction taken from it. The deduction is a number or a table of numbers laid over
it; a text in it is a fault before any axis is looked at, unless the items are kept as they are.
-/
def Tensor.lowered (t : Tensor Float) (deduction : Datum) : Except Fault (Tensor Float) := do
  match deduction with
  | .list _ =>
    let d ← deduction.grid
    if d.entries.any Datum.isText && !d.entries.any Datum.isLoose then .error .textFromTable
    else t.overlay (fun x y => return x - (← y.quantity)) d
  | .text _ => .error .textFromTable
  | _ =>
    let least ← deduction.quantity
    return t.map (· - least)

end InfluenceProgram
