import InfluenceProgram.Datum.Conversion
import InfluenceProgram.Path
import InfluenceProgram.Scalar

/-!
Rectangular tables of scalars. The entries stand in one row, the last axis varying fastest, so the
entry of an index is found at its mixed-radix value.
-/

namespace InfluenceProgram

/-- The number of entries of a table with the given axes. -/
def volume : List Nat → Nat
  | [] => 1
  | n :: ns => n * volume ns

/-- Checks that a table of 64-bit entries with the given axes can be held. -/
def holdable (real : Bool) (axes : List Nat) : Except Fault Unit :=
  if axes.any (Nat.pow 2 63 ≤ ·) then .error .axisTooLong
  else if Nat.pow 2 60 ≤ volume axes then .error .tableTooLarge
  else if Path.maxHeld ≤ volume axes then .error (.noRoom real axes)
  else .ok ()

/-- Checks that a table can have so many axes. -/
def checkAxes (axes : Nat) : Except Fault Unit :=
  if axes ≤ maxAxes then .ok () else .error (.tooManyAxes axes)

structure Tensor (α : Type) where
  shape : List Nat
  entries : Array α
  size_eq : entries.size = volume shape

namespace Tensor

variable {α β : Type}

def generate (shape : List Nat) (f : Nat → α) : Tensor α where
  shape
  entries := Array.ofFn fun k : Fin (volume shape) => f k
  size_eq := Array.size_ofFn

def map (f : α → β) (t : Tensor α) : Tensor β where
  shape := t.shape
  entries := t.entries.map f
  size_eq := by simp [t.size_eq]

/-- A table whose entries stand in a list, provided that there are as many as there are places. -/
def ofList (shape : List Nat) (entries : List α) : Except Fault (Tensor α) :=
  if h : entries.toArray.size = volume shape then .ok ⟨shape, entries.toArray, h⟩
  else .error .wrongType

/-- Changes every entry in order, unless one of them causes a fault. -/
def mapM (f : α → Except Fault β) (t : Tensor α) : Except Fault (Tensor β) := do
  ofList t.shape (← t.entries.toList.mapM f)

/--
The place of an index; positions on each axis are counted from either end. An index that leaves an
axis open means a table and no place.
-/
def place (axis : Nat) : List Nat → List Int → Except Fault Nat
  | n :: ns, i :: is =>
    match Position.offset? n i with
    | none => .error (.outsideAxis i axis n)
    | some k => (place (axis + 1) ns is).map (k * volume ns + ·)
  | [], [] => .ok 0
  | [], is => .error (.tooManyIndices axis (axis + is.length))
  | _ :: _, [] => .error .wrongType

/--
The entry at an index. An index without a place is looked through for positions that are no words
before it is said what is wrong with the place.
-/
def get (t : Tensor α) (index : List Int) : Except Fault α :=
  match place 0 t.shape index with
  | .ok k =>
    match t.entries[k]? with
    | some x => .ok x
    | none => .error .indexKind
  | .error fault => do
    index.forM Position.checkWord
    .error fault

/-- A position in a table as it was given; only integers are positions. -/
def position : Datum → Except Fault Int
  | .int i => do
    Position.checkWord i
    return i
  | _ => .error .indexKind

def getAt (t : Tensor α) (states : List Datum) : Except Fault α := do
  let lowered ← states.mapM Datum.lowered
  t.get (← lowered.mapM position)

/-- The entries that a context leaves open, one for each of `count` states of the last axis. -/
def row (t : Tensor α) (context : Path) (count : Int) : Except Fault (List α) :=
  (states count).mapM fun x => t.get (Path.toIndex (context ++ [x]))

end Tensor

/-- What a caller gives as the table of one node, once its items have been looked at. -/
inductive Supplied (α : Type) where
  | table (t : Tensor α)
  /-- Ragged, too deep, or with an item that is no number. -/
  | notNumeric
  /-- An integer among the items that no scalar can hold. -/
  | tooLarge

namespace Supplied

/-- The table, or the fault of the node that it was meant for. -/
def tensor {α : Type} (j : Int) : Supplied α → Except Fault (Tensor α)
  | table t => .ok t
  | notNumeric => .error (.table (.int j) .notNumeric)
  | tooLarge => .error .realTooLarge

end Supplied

namespace Datum

/-- The common shape of all items, if they have one. -/
def commonShape : List (Option (List Nat)) → Option (List Nat)
  | [] => some []
  | [s] => s
  | s :: rest => if s.isSome && rest.all (· == s) then s else none

mutual

/-- The axes of nested lists, provided that they are rectangular. -/
def shape? : Datum → Option (List Nat)
  | list items => (commonShape (itemShapes items)).map (items.length :: ·)
  | _ => some []

def itemShapes : List Datum → List (Option (List Nat))
  | [] => []
  | item :: rest => item.shape? :: itemShapes rest

end

mutual

def leaves : Datum → List Datum
  | list items => itemLeaves items
  | d => [d]

def itemLeaves : List Datum → List Datum
  | [] => []
  | item :: rest => item.leaves ++ itemLeaves rest

end

/-- An item of a table; nothing stands for a number that is unknown. -/
def entry : Datum → Except Fault Float
  | null => .ok (0.0 / 0.0)
  | d => d.toReal

def commonAxes : List Nat → List Nat → List Nat
  | m :: ms, n :: ns => if m = n then m :: commonAxes ms ns else []
  | _, _ => []

mutual

/-- The axes of nested lists up to the first difference. -/
def axes : Datum → List Nat
  | list items => items.length :: itemAxes items
  | _ => []

def itemAxes : List Datum → List Nat
  | [] => []
  | [item] => item.axes
  | item :: rest => commonAxes item.axes (itemAxes rest)

end

mutual

def realized : Datum → Except Fault Datum
  | list items => do return list (← realizedItems items)
  | d => do return real (← d.entry)

def realizedItems : List Datum → Except Fault (List Datum)
  | [] => .ok []
  | item :: rest => do return (← item.realized) :: (← realizedItems rest)

end

/-- The axes of nested lists, which have to be rectangular and not too deep. -/
def laidOutAxes (d : Datum) : Except Fault (List Nat) :=
  match d.shape? with
  | some shape => if maxAxes < shape.length then .error .nestedTooDeeply else .ok shape
  | none =>
    let axes := d.axes
    if maxAxes ≤ axes.length then .error .nestedTooDeeply else .error (.ragged axes)

def array (d : Datum) : Except Fault Datum := do
  let _ ← d.laidOutAxes
  d.realized

def grid (d : Datum) : Except Fault (Tensor Datum) := do
  Tensor.ofList (← d.laidOutAxes) d.leaves

def numberGrid (d : Datum) : Except Fault (Tensor Float) := do (← d.grid).mapM entry

/-- The table that nested lists of numbers stand for. -/
def supplied (d : Datum) : Supplied Float :=
  match d.shape? with
  | none => .notNumeric
  | some shape =>
    if maxAxes < shape.length then .notNumeric
    else
      match d.leaves.mapM entry with
      | .ok xs =>
        if h : xs.toArray.size = volume shape then .table ⟨shape, xs.toArray, h⟩ else .notNumeric
      | .error .realTooLarge => .tooLarge
      | .error _ => .notNumeric

end Datum

end InfluenceProgram
