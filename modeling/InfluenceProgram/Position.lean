import InfluenceProgram.Fault

/-!
Positions in a sequence, counted from either end: `0`, `1`, … from the front and `-1`, `-2`, …
from the back.
-/

namespace InfluenceProgram.Position

def offset? (length : Nat) (i : Int) : Option Nat :=
  let j := if i < 0 then i + length else i
  if 0 ≤ j ∧ j < length then some j.toNat else none

theorem offset?_lt {length : Nat} {i : Int} {k : Nat} (h : offset? length i = some k) :
    k < length := by
  simp only [offset?] at h
  split at h <;> simp_all <;> omega

/-- Positions are 64-bit words with a sign. -/
def representable (i : Int) : Bool := -(Nat.pow 2 63) ≤ i && i < Nat.pow 2 63

/-- Checks a position in a table; words without a sign are integers too, but no positions. -/
def checkWord (i : Int) : Except Fault Unit :=
  if representable i then .ok ()
  else if 0 ≤ i && i < Nat.pow 2 64 then .error .wordTooLarge
  else .error .indexKind

/--
The item at a position; `missing` is the fault of a position outside the sequence. Only outside of
it does it matter whether the position is a word.
-/
def pick {α : Type} (missing : Fault) (xs : List α) (i : Int) : Except Fault α :=
  match offset? xs.length i with
  | some k =>
    match xs[k]? with
    | some x => .ok x
    | none => .error missing
  | none => if representable i then .error missing else .error .positionTooLarge

end InfluenceProgram.Position
