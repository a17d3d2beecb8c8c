import InfluenceProgram.Problem
import InfluenceProgram.Proofs.Exact
import InfluenceProgram.Proofs.Path

/-!
Tables read at the states of a path. A table whose axes are the state counts of some nodes has an
entry for all states of these nodes.
-/

set_option autoImplicit false

namespace InfluenceProgram.Tensor

variable {α : Type}

theorem offset_of_state {count x : Int} (low : 1 ≤ x) (high : x ≤ count) :
    Position.offset? count.toNat (x - 1) = some (x - 1).toNat := by
  simp only [Position.offset?]
  rw [if_neg (show ¬x - 1 < 0 by omega), if_pos (by omega)]

/-- The index of a path has a place, at its mixed-radix value and thus within the table. -/
theorem place_of_path {counts : List Int} {s : Path} (member : s ∈ paths counts) (axis : Nat) :
    ∃ k, place axis (counts.map Int.toNat) (Path.toIndex s) = .ok k ∧
      k < volume (counts.map Int.toNat) := by
  induction mem_paths.mp member generalizing axis with
  | nil => exact ⟨0, rfl, Nat.one_pos⟩
  | @cons x count s counts range within ih =>
      obtain ⟨k, found, below⟩ := ih (mem_paths.mpr within) (axis + 1)
      have digit : (x - 1).toNat < count.toNat := by omega
      refine ⟨(x - 1).toNat * volume (counts.map Int.toNat) + k, ?_, ?_⟩
      · simp only [Path.toIndex, List.map_cons, place, offset_of_state range.1 range.2]
        change (place (axis + 1) (counts.map Int.toNat) (Path.toIndex s)).map _ = _
        rw [found]
        rfl
      · calc
          (x - 1).toNat * volume (counts.map Int.toNat) + k
              < ((x - 1).toNat + 1) * volume (counts.map Int.toNat) := by
            rw [Nat.succ_mul]
            omega
          _ ≤ count.toNat * volume (counts.map Int.toNat) := Nat.mul_le_mul_right _ digit

/-- The entry at the states of a path; zero where the table has none. -/
def valueAt [Zero α] (t : Tensor α) (s : Path) : α := (t.get (Path.toIndex s)).toOption.getD 0

theorem get_of_path [Zero α] {t : Tensor α} {counts : List Int}
    (shape : t.shape = counts.map Int.toNat) {s : Path} (member : s ∈ paths counts) :
    t.get (Path.toIndex s) = .ok (t.valueAt s) ∧ t.valueAt s ∈ t.entries := by
  obtain ⟨k, found, below⟩ := place_of_path member 0
  rw [← shape] at found below
  have inside : k < t.entries.size := by
    rw [t.size_eq]
    exact below
  have entry : t.get (Path.toIndex s) = .ok t.entries[k] := by
    rw [get, found]
    simp only [Array.getElem?_eq_getElem inside]
  have value : t.valueAt s = t.entries[k] := by
    rw [valueAt, entry]
    rfl
  rw [value]
  exact ⟨entry, Array.getElem_mem inside⟩

/-- The entries that a context leaves open are those at its extensions. -/
theorem row_of_context [Zero α] {t : Tensor α} {counts : List Int} {count : Int}
    (shape : t.shape = (counts ++ [count]).map Int.toNat) {c : Path} (context : c ∈ paths counts) :
    t.row c count = .ok ((states count).map fun x => t.valueAt (c ++ [x])) := by
  refine Success.mapM_eq fun x state => ?_
  exact (get_of_path shape (mem_paths_concat context state)).1

end InfluenceProgram.Tensor
