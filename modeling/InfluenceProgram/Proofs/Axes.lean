import InfluenceProgram.Proofs.Information

/-!
Tables with their axes in another order. The rank of a path is the place of its index, so a table
can be laid out anew from an entry for each path, and then has this entry at the path and no others.
-/

set_option autoImplicit false

namespace InfluenceProgram

namespace Path

theorem number_eq_volume (counts : List Int) : number counts = volume (counts.map Int.toNat) := by
  induction counts with
  | nil => rfl
  | cons count counts ih => rw [number, ih, List.map_cons, volume]

/-- The path of a rank is one of the paths. -/
theorem ofRank_mem_paths {counts : List Int} {k : Nat} (below : k < number counts) :
    ofRank counts k ∈ paths counts := by
  induction counts generalizing k with
  | nil => exact List.mem_singleton_self []
  | cons count counts ih =>
      rw [number] at below
      obtain ⟨own, rest⟩ := CanonicallyOrderedAdd.mul_pos.mp (Nat.zero_lt_of_lt below)
      have digit := Nat.mod_lt (k / number counts) own
      refine mem_paths.mpr (.cons ?_ (mem_paths.mp (ih (Nat.mod_lt k rest))))
      rw [Int.ofNat_eq_natCast]
      omega

/-- The leading digit of a rank is the first state, and what is left is the rank of the rest. -/
theorem ofRank_mul_add {count : Int} {counts : List Int} {i k : Nat} (digit : i < count.toNat)
    (below : k < number counts) :
    ofRank (count :: counts) (i * number counts + k) = ((i : Int) + 1) :: ofRank counts k := by
  have positive : 0 < number counts := Nat.zero_lt_of_lt below
  have leading : (i * number counts + k) / number counts = i := by
    rw [Nat.add_comm, Nat.add_mul_div_right _ _ positive, Nat.div_eq_of_lt below, Nat.zero_add]
  have rest : (i * number counts + k) % number counts = k := by
    rw [Nat.mul_add_mod_self_right, Nat.mod_eq_of_lt below]
  rw [ofRank, leading, rest, Nat.mod_eq_of_lt digit, Int.ofNat_eq_natCast]

/-- The rank of a path is the place of its index. -/
theorem ofRank_of_place {counts : List Int} {s : Path} (member : s ∈ paths counts) {axis k : Nat}
    (found : Tensor.place axis (counts.map Int.toNat) (toIndex s) = .ok k) :
    ofRank counts k = s := by
  induction mem_paths.mp member generalizing axis k with
  | nil => rfl
  | @cons x count s counts range within ih =>
      have tail := mem_paths.mpr within
      obtain ⟨i, place, below⟩ := Tensor.place_of_path tail (axis + 1)
      simp only [toIndex, List.map_cons, Tensor.place, Tensor.offset_of_state range.1 range.2]
        at found
      change (Tensor.place (axis + 1) (counts.map Int.toNat) (toIndex s)).map _ = _ at found
      rw [place] at found
      cases found
      rw [← number_eq_volume] at below ⊢
      rw [ofRank_mul_add (by omega) below, ih tail place]
      congr 1
      omega

/-- Taking states apart from a last one leaves the last one as it is. -/
theorem project_concat {all part : List Int} (within : part ⊆ all) {c : Path}
    (length : c.length = all.length) {j : Int} (fresh : j ∉ all) (x : Int) :
    project (all ++ [j]) (part ++ [j]) (c ++ [x]) = project all part c ++ [x] := by
  rw [project, List.map_append, project]
  congr 1
  · refine List.map_congr_left fun i member => ?_
    have place : all.idxOf i < c.length := by
      rw [length]
      exact List.idxOf_lt_length_iff.mpr (within member)
    rw [List.idxOf_append_of_mem (within member), List.getD_append _ _ _ _ place]
  · rw [List.map_singleton, List.idxOf_append_of_notMem fresh, List.idxOf_cons_self, ← length,
      List.getD_append_right _ _ _ _ (Nat.le_add_right _ _)]
    simp

end Path

namespace Tensor

/-- The entry of a generated table at a path is made from the place of its index. -/
theorem get_generate {α : Type} {counts : List Int} {s : Path} (member : s ∈ paths counts) {k : Nat}
    (found : place 0 (counts.map Int.toNat) (Path.toIndex s) = .ok k) (f : Nat → α) :
    (generate (counts.map Int.toNat) f).get (Path.toIndex s) = .ok (f k) := by
  obtain ⟨_, found', below⟩ := place_of_path member 0
  cases found.symm.trans found'
  have inside : k < (generate (counts.map Int.toNat) f).entries.size := by
    rw [(generate (counts.map Int.toNat) f).size_eq]
    exact below
  have shape : (generate (counts.map Int.toNat) f).shape = counts.map Int.toNat := rfl
  rw [get, shape, found]
  simp only [Array.getElem?_eq_getElem inside]
  simp only [generate, Array.getElem_ofFn]

/-- The table over some state counts whose entry at each path is that of another table at a path
made from it. -/
def relaid (t : Tensor Rat) (counts : List Int) (old : Path → Path) : Tensor Rat :=
  generate (counts.map Int.toNat) fun k => t.valueAt (old (Path.ofRank counts k))

variable {t : Tensor Rat} {counts : List Int} {old : Path → Path}

theorem get_relaid {s : Path} (member : s ∈ paths counts) :
    (t.relaid counts old).get (Path.toIndex s) = .ok (t.valueAt (old s)) := by
  obtain ⟨k, found, _⟩ := place_of_path member 0
  rw [relaid, get_generate member found, Path.ofRank_of_place member found]

theorem valueAt_relaid {s : Path} (member : s ∈ paths counts) :
    (t.relaid counts old).valueAt s = t.valueAt (old s) := by
  rw [valueAt, get_relaid member]
  rfl

/-- There are no other entries than those at paths. -/
theorem exists_of_mem_relaid {x : Rat} (member : x ∈ (t.relaid counts old).entries) :
    ∃ s ∈ paths counts, x = t.valueAt (old s) := by
  obtain ⟨k, rfl⟩ := Array.mem_ofFn.mp member
  refine ⟨_, Path.ofRank_mem_paths ?_, rfl⟩
  rw [Path.number_eq_volume]
  exact k.isLt

end Tensor

end InfluenceProgram
