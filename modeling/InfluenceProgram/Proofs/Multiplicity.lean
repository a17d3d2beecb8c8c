import InfluenceProgram.Proofs.LeastProbability

/-!
How many paths have given states at some nodes: as many as there are combinations of states of the
other nodes. This is a product along paths in which the given nodes count their own state alone and
all others count each state.
-/

set_option autoImplicit false

namespace InfluenceProgram

namespace Kernel

/-- Some nodes count the state that they have on a path alone; all others count each state. -/
def pinned (nodes : List Int) (t : Path) : Kernel := fun j _ x =>
  if j ∈ nodes → x = t.stateAt j then 1 else 0

variable {d : Diagram} {nodes : List Int} {t : Path}

theorem pinned_total (member : t ∈ paths d.counts) {j : Int} (inner : j ∈ d.innerNodes)
    (c : Path) :
    (pinned nodes t).total d j c = if j ∈ nodes then 1 else ((d.count j).toNat : Rat) := by
  have range := d.mem_innerNodes.mp inner
  have state := Diagram.stateAt_mem_states member range.1 range.2
  unfold total pinned
  split
  · rename_i given
    simp only [given, true_imp_iff, eq_comm (b := t.stateAt j)]
    exact Scalar.sum_single (nodup_states _) state fun _ => 1
  · rename_i other
    simp only [other, false_imp_iff, if_true]
    rw [List.map_const', List.sum_replicate, length_states, nsmul_one]

theorem pinned_bounded (nodes : List Int) (member : t ∈ paths d.counts) :
    (pinned nodes t).Bounded d d.innerNodes
      (fun j => if j ∈ nodes then 1 else ((d.count j).toNat : Rat))
      (fun j => if j ∈ nodes then 1 else ((d.count j).toNat : Rat)) := by
  have nonneg : ∀ j, (0 : Rat) ≤ if j ∈ nodes then 1 else ((d.count j).toNat : Rat) := by
    intro j
    split
    · exact zero_le_one
    · exact Nat.cast_nonneg _
  refine ⟨nonneg, nonneg, fun j _ c _ x _ => ?_, fun j inner c _ => ?_⟩
  · unfold pinned
    split
    · exact zero_le_one
    · exact le_rfl
  · rw [pinned_total member inner]
    exact ⟨le_rfl, le_rfl⟩

/-- A path counts if it has the given states. -/
theorem pinned_along (inside : ∀ j ∈ nodes, j ∈ d.innerNodes) (s : Path) :
    (pinned nodes t).along d d.innerNodes s =
      if s.select nodes = t.select nodes then 1 else 0 := by
  have same : s.select nodes = t.select nodes ↔ ∀ j ∈ nodes, s.stateAt j = t.stateAt j :=
    List.map_inj_left
  split
  · rename_i agrees
    apply List.prod_eq_one
    intro share member
    obtain ⟨j, _, rfl⟩ := List.mem_map.mp member
    exact if_pos (same.mp agrees j)
  · rename_i differs
    obtain ⟨j, given, other⟩ : ∃ j ∈ nodes, s.stateAt j ≠ t.stateAt j := by
      by_contra none
      push Not at none
      exact differs (same.mpr none)
    apply List.prod_eq_zero
    exact List.mem_map.mpr ⟨j, inside j given, if_neg fun agrees => other (agrees given)⟩

end Kernel

namespace Diagram

variable {d : Diagram} {nodes : List Int}

/-- Of the paths, as many have given states at some nodes as the other nodes have combinations. -/
theorem countP_select (distinct : nodes.Nodup) (inside : ∀ j ∈ nodes, j ∈ d.innerNodes) {key : Path}
    (member : key ∈ paths (Path.select d.counts nodes)) :
    ((paths d.counts).countP (·.select nodes = key) : Int) =
      ((d.innerNodes.filter (· ∉ nodes)).map d.count).prod := by
  have covered : Path.Covers d.counts nodes := by
    intro j given
    rw [d.counts_length]
    exact d.mem_innerNodes.mp (inside j given)
  obtain ⟨t, path, rfl⟩ := Path.exists_select_eq d.counts_pos distinct covered member
  have shares : (d.innerNodes.map fun j => if j ∈ nodes then 1 else ((d.count j).toNat : Rat)) =
      d.innerNodes.map fun j => if j ∈ nodes then 1 else (d.count j : Rat) := by
    refine List.map_congr_left fun j inner => ?_
    have range := d.mem_innerNodes.mp inner
    have positive := d.count_pos range.1 range.2
    have cast : ((d.count j).toNat : Int) = d.count j := Int.toNat_of_nonneg (by omega)
    rw [← Int.cast_natCast, cast]
  have bounds := (Kernel.pinned_bounded nodes path).sum_along
  rw [shares, List.prod_map_ite, List.map_const', List.prod_replicate, one_pow, one_mul,
    funext (Kernel.pinned_along inside), Scalar.sum_ite_eq_countP] at bounds
  have exact := le_antisymm bounds.2 bounds.1
  have cast : (((d.innerNodes.filter (· ∉ nodes)).map d.count).prod : Rat) =
      ((d.innerNodes.filter (· ∉ nodes)).map fun j => (d.count j : Rat)).prod := by
    rw [Int.cast_list_prod, List.map_map]
    rfl
  rw [← cast] at exact
  exact_mod_cast exact

end Diagram

end InfluenceProgram
