import InfluenceProgram.Analysis.Risk
import InfluenceProgram.Proofs.Success

/-!
Risk measures of distributions that are not empty. Putting the utilities in order keeps each with
its probability, so there is a utility at every place a quantile can be found at, and no measure
of an admissible level fails.
-/

set_option autoImplicit false

namespace InfluenceProgram.Risk

variable {utilities probabilities : List Rat} {pairs : List (Rat × Rat)} {level : Rat}

/-- Arranging changes the order of the utilities alone; each keeps its probability. -/
theorem arranged_perm (same : utilities.length = probabilities.length) :
    ∃ pairs, arranged utilities probabilities = .ok pairs ∧
      pairs.Perm (utilities.zip probabilities) := by
  have placed : utilities.zipIdx.map (fun e => (e.1, probabilities.getD e.2 0)) =
      utilities.zip probabilities := by
    apply List.ext_getElem
    · rw [List.length_map, List.length_zipIdx, List.length_zip, ← same, min_self]
    · intro k _ inside
      have place : k < probabilities.length := (List.lt_length_right_of_zip inside)
      simp only [List.getElem_map, List.getElem_zipIdx, List.getElem_zip, zero_add,
        List.getD_eq_getElem _ _ place]
  have sorted := List.mergeSort_perm utilities.zipIdx fun a b => notAbove a.1 b.1
  refine ⟨(utilities.zipIdx.mergeSort fun a b => notAbove a.1 b.1).map fun e =>
    (e.1, probabilities.getD e.2 0), ?_, placed ▸ sorted.map _⟩
  refine Success.mapM_eq fun e member => ?_
  have place : e.2 < probabilities.length := by
    have inside := List.snd_lt_of_mem_zipIdx (sorted.mem_iff.mp member)
    omega
  simp only [List.getElem?_eq_getElem place, List.getD_eq_getElem _ _ place]

theorem notAbove_iff {a b : Rat} : notAbove a b = true ↔ a ≤ b := by
  rw [notAbove, beq_self_eq_true, Bool.not_true, Bool.or_false, decide_eq_true_eq]

/-- The utilities are put in ascending order. -/
theorem arranged_sorted (found : arranged utilities probabilities = .ok pairs) :
    pairs.Pairwise fun a b => a.1 ≤ b.1 := by
  have ordered : (utilities.zipIdx.mergeSort fun a b => notAbove a.1 b.1).Pairwise
      fun a b => notAbove a.1 b.1 := List.pairwise_mergeSort
    (fun a b c => by simpa only [notAbove_iff] using le_trans)
    (fun a b => by simpa only [Bool.or_eq_true, notAbove_iff] using le_total a.1 b.1)
    utilities.zipIdx
  have same : (utilities.zipIdx.mergeSort fun a b => notAbove a.1 b.1).map (·.1) =
      pairs.map (·.1) := by
    rw [← List.forall₂_eq_eq_eq, List.forall₂_map_left_iff, List.forall₂_map_right_iff]
    refine (Success.mapM_iff.mp found).imp fun e entry placed => ?_
    dsimp only at placed
    split at placed
    · cases placed
      rfl
    · cases placed
  have utilitiesOrdered : (pairs.map (·.1)).Pairwise (· ≤ ·) := by
    rw [← same, List.pairwise_map]
    simpa only [notAbove_iff] using ordered
  exact List.pairwise_map.mp utilitiesOrdered

/-- Utilities that are in ascending order stay where they are. -/
theorem arranged_of_sorted (sorted : pairs.Pairwise fun a b => a.1 ≤ b.1) :
    arranged (pairs.map (·.1)) (pairs.map (·.2)) = .ok pairs := by
  have utilities : ((pairs.map (·.1)).zipIdx.map (·.1)).Pairwise (· ≤ ·) := by
    rwa [List.zipIdx_map_fst, List.pairwise_map]
  have ordered : (pairs.map (·.1)).zipIdx.Pairwise fun a b => notAbove a.1 b.1 := by
    simpa only [notAbove_iff] using List.pairwise_map.mp utilities
  rw [arranged, List.mergeSort_of_pairwise ordered, Success.mapM_iff, List.forall₂_iff_get]
  refine ⟨by rw [List.length_zipIdx, List.length_map], fun k _ inside => ?_⟩
  simp only [List.get_eq_getElem, List.getElem_zipIdx, zero_add, List.getElem_map,
    List.getElem?_map, List.getElem?_eq_getElem inside, Option.map_some]

/-- A quantile of some utilities is one of them. -/
theorem quantileOf_mem (some : utilities ≠ []) (probabilities : List Rat) (level : Rat) :
    ∃ u ∈ utilities, quantileOf utilities probabilities level = .ok u := by
  have length := List.length_pos_iff.mpr some
  unfold quantileOf
  dsimp only
  generalize firstReaching (Scalar.cumulative probabilities) _ _ _ = k
  have place : min k (utilities.length - 1) < utilities.length := by omega
  refine ⟨utilities[min k (utilities.length - 1)], List.getElem_mem place, ?_⟩
  rw [List.getElem?_eq_getElem place]

theorem checkLevel_eq (low : 0 < level) (high : level ≤ 1) : checkLevel level = .ok () :=
  if_pos ⟨low, high⟩

/-- The value at risk of utilities in order is their quantile. -/
theorem valueAtRisk_arranged (found : arranged utilities probabilities = .ok pairs)
    (low : 0 < level) (high : level ≤ 1) :
    valueAtRisk (pairs.map (·.1)) (pairs.map (·.2)) level = quantile pairs level := by
  rw [valueAtRisk, checkLevel_eq low high, Success.ok_bind,
    arranged_of_sorted (arranged_sorted found), Success.ok_bind]

/-- The utilities in order have a quantile. -/
theorem quantile_arranged (some : utilities ≠ []) (same : utilities.length = probabilities.length)
    (level : Rat) : ∃ pairs u, arranged utilities probabilities = .ok pairs ∧
      quantile pairs level = .ok u ∧ u ∈ utilities := by
  obtain ⟨pairs, found, perm⟩ := arranged_perm same
  have kept : (pairs.map (·.1)).Perm utilities := by
    rw [← List.map_fst_zip same.le]
    exact perm.map _
  have present : pairs.map (·.1) ≠ [] := by
    intro empty
    rw [empty] at kept
    exact some kept.nil_eq.symm
  obtain ⟨u, member, value⟩ := quantileOf_mem present (pairs.map (·.2)) level
  exact ⟨pairs, u, found, value, kept.mem_iff.mp member⟩

/-- The value at risk is one of the utilities. -/
theorem valueAtRisk_mem (some : utilities ≠ []) (same : utilities.length = probabilities.length)
    (low : 0 < level) (high : level ≤ 1) :
    ∃ u ∈ utilities, valueAtRisk utilities probabilities level = .ok u := by
  obtain ⟨pairs, u, found, value, member⟩ := quantile_arranged some same level
  refine ⟨u, member, ?_⟩
  rw [valueAtRisk, checkLevel_eq low high, Success.ok_bind, found, Success.ok_bind, value]

theorem conditionalValueAtRisk_ok (some : utilities ≠ [])
    (same : utilities.length = probabilities.length) (low : 0 < level) (high : level ≤ 1) :
    ∃ v, conditionalValueAtRisk utilities probabilities level = .ok v := by
  obtain ⟨pairs, u, found, value, _⟩ := quantile_arranged some same level
  rw [conditionalValueAtRisk, checkLevel_eq low high, Success.ok_bind, found, Success.ok_bind,
    valueAtRisk_arranged found low high, value]
  exact ⟨_, rfl⟩

end InfluenceProgram.Risk
