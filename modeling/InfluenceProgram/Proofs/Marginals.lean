import InfluenceProgram.Proofs.TotalProbability

/-!
The probabilities of the states of the nodes. Each is the total probability of the compatible paths
with that state, and a sum over the compatible paths is one over all paths, where the strategy is
part of the kernel.
-/

set_option autoImplicit false

namespace InfluenceProgram

/-- The inner nodes with their state counts and their places on a path. -/
theorem Diagram.zipIdx_innerNodes (d : Diagram) :
    (d.innerNodes.zip d.counts).zipIdx =
      (List.range d.inner).map fun (k : Nat) => (((k : Int) + 1, d.count (k + 1)), k) := by
  have length : (d.innerNodes.zip d.counts).length = d.inner := by
    rw [List.length_zip, d.counts_length, innerNodes, span, List.length_map, List.length_range,
      min_self]
  apply List.ext_getElem
  · rw [List.length_zipIdx, length, List.length_map, List.length_range]
  · intro k inside _
    rw [List.length_zipIdx, length, ← d.counts_length] at inside
    have place : ((k : Int) + 1 - 1).toNat = k := by omega
    simp only [List.getElem_zipIdx, List.getElem_zip, innerNodes, span, List.getElem_map,
      List.getElem_range, count, Path.stateAt, place, List.getD_eq_getElem _ _ inside,
      Int.ofNat_eq_natCast, add_comm (1 : Int), zero_add]

namespace Problem

/-- The total probability of the compatible paths that have a state at a node. -/
def marginal (p : Problem Rat) (σ : Strategy) (j x : Int) : Rat :=
  ((p.taken σ).map fun s => if s.stateAt j = x then p.weight s else 0).sum

variable {p : Problem Rat} {σ : Strategy}

theorem Weighed.stateProbabilities_spec (weighed : p.Weighed) (entered : σ.Entered p.diagram) :
    p.stateProbabilities σ = .ok (p.diagram.innerNodes.map fun j =>
      (j, (states (p.diagram.count j)).map (p.marginal σ j))) := by
  rw [stateProbabilities, weighed.weightedPaths_eq entered, Success.ok_bind,
    p.diagram.zipIdx_innerNodes, Diagram.innerNodes, span, List.map_map, List.map_map]
  refine congrArg Except.ok (List.map_congr_left fun k below => ?_)
  simp only [Function.comp_apply, Int.ofNat_eq_natCast, add_comm (1 : Int)]
  refine congrArg (Prod.mk _) (List.map_congr_left fun x _ => ?_)
  have here : ∀ s ∈ p.taken σ, (s[k]? == some x) = decide (s.stateAt (k + 1) = x) := by
    intro s member
    have inside : k < s.length := by
      rw [Diagram.length_of_path (mem_taken.mp member).1]
      exact List.mem_range.mp below
    have place : ((k : Int) + 1 - 1).toNat = k := by omega
    rw [Path.stateAt, place, List.getD_eq_getElem _ _ inside, List.getElem?_eq_getElem inside,
      Bool.eq_iff_iff]
    simp
  rw [Scalar.sum_eq, List.filter_map, List.map_map, marginal, List.sum_map_ite]
  simp only [Function.comp_def, List.map_const', List.sum_replicate, smul_zero, add_zero]
  rw [List.filter_congr here]

/-- With the strategy in the kernel, a sum over the compatible paths is one over all paths. -/
theorem sum_under (p : Problem Rat) (σ : Strategy) (f : Path → Rat) :
    (p.paths.map fun s =>
      f s * (p.conditional.under p.diagram σ).along p.diagram p.diagram.innerNodes s).sum =
        ((p.taken σ).map fun s => f s * p.weight s).sum := by
  have outside : ∀ s ∈ p.paths, ¬σ.Takes p.diagram s →
      f s * (p.conditional.under p.diagram σ).along p.diagram p.diagram.innerNodes s = 0 := by
    intro s _ leaves
    rw [Kernel.along_under, if_neg leaves, mul_zero]
  rw [sum_paths_eq outside]
  congr 1
  apply List.map_congr_left
  intro s member
  rw [Kernel.along_under, if_pos (mem_taken.mp member).2]
  rfl

end Problem

end InfluenceProgram
