import InfluenceProgram.Proofs.Optimality

/-!
Optimal assignments when tables are exact up to the tolerance only. No gain is negative, so of all
assignments with the choices of one strategy the fullest is best: it gives every compatible path
all that its column and its choices leave to it. The fullest assignment of a best strategy is
optimal.
-/

set_option autoImplicit false

namespace InfluenceProgram.Problem

/-- The choices of a strategy, and every compatible path with as much as it can have. -/
def fullest (p : Problem Rat) (σ : Strategy) : Variable → Rat :=
  σ.assignment fun s => if σ.Takes p.diagram s then p.cap (p.weight s) else 0

/-- What the compatible paths gain if each has as much as it can have. -/
def worth (p : Problem Rat) (taken : List Path) : Rat :=
  (taken.map fun s => p.gain p.leastUtility s * p.cap (p.weight s)).sum

variable {p : Problem Rat} {σ : Strategy} {x : Variable → Rat}

theorem fullest_path (p : Problem Rat) (σ : Strategy) (s : Path) :
    p.fullest σ (.path s) = if σ.Takes p.diagram s then p.cap (p.weight s) else 0 := rfl

theorem cap_nonneg (p : Problem Rat) {weight : Rat} (nonneg : 0 ≤ weight) : 0 ≤ p.cap weight := by
  unfold cap
  split
  · exact nonneg
  · exact le_min nonneg zero_le_one

theorem Weighed.fullest_feasible (weighed : p.Weighed) (complete : σ.Complete p.diagram) :
    p.Feasible (p.fullest σ) := by
  have encodes : σ.Encodes p.diagram (p.fullest σ) := σ.assignment_encodes _ p.diagram
  refine (weighed.feasible_iff complete encodes).mpr fun s member => ?_
  rw [fullest_path]
  split
  · exact ⟨p.cap_nonneg (weighed.weight_nonneg member), le_rfl⟩
  · rfl

theorem objectiveAt_fullest (p : Problem Rat) (σ : Strategy) (node : Int → String) (specs : Specs)
    (name : String) :
    (p.emitted node specs name).program.objectiveAt (p.fullest σ) = p.worth (p.taken σ) := by
  rw [objectiveAt_emitted, sum_paths_eq (σ := σ), worth]
  · congr 1
    apply List.map_congr_left
    intro s member
    rw [fullest_path, if_pos (mem_taken.mp member).2]
  · intro s _ leaves
    rw [fullest_path, if_neg leaves, mul_zero]

/-- No feasible assignment with the choices of a strategy is better than the fullest one. -/
theorem Valued.objectiveAt_le_worth (valued : p.Valued) (weighed : p.Weighed)
    (complete : σ.Complete p.diagram) (encodes : σ.Encodes p.diagram x) (feasible : p.Feasible x)
    (node : Int → String) (specs : Specs) (name : String) :
    (p.emitted node specs name).program.objectiveAt x ≤ p.worth (p.taken σ) := by
  have shares := (weighed.feasible_iff complete encodes).mp feasible
  rw [objectiveAt_emitted, sum_paths_eq (σ := σ), worth]
  · refine List.sum_le_sum fun s member => ?_
    obtain ⟨path, takes⟩ := mem_taken.mp member
    have share := shares s path
    rw [if_pos takes] at share
    exact mul_le_mul_of_nonneg_left share.2 (valued.gain_nonneg path)
  · intro s member leaves
    have share := shares s member
    rw [if_neg leaves] at share
    rw [share, mul_zero]

/-- The decision model of a checked problem has an optimal assignment. -/
theorem Valued.exists_optimal (valued : p.Valued) (weighed : p.Weighed) (node : Int → String)
    (specs : Specs) (name : String) : ∃ x, (p.emitted node specs name).program.Optimal x := by
  obtain ⟨σ, complete, best⟩ := p.exists_best_taken p.worth
  refine ⟨p.fullest σ, feasible_emitted_iff.mpr (weighed.fullest_feasible complete),
    fun y admitted => ?_⟩
  have feasible := feasible_emitted_iff.mp admitted
  obtain ⟨τ, _, other, encodes⟩ := feasible.decode_eq node specs name
  rw [Program.better_eq_false_iff rfl, objectiveAt_fullest]
  exact (valued.objectiveAt_le_worth weighed other encodes feasible node specs name).trans
    (best τ other)

end InfluenceProgram.Problem
