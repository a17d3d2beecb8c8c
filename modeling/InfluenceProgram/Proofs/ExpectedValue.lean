import InfluenceProgram.Proofs.Optimality

/-!
The expected value of path weights. An objective coefficient is the utility of its path without
what the shift took from every value node, so an expectation can be read off the objective, with
the shift put back, and it is the mean of the distribution if the weights are the probabilities of
the paths.
-/

set_option autoImplicit false

namespace InfluenceProgram

namespace Problem

variable {p : Problem Rat} {σ : Strategy} {weights : Keyed Path Rat}

/-- The shift is taken once from every value node. -/
theorem totalShift_eq (p : Problem Rat) : p.totalShift = p.shifted := by
  rw [totalShift, Scalar.sum_eq, List.map_const', List.sum_replicate, nsmul_eq_mul, shifted]

/-- A sum over weights of paths is one over all paths. -/
theorem sum_weights_eq (distinct : weights.keys.Nodup) (within : ∀ s ∈ weights.keys, s ∈ p.paths)
    (f : Path → Rat) :
    (weights.map fun e => e.2 * f e.1).sum =
      (p.paths.map fun s => (weights.get? s).getD 0 * f s).sum :=
  Keyed.sum_eq_sum_getD distinct (nodup_paths _) within (fun s w => w * f s) fun _ => zero_mul _

/-- The expected value is the sum of the unshifted utilities, each times its weight. -/
theorem Valued.expectedValue_eq (valued : p.Valued) (within : ∀ s ∈ weights.keys, s ∈ p.paths) :
    p.expectedValue weights = .ok (weights.map fun e => e.2 * p.gain 0 e.1).sum := by
  rw [expectedValue, Success.mapM_eq (g := fun e => e.2 * p.gain 0 e.1), Success.ok_bind,
    Scalar.sum_eq]
  · rfl
  · rintro ⟨s, w⟩ member
    dsimp only
    rw [valued.utility_eq _ (within s (Keyed.mem_keys member)), totalShift_eq, gain_eq_sub, shifted]
    exact congrArg (fun u => Except.ok (w * u)) (sub_add_cancel _ _)

/-- The objective at weights of paths loses the shift once for their whole weight. -/
theorem objectiveAt_weights (distinct : weights.keys.Nodup)
    (within : ∀ s ∈ weights.keys, s ∈ p.paths) (node : Int → String) (specs : Specs)
    (name : String) {x : Variable → Rat}
    (assigned : ∀ s ∈ p.paths, x (.path s) = (weights.get? s).getD 0) :
    (p.emitted node specs name).program.objectiveAt x =
      (weights.map fun e => e.2 * p.gain 0 e.1).sum - p.shifted * weights.values.sum := by
  have shares : ∀ s ∈ p.paths, p.gain p.leastUtility s * x (.path s) =
      (weights.get? s).getD 0 * p.gain p.leastUtility s := by
    intro s member
    rw [assigned s member, mul_comm]
  have each : ∀ e : Path × Rat, e.2 * p.gain p.leastUtility e.1 =
      e.2 * p.gain 0 e.1 + -p.shifted * e.2 := by
    intro e
    rw [gain_eq_sub, shifted]
    ring
  rw [objectiveAt_emitted, List.map_congr_left shares, ← sum_weights_eq distinct within,
    Keyed.values]
  simp only [each]
  rw [List.sum_map_add, List.sum_map_mul_left]
  ring

/-- Weights that are the probabilities of the compatible paths have the mean of the strategy. -/
theorem sum_weights_eq_mean (distinct : weights.keys.Nodup)
    (within : ∀ s ∈ weights.keys, s ∈ p.paths)
    (probable : ∀ s ∈ p.paths, (weights.get? s).getD 0 =
      if σ.Takes p.diagram s then p.weight s else 0) :
    (weights.map fun e => e.2 * p.gain 0 e.1).sum = p.mean σ := by
  rw [sum_weights_eq distinct within, sum_paths_eq (σ := σ), mean]
  · congr 1
    apply List.map_congr_left
    intro s member
    obtain ⟨path, takes⟩ := mem_taken.mp member
    rw [probable s path, if_pos takes, mul_comm]
  · intro s member leaves
    rw [probable s member, if_neg leaves, zero_mul]

/-- Every objective coefficient is the utility of its path without the shift and not negative. The
expected value of weights of paths is the sum of the utilities, each times its weight, and the
objective with the shift put back; of the probabilities of the paths compatible with a strategy it
is the mean of the distribution of the utility. -/
theorem expected_values_agree (accepted : p.Accepted) (specs : Specs) (name : String) :
    ∃ (f : Formulation Rat) (U : Path → Rat), Formulation.build specs p name = .ok f ∧
      (∀ s ∈ p.paths, p.utility 0 s = .ok (U s)) ∧
      f.program.objective.map (·.1) = p.paths.map .path ∧
      (∀ s c, (.path s, c) ∈ f.program.objective →
        0 ≤ c ∧ c = U s - p.diagram.value.length * f.leastUtility) ∧
      ∀ weights : Keyed Path Rat, weights.keys.Nodup → (∀ s ∈ weights.keys, s ∈ p.paths) →
        ∃ v, p.expectedValue weights = .ok v ∧ v = (weights.map fun e => e.2 * U e.1).sum ∧
          (∀ x : Variable → Rat, (∀ s ∈ p.paths, x (.path s) = (weights.get? s).getD 0) →
            v = f.program.objectiveAt x +
              p.diagram.value.length * f.leastUtility * weights.values.sum) ∧
          ∀ σ : Strategy, σ.Complete p.diagram →
            ∃ compatible, σ.compatiblePaths p.diagram = .ok compatible ∧
              ((∀ s ∈ p.paths, ∃ weight, p.probability s = .ok weight ∧
                (weights.get? s).getD 0 = if s ∈ compatible then weight else 0) →
              ∃ distribution, p.utilityDistribution σ = .ok distribution ∧
                v = (distribution.map fun e => e.1 * e.2).sum) := by
  have weighed := accepted.weighed
  have valued := accepted.valued
  refine ⟨_, p.gain 0, weighed.buildBy_eq valued toString specs name,
    fun s member => valued.utility_eq 0 member, ?_, ?_, ?_⟩
  · simp only [emitted, List.map_map, Function.comp_def]
  · intro s c member
    obtain ⟨t, path, same⟩ := List.mem_map.mp member
    cases same
    exact ⟨valued.gain_nonneg path, gain_eq_sub p p.leastUtility s⟩
  · intro weights distinct within
    refine ⟨_, valued.expectedValue_eq within, rfl, ?_, ?_⟩
    · intro x assigned
      rw [objectiveAt_weights distinct within toString specs name assigned]
      exact (sub_add_cancel _ _).symm
    · intro σ complete
      refine ⟨p.taken σ, complete.entered.compatiblePaths_eq, fun probable => ?_⟩
      obtain ⟨distribution, found, mean⟩ :=
        Success.bind_iff.mp (valued.expectedUtility_eq weighed complete.entered)
      refine ⟨distribution, found, ?_⟩
      rw [Except.ok.inj mean]
      refine sum_weights_eq_mean distinct within fun s member => ?_
      obtain ⟨weight, weighs, share⟩ := probable s member
      rw [weighed.probability_eq member] at weighs
      cases weighs
      simpa only [mem_taken, and_iff_right member] using share

/-- The umbrella problem where nothing is won and up to three are lost. -/
def losses : Problem Rat :=
  { umbrella with utilities := [(3, ⟨[2, 2], #[-1, -2, -3, 0], rfl⟩)] }

theorem losses_accepted : losses.Accepted := losses.accepted_iff.mpr (by decide +kernel)

/-- The probabilities of the paths that the careful choices lead to. -/
def carefulWeights : Keyed Path Rat := [([1, 1], 3 / 10), ([2, 2], 7 / 10)]

/-- The careful choices lose 3/10 in the mean, and the objective is by the shift above this. -/
theorem losses_values_agree : ∃ f v distribution, Formulation.build {} losses "losses" = .ok f ∧
    losses.expectedValue carefulWeights = .ok v ∧ v = -3 / 10 ∧
    v = f.program.objectiveAt umbrellaTaken + f.leastUtility ∧
    losses.utilityDistribution Strategy.careful = .ok distribution ∧
    v = (distribution.map fun e => e.1 * e.2).sum := by
  have weighed := losses_accepted.weighed
  have valued := losses_accepted.valued
  obtain ⟨f, U, built, utilities, _, _, agree⟩ :=
    expected_values_agree losses_accepted {} "losses"
  obtain ⟨v, found, total, objective, strategies⟩ :=
    agree carefulWeights (by decide) (by decide)
  have complete : Strategy.careful.Complete losses.diagram := Strategy.careful_complete
  obtain ⟨compatible, taken, distributed⟩ := strategies _ complete
  rw [complete.entered.compatiblePaths_eq] at taken
  cases taken
  obtain ⟨distribution, spread, mean⟩ := distributed fun s member =>
    ⟨losses.weight s, weighed.probability_eq member, by
      revert s
      decide +kernel⟩
  have gains : ∀ s ∈ losses.paths, U s = losses.gain 0 s := fun s member =>
    Except.ok.inj ((utilities s member).symm.trans (valued.utility_eq 0 member))
  refine ⟨f, v, distribution, built, found, ?_, ?_, spread, mean⟩
  · rw [total, carefulWeights, List.map_cons, List.map_cons, List.map_nil, gains [1, 1] (by decide),
      gains [2, 2] (by decide)]
    decide +kernel
  · have whole : carefulWeights.values.sum = 1 := by decide +kernel
    have single : losses.diagram.value.length = 1 := rfl
    rw [objective umbrellaTaken (by decide +kernel), whole, single, Nat.cast_one, one_mul, mul_one]

end Problem

end InfluenceProgram
