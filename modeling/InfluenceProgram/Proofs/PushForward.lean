import InfluenceProgram.Proofs.Distribution
import InfluenceProgram.Proofs.Unreached

/-!
The distribution of the utility as the image of the path probabilities. Each compatible path carries
its probability to its utility; what arrives at one utility adds up, and nothing else arrives. So
whatever is computed from the utilities alone may be averaged over the distribution or over the
paths.
-/

set_option autoImplicit false

namespace InfluenceProgram.Problem

/-- A path with its utility and its probability. -/
structure Consequence where
  path : Path
  utility : Rat
  probability : Rat

/-- The paths that are compatible with a strategy, with their utilities and probabilities. -/
def consequences (p : Problem Rat) (σ : Strategy) : Except Fault (List Consequence) := do
  (← σ.compatiblePaths p.diagram).mapM fun s =>
    return ⟨s, ← p.utility 0 s, ← p.probability s⟩

variable {p : Problem Rat} {σ : Strategy}

/-- What comes of the compatible paths if none of them fails. -/
def consequencesTaken (p : Problem Rat) (σ : Strategy) : List Consequence :=
  (p.taken σ).map fun s => ⟨s, p.gain 0 s, p.weight s⟩

theorem Weighed.consequences_eq (weighed : p.Weighed) (valued : p.Valued)
    (entered : σ.Entered p.diagram) : p.consequences σ = .ok (p.consequencesTaken σ) := by
  rw [consequences, entered.compatiblePaths_eq, Success.ok_bind]
  refine Success.mapM_eq fun s member => ?_
  have path := List.mem_of_mem_filter member
  rw [valued.utility_eq 0 path, Success.ok_bind, weighed.probability_eq path]
  rfl

/-- The mass of a utility is the probability of the consequences that have it. -/
theorem mass_eq_sum_consequences (p : Problem Rat) (σ : Strategy) (u : Rat) :
    p.mass σ u = (((p.consequencesTaken σ).filter (·.utility = u)).map (·.probability)).sum := by
  rw [mass, List.sum_map_ite, consequencesTaken, List.filter_map, List.map_map]
  simp [Function.comp_def]

/-- The utilities of the distribution ascend strictly and have positive probabilities. They are
those of the possible compatible paths, each with the total probability of the paths that have it,
and any function of the utility has the same mean over the distribution as over these paths. -/
theorem utility_pushed_forward {M : Type*} [AddCommMonoid M] [Module Rat M]
    (accepted : p.Accepted) (entered : σ.Entered p.diagram) :
    ∃ consequences entries, p.consequences σ = .ok consequences ∧
      σ.compatiblePaths p.diagram = .ok (consequences.map (·.path)) ∧
      p.utilityDistribution σ = .ok entries ∧
      (entries.map (·.1)).Pairwise (· < ·) ∧ (∀ m ∈ entries.map (·.2), 0 < m) ∧
      (∀ u, u ∈ entries.map (·.1) ↔ ∃ c ∈ consequences, 0 < c.probability ∧ c.utility = u) ∧
      (∀ e ∈ entries,
        e.2 = ((consequences.filter (·.utility = e.1)).map (·.probability)).sum) ∧
      ∀ f : Rat → M, (entries.map fun e => e.2 • f e.1).sum =
        ((consequences.filter (0 < ·.probability)).map fun c =>
          c.probability • f c.utility).sum := by
  have weighed := accepted.weighed
  have valued := accepted.valued
  obtain ⟨entries, found, distributed⟩ := valued.utilityDistribution_spec weighed entered
  refine ⟨_, entries, weighed.consequences_eq valued entered, ?_, found, ?_, ?_, fun u => ?_, ?_,
    fun f => ?_⟩
  · rw [entered.compatiblePaths_eq, consequencesTaken, List.map_map]
    exact congrArg Except.ok (List.map_id _).symm
  · exact List.pairwise_map.mpr distributed.ascending
  · exact List.forall_mem_map.mpr fun e member => ((distributed.mem_iff _ _).mp member).1
  · rw [distributed.mem_values, weighed.mass_pos_iff, consequencesTaken]
    simp only [List.mem_map, exists_exists_and_eq_and]
  · intro e member
    rw [← mass_eq_sum_consequences]
    exact ((distributed.mem_iff _ _).mp member).2
  · rw [valued.sum_distribution weighed entered f found, consequencesTaken, List.filter_map,
      List.map_map]
    rfl

/-- The trial is made, and the same is done whatever its result. -/
def withTrial : Strategy := [(1, [([], 1)]), (3, [([1, 1], 2), ([1, 2], 2)])]

/-- Nothing is planned for a trial that is left out, and both results of the trial that is made come
to one utility, where their probabilities add up. -/
theorem trial_pushed_forward : trial.Accepted ∧ withTrial.Entered trial.diagram ∧
    ∃ entries, trial.utilityDistribution withTrial = .ok entries ∧ (1, 1) ∈ entries ∧
      (entries.map fun e => e.2 * (e.1 - 1) ^ 2).sum = 0 := by
  have accepted : trial.Accepted := trial.accepted_iff.mpr (by decide +kernel)
  have entered : withTrial.Entered trial.diagram := by decide +kernel
  obtain ⟨consequences, entries, all, _, found, _, _, utilities, masses, means⟩ :=
    utility_pushed_forward (M := Rat) accepted entered
  rw [accepted.weighed.consequences_eq accepted.valued entered] at all
  cases all
  have both : trial.taken withTrial = [[1, 1, 2], [1, 2, 2]] := by decide +kernel
  have weights : trial.weight [1, 1, 2] = 1 / 2 ∧ trial.weight [1, 2, 2] = 1 / 2 := by
    decide +kernel
  have gains : trial.gain 0 [1, 1, 2] = 1 ∧ trial.gain 0 [1, 2, 2] = 1 := by decide +kernel
  simp only [consequencesTaken, both, List.map_cons, List.map_nil, weights, gains]
    at utilities masses means
  have member : (1 : Rat) ∈ entries.map (·.1) := (utilities 1).mpr (by norm_num)
  obtain ⟨⟨u, m⟩, inside, rfl⟩ := List.mem_map.mp member
  have mass := masses _ inside
  norm_num at mass
  refine ⟨accepted, entered, entries, found, mass ▸ inside, ?_⟩
  have spread := means fun u => (u - 1) ^ 2
  simpa using spread

end InfluenceProgram.Problem
