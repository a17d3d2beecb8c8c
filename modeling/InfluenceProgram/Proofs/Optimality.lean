import InfluenceProgram.Proofs.CutRow
import InfluenceProgram.Proofs.Expectation

/-!
Optimal assignments of a decision model with exact tables. The strategy that is read off an optimal
assignment has the greatest expected utility of all complete strategies, and the objective is this
utility without what the shift took from it.
-/

set_option autoImplicit false

namespace InfluenceProgram

/-- An assignment is optimal if it is feasible and no feasible one is better. -/
def Program.Optimal (P : Program Variable Rat) (x : Variable → Rat) : Prop :=
  P.feasible 0 x = true ∧
    ∀ y, P.feasible 0 y = true → P.better (P.objectiveAt y) (P.objectiveAt x) = false

theorem Program.better_eq_false_iff {P : Program Variable Rat} (maximize : P.maximize = true)
    (a b : Rat) : P.better a b = false ↔ a ≤ b := by
  rw [better, maximize, if_pos rfl, decide_eq_false_iff_not, not_lt]

/-- A program with one more row. -/
def Program.withRow (P : Program Variable Rat) (r : Row Variable Rat) : Program Variable Rat :=
  { P with rows := P.rows ++ [r] }

theorem Program.feasible_withRow (P : Program Variable Rat) (r : Row Variable Rat)
    (x : Variable → Rat) :
    (P.withRow r).feasible 0 x = true ↔ P.feasible 0 x = true ∧ r.holds 0 x = true := by
  simp only [feasible, withRow, List.all_append, List.all_cons, List.all_nil, Bool.and_true,
    Bool.and_eq_true, and_assoc]

/-- The strategy that takes the first state everywhere. -/
def Strategy.firstStates (d : Diagram) : Strategy :=
  d.decision.map fun j => (j, (d.contexts j).map fun c => (c, 1))

theorem Strategy.firstStates_complete (d : Diagram) : (firstStates d).Complete d := by
  change (tabulate d fun _ _ => 1).Complete d
  apply tabulate_complete
  intro j decision _ _
  have range := d.inner_of_decision decision
  exact mem_states.mpr ⟨le_rfl, d.count_pos range.1 range.2⟩

namespace Problem

variable {p : Problem Rat} {σ : Strategy} {x : Variable → Rat}

/-- Only finitely many sets of paths are compatible with a strategy, so one strategy is best for any
value of such sets. -/
theorem exists_best_taken (p : Problem Rat) (value : List Path → Rat) :
    ∃ σ : Strategy, σ.Complete p.diagram ∧
      ∀ τ : Strategy, τ.Complete p.diagram → value (p.taken τ) ≤ value (p.taken σ) := by
  let reached : Set (List Path) := {taken | ∃ σ, σ.Complete p.diagram ∧ p.taken σ = taken}
  have finite : reached.Finite := by
    apply (List.finite_toSet p.paths.sublists).subset
    rintro taken ⟨σ, _, rfl⟩
    exact List.mem_sublists.mpr List.filter_sublist
  have nonempty : reached.Nonempty := ⟨_, _, Strategy.firstStates_complete p.diagram, rfl⟩
  obtain ⟨_, ⟨σ, complete, rfl⟩, best⟩ := reached.exists_max_image value finite nonempty
  exact ⟨σ, complete, fun τ other => best _ ⟨τ, other, rfl⟩⟩

theorem exists_best (p : Problem Rat) : ∃ σ : Strategy, σ.Complete p.diagram ∧
    ∀ τ : Strategy, τ.Complete p.diagram → p.mean τ ≤ p.mean σ :=
  p.exists_best_taken fun taken => (taken.map fun s => p.gain 0 s * p.weight s).sum

/-- The utility that the shift takes from the expectation of any strategy. -/
def shifted (p : Problem Rat) : Rat := p.diagram.value.length * p.leastUtility

/-- The probabilities of the compatible paths add up to one, so the shift is taken once. -/
theorem Weighed.sum_gain (weighed : p.Weighed) (normalized : p.Normalized)
    (complete : σ.Complete p.diagram) :
    ((p.taken σ).map fun s => p.gain p.leastUtility s * p.weight s).sum =
      p.mean σ - p.shifted := by
  have each : ∀ s, p.gain p.leastUtility s * p.weight s =
      p.gain 0 s * p.weight s + -p.shifted * p.weight s := by
    intro s
    rw [gain_eq_sub, shifted]
    ring
  simp only [each]
  rw [List.sum_map_add, List.sum_map_mul_left, weighed.sum_weight normalized complete, mean]
  ring

/-- A program over the paths and choices of a problem that keeps the full points of all complete
strategies, whatever else it keeps of the decision model, and has the objective of it. -/
structure Models (p : Problem Rat) (P : Program Variable Rat) : Prop where
  feasible : ∀ x, P.feasible 0 x = true → p.Feasible x
  full : ∀ σ : Strategy, σ.Complete p.diagram → P.feasible 0 (p.point σ 1) = true
  objective : ∀ x, P.objectiveAt x =
    (p.paths.map fun s => p.gain p.leastUtility s * x (.path s)).sum
  maximize : P.maximize = true

theorem Weighed.models_emitted (weighed : p.Weighed) (normalized : p.Normalized)
    (node : Int → String) (specs : Specs) (name : String) :
    p.Models (p.emitted node specs name).program where
  feasible _ admitted := feasible_emitted_iff.mp admitted
  full _ complete := feasible_emitted_iff.mpr
    (weighed.point_feasible normalized complete zero_le_one le_rfl)
  objective := p.objectiveAt_emitted node specs name
  maximize := rfl

/-- The full points satisfy the row of the probability sum, so it can be added. -/
theorem Weighed.models_withRow (weighed : p.Weighed) (normalized : p.Normalized)
    {P : Program Variable Rat} (models : p.Models P) : p.Models (P.withRow p.sumRow) where
  feasible x admitted := models.feasible x ((P.feasible_withRow _ x).mp admitted).1
  full σ complete := by
    have full := models.full σ complete
    refine (P.feasible_withRow _ _).mpr ⟨full, ?_⟩
    rw [Row.holds]
    refine (holds_exactly_iff _ _).mpr ((weighed.sumRow_le normalized complete
      (p.point_encodes σ 1) (models.feasible _ full)).2.mpr ?_)
    intro s member
    rw [point_of_taken 1 member, one_mul]
  objective := models.objective
  maximize := models.maximize

namespace Models

variable {P : Program Variable Rat}

/-- Only compatible paths contribute to the objective. -/
theorem objective_eq (models : p.Models P)
    (outside : ∀ s ∈ p.paths, ¬σ.Takes p.diagram s → x (.path s) = 0) :
    P.objectiveAt x = ((p.taken σ).map fun s => p.gain p.leastUtility s * x (.path s)).sum := by
  rw [models.objective]
  apply sum_paths_eq
  intro s member leaves
  rw [outside s member leaves, mul_zero]

theorem objective_point (models : p.Models P) (weighed : p.Weighed) (normalized : p.Normalized)
    (complete : σ.Complete p.diagram) : P.objectiveAt (p.point σ 1) = p.mean σ - p.shifted := by
  have inside : ∀ s ∈ p.taken σ, p.gain p.leastUtility s * p.point σ 1 (.path s) =
      p.gain p.leastUtility s * p.weight s := by
    intro s member
    rw [point_of_taken 1 member, one_mul]
  rw [models.objective_eq (p.point_outside σ 1), List.map_congr_left inside,
    weighed.sum_gain normalized complete]

/-- Gains are not negative, so an assignment gets the most from full compatible paths. -/
theorem objective_le (models : p.Models P) (weighed : p.Weighed) (valued : p.Valued)
    (normalized : p.Normalized) (complete : σ.Complete p.diagram)
    (encodes : σ.Encodes p.diagram x) (admitted : P.feasible 0 x = true) :
    P.objectiveAt x ≤ p.mean σ - p.shifted := by
  obtain ⟨within, outside⟩ := (weighed.feasible_iff_of_normalized normalized complete encodes).mp
    (models.feasible x admitted)
  rw [models.objective_eq outside, ← weighed.sum_gain normalized complete]
  refine List.sum_le_sum fun s member => ?_
  exact mul_le_mul_of_nonneg_left (within s member).2 (valued.gain_nonneg (mem_taken.mp member).1)

/-- The full point of a best strategy is optimal. -/
theorem exists_optimal (models : p.Models P) (weighed : p.Weighed) (valued : p.Valued)
    (normalized : p.Normalized) : ∃ x, P.Optimal x := by
  obtain ⟨σ, complete, best⟩ := p.exists_best
  refine ⟨p.point σ 1, models.full σ complete, fun y admitted => ?_⟩
  obtain ⟨τ, _, other, encodes⟩ := (models.feasible y admitted).decode_eq toString {} ""
  rw [Program.better_eq_false_iff models.maximize,
    models.objective_point weighed normalized complete]
  calc
    P.objectiveAt y ≤ p.mean τ - p.shifted :=
      models.objective_le weighed valued normalized other encodes admitted
    _ ≤ p.mean σ - p.shifted := sub_le_sub_right (best τ other) _

/-- What is read off an optimal assignment is a best strategy, and the objective is its mean. -/
theorem optimal_spec (models : p.Models P) (weighed : p.Weighed) (valued : p.Valued)
    (normalized : p.Normalized) (optimal : P.Optimal x) (complete : σ.Complete p.diagram)
    (encodes : σ.Encodes p.diagram x) :
    (∀ τ : Strategy, τ.Complete p.diagram → p.mean τ ≤ p.mean σ) ∧
      P.objectiveAt x = p.mean σ - p.shifted := by
  have most := models.objective_le weighed valued normalized complete encodes optimal.1
  have least : ∀ τ : Strategy, τ.Complete p.diagram → p.mean τ - p.shifted ≤ P.objectiveAt x := by
    intro τ other
    rw [← models.objective_point weighed normalized other]
    exact (Program.better_eq_false_iff models.maximize _ _).mp (optimal.2 _ (models.full τ other))
  refine ⟨fun τ other => ?_, le_antisymm most (least σ complete)⟩
  have between := (least τ other).trans most
  linarith

end Models

/-- An optimal assignment of the decision model exists, with or without the row of the probability
sum, and the strategy that is read off any of them has the greatest expected utility. -/
theorem optimal_decodes_best (accepted : p.Accepted) (normalized : p.Normalized) (specs : Specs)
    (name : String) :
    ∃ f row, Formulation.build specs p name = .ok f ∧ f.cutRow .probabilitySum = .ok row ∧
      ∀ P ∈ [f.program, f.program.withRow row], (∃ x, P.Optimal x) ∧
        ∀ x, P.Optimal x → ∃ σ u, f.decode x = .ok σ ∧ σ.Complete p.diagram ∧
          p.expectedUtility σ = .ok u ∧
          (∀ τ : Strategy, τ.Complete p.diagram →
            ∃ v, p.expectedUtility τ = .ok v ∧ v ≤ u) ∧
          P.objectiveAt x = u - p.diagram.value.length * f.leastUtility := by
  have weighed := accepted.weighed
  have valued := accepted.valued
  refine ⟨_, p.sumRow, weighed.buildBy_eq valued toString specs name, rfl, ?_⟩
  have emitted := weighed.models_emitted normalized toString specs name
  intro P among
  have models : p.Models P := by
    rcases List.mem_cons.mp among with rfl | among
    · exact emitted
    · rw [List.mem_singleton.mp among]
      exact weighed.models_withRow normalized emitted
  refine ⟨models.exists_optimal weighed valued normalized, fun x optimal => ?_⟩
  obtain ⟨σ, decoded, complete, encodes⟩ :=
    (models.feasible x optimal.1).decode_eq toString specs name
  have spec := models.optimal_spec weighed valued normalized optimal complete encodes
  refine ⟨σ, p.mean σ, decoded, complete, valued.expectedUtility_eq weighed complete.entered, ?_,
    spec.2⟩
  intro τ other
  exact ⟨p.mean τ, valued.expectedUtility_eq weighed other.entered, spec.1 τ other⟩

/-- Taking the umbrella in any weather is worth 27/10, so an optimum is worth no less. -/
theorem umbrella_optimum : ∃ f row x σ u, Formulation.build {} umbrella "umbrella" = .ok f ∧
    f.cutRow .probabilitySum = .ok row ∧ (f.program.withRow row).Optimal x ∧
      f.decode x = .ok σ ∧ umbrella.expectedUtility σ = .ok u ∧ 27 / 10 ≤ u ∧
        (f.program.withRow row).objectiveAt x = u - 1 * f.leastUtility := by
  obtain ⟨f, row, built, first, optima⟩ :=
    optimal_decodes_best umbrella_accepted umbrella_normalized {} "umbrella"
  obtain ⟨⟨x, optimal⟩, reads⟩ := optima (f.program.withRow row) (by simp)
  obtain ⟨σ, u, decoded, _, mean, best, objective⟩ := reads x optimal
  have always : Strategy.Complete [(2, [([1], 2), ([2], 2)])] umbrella.diagram := by decide
  obtain ⟨v, other, below⟩ := best _ always
  rw [umbrella_accepted.valued.expectedUtility_eq umbrella_accepted.weighed always.entered,
    Except.ok.injEq] at other
  have worth : umbrella.mean [(2, [([1], 2), ([2], 2)])] = 27 / 10 := by decide +kernel
  refine ⟨f, row, x, σ, u, built, first, optimal, decoded, mean, ?_, ?_⟩
  · rw [← worth, other]
    exact below
  · exact_mod_cast objective

end Problem

end InfluenceProgram
