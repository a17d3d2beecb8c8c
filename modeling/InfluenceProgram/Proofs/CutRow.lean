import InfluenceProgram.Proofs.Following
import InfluenceProgram.Proofs.TotalProbability

/-!
The rows of the cuts in a problem with exact tables. No feasible assignment gives more than one to
the row of the probability sum, or more than the number of possible compatible paths to the row of
the path count, and it takes all of the probability of every compatible path to give so much.
-/

set_option autoImplicit false

namespace InfluenceProgram.Problem

variable {p : Problem Rat} {σ : Strategy} {x : Variable → Rat}

theorem Weighed.weight_le_one (weighed : p.Weighed) (normalized : p.Normalized)
    (complete : σ.Complete p.diagram) {s : Path} (member : s ∈ p.taken σ) : p.weight s ≤ 1 := by
  rw [← weighed.sum_weight normalized complete]
  apply List.single_le_sum
  · intro weight present
    obtain ⟨t, inside, rfl⟩ := List.mem_map.mp present
    exact weighed.weight_nonneg (mem_taken.mp inside).1
  · exact List.mem_map_of_mem member

theorem Weighed.feasible_iff_of_normalized (weighed : p.Weighed) (normalized : p.Normalized)
    (complete : σ.Complete p.diagram) (encodes : σ.Encodes p.diagram x) :
    p.Feasible x ↔ (∀ s ∈ p.taken σ, 0 ≤ x (.path s) ∧ x (.path s) ≤ p.weight s) ∧
      ∀ s ∈ p.paths, ¬σ.Takes p.diagram s → x (.path s) = 0 := by
  have capped : ∀ s ∈ p.taken σ, p.cap (p.weight s) = p.weight s := by
    intro s member
    rw [cap, min_eq_left (weighed.weight_le_one normalized complete member), ite_self]
  rw [weighed.feasible_iff complete encodes]
  constructor
  · intro shares
    constructor
    · intro s member
      have share := shares s (mem_taken.mp member).1
      rwa [if_pos (mem_taken.mp member).2, capped s member] at share
    · intro s member leaves
      have share := shares s member
      rwa [if_neg leaves] at share
  · rintro ⟨within, outside⟩ s member
    split
    · rename_i takes
      have taken := mem_taken.mpr ⟨member, takes⟩
      rw [capped s taken]
      exact within s taken
    · rename_i leaves
      exact outside s member leaves

/-- The row of the probability sum. -/
def sumRow (p : Problem Rat) : Row Variable Rat :=
  { name := "cut", terms := p.paths.map fun s => (.path s, 1), sense := .exactly, rhs := 1 }

/-- The row of the path count. -/
def countRow (p : Problem Rat) (number : Nat) : Row Variable Rat :=
  { name := "cut",
    terms := p.paths.flatMap fun s =>
      if 0 < p.weight s then [(.path s, 1 / p.weight s)] else [],
    sense := .exactly, rhs := number }

/-- The share of its probability that a path has; impossible paths have none. -/
def fraction (p : Problem Rat) (x : Variable → Rat) (s : Path) : Rat :=
  if 0 < p.weight s then x (.path s) / p.weight s else 0

theorem fraction_outside (outside : ∀ s ∈ p.paths, ¬σ.Takes p.diagram s → x (.path s) = 0) :
    ∀ s ∈ p.paths, ¬σ.Takes p.diagram s → p.fraction x s = 0 := by
  intro s member leaves
  rw [fraction, outside s member leaves, zero_div, ite_self]

/-- The number of possible paths among the compatible ones. -/
def active (p : Problem Rat) (σ : Strategy) : Nat := (p.taken σ).countP (0 < p.weight ·)

theorem Weighed.cutRow_eq (weighed : p.Weighed) (node : Int → String) (specs : Specs)
    (name : String) (number : Nat) :
    (p.emitted node specs name).cutRow (.pathCount number) = .ok (p.countRow number) := by
  rw [Formulation.cutRow, Success.mapM_eq (g := fun s =>
    if 0 < p.weight s then [(Variable.path s, 1 / p.weight s)] else [])]
  · rw [Success.ok_bind, countRow, List.flatMap_def]
    rfl
  · intro s member
    change (do let weight ← p.probability s; _) = _
    rw [weighed.probability_eq member]
    rfl

theorem sumRow_value (x : Variable → Rat) :
    p.sumRow.terms.value x = (p.paths.map fun s => x (.path s)).sum := by
  rw [sumRow, Terms.value_eq, List.map_map]
  simp only [Function.comp_def, one_mul]

theorem countRow_value (number : Nat) (x : Variable → Rat) :
    (p.countRow number).terms.value x = (p.paths.map (p.fraction x)).sum := by
  rw [countRow, Terms.value_eq, List.flatMap_def, List.map_flatten, List.sum_flatten,
    List.map_map, List.map_map]
  congr 1
  apply List.map_congr_left
  intro s _
  simp only [Function.comp_apply, fraction]
  split
  · simp [div_eq_inv_mul]
  · rfl

/-- The row of the probability sum gets the total of the compatible paths. -/
theorem Weighed.sumRow_le (weighed : p.Weighed) (normalized : p.Normalized)
    (complete : σ.Complete p.diagram) (encodes : σ.Encodes p.diagram x)
    (feasible : p.Feasible x) :
    p.sumRow.terms.value x ≤ 1 ∧
      (p.sumRow.terms.value x = 1 ↔ ∀ s ∈ p.taken σ, x (.path s) = p.weight s) := by
  obtain ⟨within, outside⟩ :=
    (weighed.feasible_iff_of_normalized normalized complete encodes).mp feasible
  have below := fun s member => (within s member).2
  rw [sumRow_value, sum_paths_eq outside, ← weighed.sum_weight normalized complete]
  exact ⟨List.sum_le_sum below, Scalar.sum_eq_iff_of_le below⟩

/-- The row of the path count gets the fractions of the possible compatible paths. -/
theorem Weighed.countRow_le (weighed : p.Weighed) (normalized : p.Normalized)
    (complete : σ.Complete p.diagram) (encodes : σ.Encodes p.diagram x)
    (feasible : p.Feasible x) (number : Nat) :
    (p.countRow number).terms.value x ≤ p.active σ ∧
      ((p.countRow number).terms.value x = p.active σ ↔
        ∀ s ∈ p.taken σ, x (.path s) = p.weight s) := by
  obtain ⟨within, outside⟩ :=
    (weighed.feasible_iff_of_normalized normalized complete encodes).mp feasible
  -- An impossible path has nothing and counts for nothing, so it is as full as it can be.
  have each : ∀ s ∈ p.taken σ, p.fraction x s ≤ (if 0 < p.weight s then 1 else 0) ∧
      (p.fraction x s = (if 0 < p.weight s then 1 else 0) ↔ x (.path s) = p.weight s) := by
    intro s member
    have share := within s member
    unfold fraction
    split
    · rename_i possible
      exact ⟨(div_le_one possible).mpr share.2, div_eq_one_iff_eq possible.ne'⟩
    · rename_i impossible
      exact ⟨le_rfl, iff_of_true rfl (by linarith)⟩
  rw [countRow_value, sum_paths_eq (fraction_outside outside), active,
    ← Scalar.sum_ite_eq_countP]
  refine ⟨List.sum_le_sum fun s member => (each s member).1, ?_⟩
  rw [Scalar.sum_eq_iff_of_le fun s member => (each s member).1]
  exact forall₂_congr fun s member => (each s member).2

/-- The choices of a strategy, with a part of the probability of every compatible path. -/
def point (p : Problem Rat) (σ : Strategy) (part : Rat) : Variable → Rat
  | .path s => if σ.Takes p.diagram s then part * p.weight s else 0
  | .choice j key => if σ.choose? j key.dropLast = some (key.getLastD 0) then 1 else 0

theorem point_encodes (p : Problem Rat) (σ : Strategy) (part : Rat) :
    σ.Encodes p.diagram (p.point σ part) :=
  σ.assignment_encodes (fun s => p.point σ part (.path s)) p.diagram

theorem point_of_taken (part : Rat) {s : Path} (member : s ∈ p.taken σ) :
    p.point σ part (.path s) = part * p.weight s := if_pos (mem_taken.mp member).2

theorem point_outside (p : Problem Rat) (σ : Strategy) (part : Rat) :
    ∀ s ∈ p.paths, ¬σ.Takes p.diagram s → p.point σ part (.path s) = 0 :=
  fun _ _ leaves => if_neg leaves

theorem Weighed.point_feasible (weighed : p.Weighed) (normalized : p.Normalized)
    (complete : σ.Complete p.diagram) {part : Rat} (low : 0 ≤ part) (high : part ≤ 1) :
    p.Feasible (p.point σ part) := by
  refine (weighed.feasible_iff_of_normalized normalized complete
    (p.point_encodes σ part)).mpr ⟨?_, p.point_outside σ part⟩
  intro s member
  have weight := weighed.weight_nonneg (mem_taken.mp member).1
  rw [point_of_taken part member]
  exact ⟨mul_nonneg low weight, mul_le_of_le_one_left weight high⟩

theorem countRow_point (p : Problem Rat) (σ : Strategy) (part : Rat) (number : Nat) :
    (p.countRow number).terms.value (p.point σ part) = part * p.active σ := by
  have inside : ∀ s ∈ p.taken σ,
      p.fraction (p.point σ part) s = part * if 0 < p.weight s then 1 else 0 := by
    intro s member
    rw [fraction, point_of_taken part member]
    split
    · rename_i possible
      rw [mul_div_cancel_right₀ _ possible.ne', mul_one]
    · rw [mul_zero]
  rw [countRow_value, sum_paths_eq (fraction_outside (p.point_outside σ part)),
    List.map_congr_left inside, List.sum_map_mul_left, Scalar.sum_ite_eq_countP, active]

/-- A strategy keeps a feasible point for every positive count up to that of its possible paths. -/
theorem Weighed.countRow_reached_iff (weighed : p.Weighed) (normalized : p.Normalized)
    (complete : σ.Complete p.diagram) {number : Nat} (positive : 1 ≤ number) :
    (∃ x, p.Feasible x ∧ σ.Encodes p.diagram x ∧ (p.countRow number).holds 0 x = true) ↔
      number ≤ p.active σ := by
  have reaches : ∀ x, (p.countRow number).holds 0 x = true ↔
      (p.countRow number).terms.value x = number := by
    intro x
    rw [Row.holds]
    exact holds_exactly_iff _ _
  constructor
  · rintro ⟨x, feasible, encodes, holds⟩
    have bound := (weighed.countRow_le normalized complete encodes feasible number).1
    rw [(reaches x).mp holds] at bound
    exact_mod_cast bound
  · intro enough
    have some : (0 : Rat) < p.active σ := by
      exact_mod_cast Nat.lt_of_lt_of_le positive enough
    have fits : (number : Rat) ≤ p.active σ := by
      exact_mod_cast enough
    refine ⟨p.point σ (number / p.active σ), ?_, p.point_encodes σ _, ?_⟩
    · exact weighed.point_feasible normalized complete (div_nonneg (Nat.cast_nonneg _) some.le)
        ((div_le_one some).mpr fits)
    · rw [reaches, countRow_point, div_mul_cancel₀ _ some.ne']

/-- If all compatible paths are possible, there is one for each combination of chance states. -/
theorem active_eq_prod (complete : σ.Complete p.diagram)
    (possible : ∀ s ∈ p.taken σ, 0 < p.weight s) :
    (p.active σ : Int) = (p.diagram.chance.map p.diagram.count).prod := by
  have all : p.active σ = (p.taken σ).length := by
    rw [active, List.countP_eq_length]
    exact fun s member => decide_eq_true (possible s member)
  rw [all, taken, paths, complete.length_taken]

/-- All entries of the probability tables are positive. -/
def Positive (p : Problem Rat) : Prop :=
  ∀ j t, (j, t) ∈ p.probabilities → ∀ entry ∈ t.entries, 0 < entry

theorem Weighed.weight_pos (weighed : p.Weighed) (positive : p.Positive) {s : Path}
    (member : s ∈ p.paths) : 0 < p.weight s := by
  apply List.prod_pos
  intro share factor
  obtain ⟨j, chance, rfl⟩ := List.mem_map.mp factor
  have range := p.diagram.inner_of_chance chance
  obtain ⟨t, table, found⟩ := weighed.table chance
  have key := Diagram.mem_paths_family.mpr ⟨_, Diagram.select_mem_contexts member j, _,
    Diagram.stateAt_mem_states member range.1 range.2, rfl⟩
  rw [Kernel.on, conditional, found]
  exact positive j t table _ (Tensor.get_of_path (weighed.shape j t table) key).2

/-- Every path has all of its probability. -/
def Filled (weighted : List (Path × Rat)) (x : Variable → Rat) : Prop :=
  ∀ e ∈ weighted, x (.path e.1) = e.2

/-- The number of paths that have any probability. -/
def possibleCount (weighted : List (Path × Rat)) : Nat := weighted.countP (0 < ·.2)

theorem filled_taken (p : Problem Rat) (σ : Strategy) (x : Variable → Rat) :
    Filled ((p.taken σ).map fun s => (s, p.weight s)) x ↔
      ∀ s ∈ p.taken σ, x (.path s) = p.weight s := List.forall_mem_map

theorem possibleCount_taken (p : Problem Rat) (σ : Strategy) :
    possibleCount ((p.taken σ).map fun s => (s, p.weight s)) = p.active σ := List.countP_map

/-- What the rows of the cuts say about feasible assignments, and which they leave to a strategy. -/
theorem cut_rows_force (accepted : p.Accepted) (normalized : p.Normalized) (specs : Specs)
    (name : String) :
    ∃ f sum, ∃ count : Nat → Row Variable Rat, Formulation.build specs p name = .ok f ∧
      f.cutRow .probabilitySum = .ok sum ∧
      (∀ number, f.cutRow (.pathCount number) = .ok (count number)) ∧
      (∀ x, f.program.feasible 0 x = true → ∃ σ weighted, f.decode x = .ok σ ∧
        σ.Complete p.diagram ∧ p.weightedPaths σ = .ok weighted ∧
        (sum.terms.value x ≤ 1 ∧ (sum.terms.value x = 1 ↔ Filled weighted x)) ∧
        ∀ number, (count number).terms.value x ≤ possibleCount weighted ∧
          ((count number).terms.value x = possibleCount weighted ↔ Filled weighted x)) ∧
      ∀ σ : Strategy, σ.Complete p.diagram → ∃ weighted, p.weightedPaths σ = .ok weighted ∧
        (∀ x, σ.Encodes p.diagram x → Filled weighted x →
          (∀ s ∈ p.paths, s ∉ weighted.map (·.1) → x (.path s) = 0) →
            f.program.feasible 0 x = true ∧ sum.holds 0 x = true) ∧
        (∀ number, 1 ≤ number → ((∃ x, f.program.feasible 0 x = true ∧
          σ.Encodes p.diagram x ∧ (count number).holds 0 x = true) ↔
            number ≤ possibleCount weighted)) ∧
        ((∀ e ∈ weighted, 0 < e.2) →
          (possibleCount weighted : Int) = (p.diagram.chance.map p.diagram.count).prod) ∧
        (p.Positive → ∀ e ∈ weighted, 0 < e.2) := by
  have weighed := accepted.weighed
  refine ⟨_, p.sumRow, p.countRow, weighed.buildBy_eq accepted.valued toString specs name, rfl,
    weighed.cutRow_eq toString specs name, ?_, ?_⟩
  · intro x admitted
    have feasible := feasible_emitted_iff.mp admitted
    obtain ⟨σ, decoded, complete, encodes⟩ := feasible.decode_eq toString specs name
    refine ⟨σ, _, decoded, complete, weighed.weightedPaths_eq complete.entered, ?_, ?_⟩
    · rw [filled_taken]
      exact weighed.sumRow_le normalized complete encodes feasible
    · intro number
      rw [filled_taken, possibleCount_taken]
      exact weighed.countRow_le normalized complete encodes feasible number
  · intro σ complete
    refine ⟨_, weighed.weightedPaths_eq complete.entered, ?_, ?_, ?_, ?_⟩
    · intro x encodes filled others
      rw [filled_taken] at filled
      have feasible : p.Feasible x := by
        refine (weighed.feasible_iff_of_normalized normalized complete encodes).mpr ⟨?_, ?_⟩
        · intro s member
          rw [filled s member]
          exact ⟨weighed.weight_nonneg (mem_taken.mp member).1, le_rfl⟩
        · intro s member leaves
          apply others s member
          rw [List.map_map, Function.comp_def, List.map_id']
          exact fun taken => leaves (mem_taken.mp taken).2
      refine ⟨feasible_emitted_iff.mpr feasible, ?_⟩
      rw [Row.holds]
      exact (holds_exactly_iff _ _).mpr
        ((weighed.sumRow_le normalized complete encodes feasible).2.mpr filled)
    · intro number positive
      simp only [feasible_emitted_iff, possibleCount_taken]
      exact weighed.countRow_reached_iff normalized complete positive
    · intro possible
      rw [possibleCount_taken]
      exact active_eq_prod complete fun s member => possible _ (List.mem_map_of_mem member)
    · intro positive
      exact List.forall_mem_map.mpr fun s member =>
        weighed.weight_pos positive (mem_taken.mp member).1

/-- The careful strategy has two possible paths, so a model that counts them keeps it. -/
theorem umbrella_cut_rows : ∃ f sum count, Formulation.build {} umbrella "umbrella" = .ok f ∧
    f.cutRow .probabilitySum = .ok sum ∧ f.cutRow (.pathCount 2) = .ok count ∧
      f.program.feasible 0 umbrellaTaken = true ∧ sum.holds 0 umbrellaTaken = true ∧
      ∃ x, f.program.feasible 0 x = true ∧ Strategy.careful.Encodes umbrella.diagram x ∧
        count.holds 0 x = true := by
  obtain ⟨f, sum, count, built, first, counts, _, kept⟩ :=
    cut_rows_force umbrella_accepted umbrella_normalized {} "umbrella"
  obtain ⟨weighted, found, full, reached, _, _⟩ := kept _ Strategy.careful_complete
  have two : weighted = [([1, 1], 3 / 10), ([2, 2], 7 / 10)] := by
    rw [umbrella_accepted.weighed.weightedPaths_eq Strategy.careful_complete.entered] at found
    cases found
    decide +kernel
  have onPaths := full umbrellaTaken umbrellaTaken_follows.encodes
    (by
      rw [two]
      unfold Filled
      decide +kernel)
    (by
      rw [two]
      decide +kernel)
  refine ⟨f, sum, count 2, built, first, counts 2, onPaths.1, onPaths.2, ?_⟩
  apply (reached 2 (by decide)).mpr
  rw [two]
  decide +kernel

end InfluenceProgram.Problem
