import InfluenceProgram.Proofs.Emitted

/-!
The bounds and rows of a decision model, one after the other. Each says one thing about the values
of paths and choices. The objective adds up what the paths gain.
-/

set_option autoImplicit false

namespace InfluenceProgram

theorem Terms.value_eq (terms : Terms Variable Rat) (x : Variable → Rat) :
    terms.value x = (terms.map fun e => e.2 * x e.1).sum := Scalar.sum_eq _

namespace Problem

variable {p : Problem Rat} {σ : Strategy} {x : Variable → Rat}

/-- What the bounds and rows of a decision model say about an assignment. -/
structure Feasible (p : Problem Rat) (x : Variable → Rat) : Prop where
  bounds : ∀ s ∈ p.paths, 0 ≤ x (.path s) ∧ x (.path s) ≤ p.weight s
  binary : ∀ j ∈ p.diagram.decision, ∀ c ∈ p.diagram.contexts j,
    ∀ y ∈ states (p.diagram.count j), x (.choice j (c ++ [y])) = 0 ∨ x (.choice j (c ++ [y])) = 1
  strategy : ∀ j ∈ p.diagram.decision, ∀ c ∈ p.diagram.contexts j,
    ((states (p.diagram.count j)).map fun y => x (.choice j (c ++ [y]))).sum = 1
  consistency : ∀ s ∈ p.paths, ∀ j ∈ p.diagram.decision,
    x (.path s) ≤ x (.choice j (s.select (p.diagram.family j)))

theorem admits_pathColumn_iff (s : Path) :
    (p.pathColumn s).admits (x (.path s)) = true ↔ 0 ≤ x (.path s) ∧ x (.path s) ≤ p.weight s := by
  simp [Column.admits, pathColumn]

theorem admits_choiceColumn_iff {node : Int → String} {j : Int} {key : Path} :
    (Formulation.choiceColumn node j key : Column Variable Rat).admits (x (.choice j key)) = true ↔
      x (.choice j key) = 0 ∨ x (.choice j key) = 1 := by
  simp only [Column.admits, Formulation.choiceColumn, Bool.and_eq_true, decide_eq_true_eq,
    Bool.or_eq_true, beq_iff_eq, Bool.not_true, Bool.false_eq_true, false_or]
  constructor
  · exact fun admitted => admitted.2
  · rintro (zero | one)
    · rw [zero]
      exact ⟨⟨le_rfl, zero_le_one⟩, Or.inl rfl⟩
    · rw [one]
      exact ⟨⟨zero_le_one, le_rfl⟩, Or.inr rfl⟩

theorem holds_exactly_iff (left right : Rat) :
    Sense.holds 0 left right .exactly = true ↔ left = right := by
  simp only [Sense.holds, Bool.and_eq_true, decide_eq_true_eq]
  constructor
  · rintro ⟨below, above⟩
    linarith
  · rintro rfl
    constructor <;> linarith

theorem holds_strategyRow_iff {node : Int → String} {j : Int} {c : Path} :
    (p.strategyRow node j c).holds 0 x = true ↔
      ((states (p.diagram.count j)).map fun y => x (.choice j (c ++ [y]))).sum = 1 := by
  rw [Row.holds, strategyRow, holds_exactly_iff, Terms.value_eq, List.map_map]
  simp only [Function.comp_def, one_mul]

theorem holds_consistencyRow_iff {node : Int → String} {s : Path} {j : Int} :
    (p.consistencyRow node s j).holds 0 x = true ↔
      x (.path s) ≤ x (.choice j (s.select (p.diagram.family j))) := by
  rw [Row.holds, consistencyRow, Terms.value_eq]
  simp only [Sense.holds, List.map_cons, List.map_nil, List.sum_cons, List.sum_nil,
    decide_eq_true_eq]
  constructor
  · intro below
    linarith
  · intro below
    linarith

theorem feasible_emitted_iff {node : Int → String} {specs : Specs} {name : String} :
    (p.emitted node specs name).program.feasible 0 x = true ↔ p.Feasible x := by
  simp only [Program.feasible, emitted, List.all_append, List.all_map, List.all_flatMap,
    Bool.and_eq_true, List.all_eq_true, Function.comp_apply]
  constructor
  · rintro ⟨⟨onPaths, onChoices⟩, strategy, consistency⟩
    refine ⟨?_, ?_, ?_, ?_⟩
    · exact fun s member => (admits_pathColumn_iff s).mp (onPaths s member)
    · intro j decision c context y state
      exact admits_choiceColumn_iff.mp (onChoices j decision _
        (Diagram.mem_paths_family.mpr ⟨c, context, y, state, rfl⟩))
    · exact fun j decision c context =>
        holds_strategyRow_iff.mp (strategy j decision c context)
    · exact fun s member j decision =>
        holds_consistencyRow_iff.mp (consistency s member j decision)
  · rintro ⟨bounds, binary, strategy, consistency⟩
    refine ⟨⟨?_, ?_⟩, ?_, ?_⟩
    · exact fun s member => (admits_pathColumn_iff s).mpr (bounds s member)
    · intro j decision key known
      obtain ⟨c, context, y, state, rfl⟩ := Diagram.mem_paths_family.mp known
      exact admits_choiceColumn_iff.mpr (binary j decision c context y state)
    · exact fun j decision c context =>
        holds_strategyRow_iff.mpr (strategy j decision c context)
    · exact fun s member j decision =>
        holds_consistencyRow_iff.mpr (consistency s member j decision)

/-- The objective is the sum of the gains of all paths, each times the value of its path. -/
theorem objectiveAt_emitted (p : Problem Rat) (node : Int → String) (specs : Specs) (name : String)
    (x : Variable → Rat) :
    (p.emitted node specs name).program.objectiveAt x =
      (p.paths.map fun s => p.gain p.leastUtility s * x (.path s)).sum := by
  rw [Program.objectiveAt, Terms.value_eq]
  simp only [emitted, List.map_map, Function.comp_def]
  exact zero_add _

end Problem

end InfluenceProgram
