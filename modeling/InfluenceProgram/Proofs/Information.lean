import InfluenceProgram.Proofs.Attainment
import InfluenceProgram.Proofs.Layout

/-!
Diagrams that tell their decision nodes more. The same tables are accepted for them, and paths have
the same probabilities and utilities. A strategy that knows less is played by one that knows more
and takes no notice of it, so an optimal value can only grow.
-/

set_option autoImplicit false

namespace InfluenceProgram

namespace Path

/-- The states at some nodes, taken from states that are given for more of them. -/
def project (all part : List Int) (c : Path) : Path := part.map fun j => c.getD (all.idxOf j) 0

theorem project_select {all part : List Int} (within : part ⊆ all) (s : Path) :
    project all part (s.select all) = s.select part := by
  apply List.map_congr_left
  intro j member
  have place : all.idxOf j < (s.select all).length := by
    rw [select, List.length_map]
    exact List.idxOf_lt_length_iff.mpr (within member)
  rw [List.getD_eq_getElem _ _ place]
  simp only [select, List.getElem_map, List.getElem_idxOf]

theorem project_mem_paths {all part : List Int} (within : part ⊆ all) {counts : List Int}
    {c : Path} (member : c ∈ paths (Path.select counts all)) :
    project all part c ∈ paths (Path.select counts part) := by
  have length : c.length = all.length := by
    rw [length_of_mem_paths member, select, List.length_map]
  rw [mem_paths, project, select, List.forall₂_map_left_iff, List.forall₂_map_right_iff,
    List.forall₂_same]
  intro j inside
  have place : all.idxOf j < all.length := List.idxOf_lt_length_iff.mpr (within inside)
  have range := (mem_paths.mp member).get (i := all.idxOf j) (length ▸ place)
    (by rwa [select, List.length_map])
  rw [List.getD_eq_getElem _ _ (length ▸ place)]
  simpa only [select, List.get_eq_getElem, List.getElem_map, List.getElem_idxOf] using range

end Path

namespace Diagram

/-- One diagram has the nodes and state counts of another, and the same information sets up to
those of decision nodes, which may be larger. -/
structure Enriches (d' d : Diagram) : Prop where
  chance : d'.chance = d.chance
  decision : d'.decision = d.decision
  value : d'.value = d.value
  counts : d'.counts = d.counts
  others : ∀ j, j ∉ d.decision → d'.informationSet j = d.informationSet j
  decisions : ∀ j ∈ d.decision, d.informationSet j ⊆ d'.informationSet j

theorem withArc_enriches {d : Diagram} {i j : Int}
    (fits : 1 ≤ i ∧ i < j ∧ j ≤ d.total ∧ i ≤ d.inner) (decision : j ∈ d.decision) :
    (d.withArc i j fits).Enriches d where
  chance := rfl
  decision := rfl
  value := rfl
  counts := rfl
  others _ other := informationSet_withArc_of_ne fun same => other (same ▸ decision)
  decisions _ _ _ member := mem_informationSet_withArc.mpr (Or.inr member)

variable {d d' : Diagram}

theorem not_decision_of_chance {j : Int} (chance : j ∈ d.chance) : j ∉ d.decision :=
  d.layered.disjoint j chance

theorem not_decision_of_value {v : Int} (value : v ∈ d.value) : v ∉ d.decision := by
  intro decision
  have range := d.inner_of_decision decision
  rw [d.layered.value_eq, mem_span] at value
  omega

namespace Enriches

variable {α : Type} [Scalar α]

theorem contextCounts_eq (enriches : d'.Enriches d) {j : Int} (other : j ∉ d.decision) :
    d'.contextCounts j = d.contextCounts j := by
  rw [contextCounts, contextCounts, countsAt, countsAt, enriches.counts, enriches.others j other]

/-- The same probability tables are accepted, and the faults of others are the same too. -/
theorem validateProbabilities_eq (enriches : d'.Enriches d) (X : Keyed Int (Supplied α)) :
    validateProbabilities d' X = validateProbabilities d X := by
  unfold validateProbabilities
  rw [enriches.chance]
  split
  · rfl
  · refine Success.mapM_congr fun j chance => ?_
    have checks : (checkProbabilities d' j : Tensor α → _) = checkProbabilities d j := by
      funext t
      unfold checkProbabilities
      rw [enriches.contextCounts_eq (not_decision_of_chance chance), countOf, countOf,
        enriches.counts]
    unfold probabilityTable
    rw [checks]

/-- The same utility tables are accepted, and the faults of others are the same too. -/
theorem validateUtilities_eq (enriches : d'.Enriches d) (Y : Keyed Int (Supplied α)) :
    validateUtilities d' Y = validateUtilities d Y := by
  unfold validateUtilities
  rw [enriches.value]
  split
  · rfl
  · refine Success.mapM_congr fun v value => ?_
    have checks : (checkUtilities d' v : Tensor α → _) = checkUtilities d v := by
      funext t
      unfold checkUtilities
      rw [enriches.contextCounts_eq (not_decision_of_value value)]
    unfold utilityTable
    rw [checks]

end Enriches

end Diagram

namespace Strategy

/-- A strategy for larger information sets that takes no notice of what they add. -/
def lift (σ : Strategy) (d d' : Diagram) : Strategy := tabulate d' fun j c =>
  (σ.choose? j (Path.project (d'.informationSet j) (d.informationSet j) c)).getD 1

variable {d d' : Diagram} {σ : Strategy}

theorem Complete.lift (complete : σ.Complete d) (enriches : d'.Enriches d) :
    (σ.lift d d').Complete d' := by
  apply tabulate_complete
  intro j decision c context
  have known : j ∈ d.decision := enriches.decision ▸ decision
  have projected : Path.project (d'.informationSet j) (d.informationSet j) c ∈ d.contexts j := by
    rw [Diagram.contexts, enriches.counts] at context
    exact Path.project_mem_paths (enriches.decisions j known) context
  obtain ⟨x, state, chosen⟩ := complete j known _ projected
  rw [chosen, Option.getD_some, Diagram.count, enriches.counts]
  exact state

/-- A lifted strategy takes the same paths. -/
theorem Complete.takes_lift (complete : σ.Complete d) (enriches : d'.Enriches d) {s : Path}
    (member : s ∈ paths d.counts) : (σ.lift d d').Takes d' s ↔ σ.Takes d s := by
  unfold Takes
  rw [enriches.decision]
  refine forall₂_congr fun j decision => ?_
  have context : s.select (d'.informationSet j) ∈ d'.contexts j :=
    Diagram.select_mem_contexts (enriches.counts ▸ member) j
  obtain ⟨x, _, chosen⟩ := complete j decision _ (Diagram.select_mem_contexts member j)
  rw [Strategy.lift, choose?_tabulate _ (enriches.decision ▸ decision) context,
    Path.project_select (enriches.decisions j decision), chosen, Option.getD_some]

end Strategy

/-- Two decision models have the same paths with the same bounds and the same objective. -/
structure Formulation.SamePaths (f' f : Formulation Rat) : Prop where
  paths : f'.pathVariables = f.pathVariables
  columns : f'.program.columns.filter (!·.binary) = f.program.columns.filter (!·.binary)
  objective : f'.program.objective = f.program.objective
  constant : f'.program.constant = f.program.constant
  epsilon : f'.epsilon = f.epsilon
  leastUtility : f'.leastUtility = f.leastUtility

namespace Problem

/-- The tables of a problem over another diagram. -/
def withDiagram (p : Problem Rat) (d : Diagram) : Problem Rat := { p with diagram := d }

variable {p : Problem Rat} {d : Diagram}

theorem Accepted.withDiagram (accepted : p.Accepted) (enriches : d.Enriches p.diagram) :
    (p.withDiagram d).Accepted := by
  obtain ⟨⟨X, validX⟩, Y, validY⟩ := accepted.validated
  refine ⟨X, Y, ?_⟩
  change create d X Y = _
  rw [create, enriches.validateProbabilities_eq, validX, Success.ok_bind,
    enriches.validateUtilities_eq, validY]
  rfl

theorem paths_withDiagram (enriches : d.Enriches p.diagram) : (p.withDiagram d).paths = p.paths :=
  congrArg InfluenceProgram.paths enriches.counts

theorem weight_withDiagram (enriches : d.Enriches p.diagram) (s : Path) :
    (p.withDiagram d).weight s = p.weight s := by
  change p.conditional.along d d.chance s = p.conditional.along p.diagram p.diagram.chance s
  rw [enriches.chance, Kernel.along, Kernel.along]
  congr 1
  apply List.map_congr_left
  intro j chance
  rw [Kernel.on, Kernel.on, enriches.others j (Diagram.not_decision_of_chance chance)]

theorem payoff_withDiagram (enriches : d.Enriches p.diagram) {v : Int}
    (value : v ∈ p.diagram.value) (s : Path) : (p.withDiagram d).payoff v s = p.payoff v s := by
  have context := enriches.others v (Diagram.not_decision_of_value value)
  exact congrArg (fun nodes =>
    ((p.utilities.get? v).map fun t => t.valueAt (s.select nodes)).getD 0) context

theorem gain_withDiagram (enriches : d.Enriches p.diagram) (least : Rat) (s : Path) :
    (p.withDiagram d).gain least s = p.gain least s := by
  unfold gain
  change (d.value.map _).sum = _
  rw [enriches.value]
  congr 1
  apply List.map_congr_left
  intro v value
  rw [payoff_withDiagram enriches value]

theorem cap_withDiagram (enriches : d.Enriches p.diagram) (weight : Rat) :
    (p.withDiagram d).cap weight = p.cap weight := by
  unfold cap
  change (if d.decision = [] then _ else _) = _
  rw [enriches.decision]

theorem pathColumn_withDiagram (enriches : d.Enriches p.diagram) :
    (p.withDiagram d).pathColumn = p.pathColumn := by
  funext s
  rw [pathColumn, pathColumn, weight_withDiagram enriches]

/-- The columns of the paths are those that are not binary. -/
theorem continuousColumns_emitted (p : Problem Rat) (node : Int → String) (specs : Specs)
    (name : String) :
    (p.emitted node specs name).program.columns.filter (!·.binary) = p.paths.map p.pathColumn := by
  have choices : (p.diagram.decision.flatMap fun j => (p.diagram.choiceKeys j).map
      (Formulation.choiceColumn (α := Rat) node j)).filter (!·.binary) = [] := by
    rw [List.filter_eq_nil_iff]
    intro column member
    obtain ⟨j, _, known⟩ := List.mem_flatMap.mp member
    obtain ⟨key, _, rfl⟩ := List.mem_map.mp known
    exact Bool.false_ne_true
  have columns : (p.paths.map p.pathColumn).filter (!·.binary) = p.paths.map p.pathColumn := by
    rw [List.filter_eq_self]
    intro column member
    obtain ⟨s, _, rfl⟩ := List.mem_map.mp member
    rfl
  rw [emitted, List.filter_append, choices, columns, List.append_nil]

theorem samePaths_withDiagram (enriches : d.Enriches p.diagram) (node : Int → String)
    (specs : Specs) (name : String) :
    ((p.withDiagram d).emitted node specs name).SamePaths (p.emitted node specs name) where
  paths := by
    change (p.withDiagram d).paths.map _ = p.paths.map _
    rw [paths_withDiagram enriches]
  columns := by
    rw [continuousColumns_emitted, continuousColumns_emitted, paths_withDiagram enriches,
      pathColumn_withDiagram enriches]
  objective := by
    change (p.withDiagram d).paths.map (fun s =>
      (Variable.path s, (p.withDiagram d).gain p.leastUtility s)) = _
    rw [paths_withDiagram enriches, funext fun s => congrArg _ (gain_withDiagram enriches _ s)]
    rfl
  constant := rfl
  epsilon := by
    change (Scalar.least? ((p.withDiagram d).paths.map (p.withDiagram d).weight)).getD 1 = _
    rw [paths_withDiagram enriches, funext (weight_withDiagram enriches)]
    rfl
  leastUtility := rfl

/-- Whatever a feasible assignment gives to the paths, one that knows more can give to them. -/
theorem Feasible.lift {x : Variable → Rat} (feasible : p.Feasible x) (accepted : p.Accepted)
    (enriches : d.Enriches p.diagram) :
    ∃ y, (p.withDiagram d).Feasible y ∧ ∀ s, y (.path s) = x (.path s) := by
  obtain ⟨σ, _, complete, encodes⟩ := feasible.decode_eq toString {} ""
  let lifted := σ.lift p.diagram d
  refine ⟨lifted.assignment fun s => x (.path s), ?_, fun _ => rfl⟩
  have whole : lifted.Complete (p.withDiagram d).diagram := complete.lift enriches
  refine ((accepted.withDiagram enriches).weighed.feasible_iff whole
    (lifted.assignment_encodes _ _)).mpr fun s member => ?_
  rw [paths_withDiagram enriches] at member
  have share := (accepted.weighed.feasible_iff complete encodes).mp feasible s member
  have takes : lifted.Takes (p.withDiagram d).diagram s ↔ σ.Takes p.diagram s :=
    complete.takes_lift enriches member
  rw [weight_withDiagram enriches, cap_withDiagram enriches]
  split at share
  · rename_i taken
    rw [if_pos (takes.mpr taken)]
    exact share
  · rename_i left
    rw [if_neg (mt takes.mp left)]
    exact share

/-- Telling decision nodes more never lowers what an optimal assignment is worth. -/
theorem Accepted.optimum_le_withDiagram (accepted : p.Accepted) (enriches : d.Enriches p.diagram)
    (node : Int → String) (specs : Specs) (name : String) {x y : Variable → Rat}
    (known : (p.emitted node specs name).program.Optimal x)
    (told : ((p.withDiagram d).emitted node specs name).program.Optimal y) :
    (p.emitted node specs name).program.objectiveAt x ≤
      ((p.withDiagram d).emitted node specs name).program.objectiveAt y := by
  obtain ⟨z, feasible, same⟩ :=
    (feasible_emitted_iff.mp known.1).lift accepted enriches
  have value : ((p.withDiagram d).emitted node specs name).program.objectiveAt z =
      (p.emitted node specs name).program.objectiveAt x := by
    have alike := samePaths_withDiagram enriches node specs name
    rw [Program.objectiveAt, Program.objectiveAt, alike.constant, alike.objective,
      Terms.value_eq, Terms.value_eq]
    simp only [emitted, List.map_map, Function.comp_def, same]
  rw [← value]
  exact (Program.better_eq_false_iff rfl _ _).mp (told.2 z (feasible_emitted_iff.mpr feasible))

/-- One more arc into a decision node of a problem leaves a diagram that accepts the same tables
and whose decision model has the same paths, and its optimum is at least as good. -/
theorem information_never_hurts (accepted : p.Accepted) {i j : Int} (low : 1 ≤ i) (below : i < j)
    (decision : j ∈ p.diagram.decision) (specs : Specs) (name : String) :
    ∃ d, Diagram.create p.diagram.chance p.diagram.decision p.diagram.value
        ((i, j) :: p.diagram.arcs) (p.diagram.counts.map .int) = .ok d ∧
      (∀ X : Keyed Int (Supplied Rat),
        validateProbabilities d X = validateProbabilities p.diagram X) ∧
      (∀ Y : Keyed Int (Supplied Rat),
        validateUtilities d Y = validateUtilities p.diagram Y) ∧
      (p.withDiagram d).Accepted ∧
      ∃ f f', Formulation.build specs p name = .ok f ∧
        Formulation.build specs (p.withDiagram d) name = .ok f' ∧ f'.SamePaths f ∧
        (∃ x, f.program.Optimal x) ∧ (∃ y, f'.program.Optimal y) ∧
        ∀ x y, f.program.Optimal x → f'.program.Optimal y →
          f.program.objectiveAt x ≤ f'.program.objectiveAt y := by
  have inner := p.diagram.inner_of_decision decision
  have fits : 1 ≤ i ∧ i < j ∧ j ≤ p.diagram.total ∧ i ≤ p.diagram.inner := by
    refine ⟨low, below, ?_, by omega⟩
    rw [Outline.total]
    omega
  have enriches := Diagram.withArc_enriches fits decision
  have told := accepted.withDiagram enriches
  refine ⟨p.diagram.withArc i j fits, Diagram.create_withArc fits,
    enriches.validateProbabilities_eq, enriches.validateUtilities_eq, told, _, _,
    accepted.weighed.buildBy_eq accepted.valued toString specs name,
    told.weighed.buildBy_eq told.valued toString specs name,
    samePaths_withDiagram enriches toString specs name,
    accepted.valued.exists_optimal accepted.weighed toString specs name,
    told.valued.exists_optimal told.weighed toString specs name, fun x y known more => ?_⟩
  exact accepted.optimum_le_withDiagram enriches toString specs name known more

/-- The umbrella has to be taken or left before the weather is seen, and should fit it. -/
def blind : Problem Rat :=
  { umbrella with
    diagram := { umbrella.diagram with
      toOutline := Outline.ofLists [1] [2] [3] [(1, 3), (2, 3)]
      layered := (@Outline.layered_of_defect [1] [2] [3] [(1, 3), (2, 3)] 2 rfl).1
      counts_length := rfl }
    utilities := [(3, ⟨[2, 2], #[1, 0, 0, 1], rfl⟩)] }

theorem blind_accepted : blind.Accepted := blind.accepted_iff.mpr (by decide +kernel)

/-- Seeing the weather first makes it the umbrella diagram, and the choice is as good or better. -/
theorem blind_gains_by_seeing : ∃ f f', Formulation.build {} blind "blind" = .ok f ∧
    Formulation.build {} (blind.withDiagram umbrella.diagram) "blind" = .ok f' ∧
    ∃ x y, f.program.Optimal x ∧ f'.program.Optimal y ∧
      f.program.objectiveAt x ≤ f'.program.objectiveAt y := by
  obtain ⟨d, made, _, _, _, f, f', built, builtMore, _, ⟨x, optimal⟩, ⟨y, optimalMore⟩, grows⟩ :=
    information_never_hurts blind_accepted (i := 1) (j := 2) (by decide) (by decide) (by decide)
      {} "blind"
  have seen : Diagram.create [1] [2] [3] ((1, 2) :: [(1, 3), (2, 3)]) ([2, 2].map .int) =
      .ok umbrella.diagram := umbrella.diagram.create_eq rfl
  cases made.symm.trans seen
  exact ⟨f, f', built, builtMore, x, y, optimal, optimalMore, grows x y optimal optimalMore⟩

end Problem

end InfluenceProgram
