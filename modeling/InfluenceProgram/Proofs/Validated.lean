import InfluenceProgram.Proofs.Distribution
import InfluenceProgram.Proofs.Emitted
import InfluenceProgram.Proofs.Given
import InfluenceProgram.Proofs.Marginals
import InfluenceProgram.Proofs.Quantile
import InfluenceProgram.Solver.Submission

/-!
What was validated does not fail later. The axes of a table, the contexts of a node and the keys of
its choices are all made from one information set, so every path finds its entries and its choices.
Some compatible path of a complete strategy is possible, so a distribution of the utility is never
empty and has all its measures. Only walking through the paths asks for more than validation does:
room for the states of every node. A solver may still refuse a name or a row.
-/

set_option autoImplicit false

namespace InfluenceProgram

/-- The lookups of choices that the rows of a decision model make find their keys. -/
structure Formulation.ChoicesFound (d : Diagram) (keys : Keyed Int (List Path)) : Prop where
  strategy : ∀ j ∈ d.decision, ∃ counts count, d.contextCounts j = .ok counts ∧
    d.countOf j = .ok count ∧ ∀ c ∈ paths counts, ∀ x ∈ states count,
      choice keys j (c ++ [x]) = .ok (.choice j (c ++ [x]))
  consistency : ∀ s ∈ paths d.counts, ∀ j ∈ d.decision, ∃ key,
    Path.restrict s (d.family j) = .ok key ∧ choice keys j key = .ok (.choice j key)

theorem Formulation.choicesFound (d : Diagram) : ChoicesFound d (Problem.keysOf d) where
  strategy j decision := by
    have range := d.inner_of_decision decision
    exact ⟨_, _, d.contextCounts_eq j, d.countOf_eq range.1 range.2,
      fun c context x state => Problem.choice_eq decision context state⟩
  consistency _ member _ decision := ⟨_, Problem.choice_of_select decision member⟩

/-- A solver gets the decision model that is formulated, if it takes every name and every row. -/
theorem Solver.submit_eq_ok_iff {p : Problem Float} {specs : Specs} {name : String}
    {f : Formulation Float} :
    submit (.ofDiagram p.diagram) specs p (.text name) = .ok f ↔
      Formulation.formulate specs p (keptName name) = .ok f ∧
        (∀ s ∈ p.paths, checkName (Variable.path s).name = .ok ()) ∧
        checkProgram f.program = .ok () := by
  have placed : p.diagram.decision.forM (Drawing.ofDiagram p.diagram).checkPosition = .ok () :=
    Success.forM_iff.mpr fun _ _ => rfl
  have written : (Drawing.ofDiagram p.diagram).nodeName = toString := rfl
  rw [submit, Formulation.formulate, Path.walking_eq_ok_iff, Path.walking_eq_ok_iff, and_assoc]
  refine and_congr_right fun _ => ?_
  simp only [readName, placed, written, Success.ok_bind]
  constructor
  · intro taken
    obtain ⟨_, named, taken⟩ := Success.bind_iff.mp taken
    obtain ⟨built, found, taken⟩ := Success.bind_iff.mp taken
    obtain ⟨_, accepted, same⟩ := Success.bind_iff.mp taken
    cases same
    exact ⟨found, Success.forM_iff.mp named, accepted⟩
  · rintro ⟨found, named, accepted⟩
    rw [Formulation.build] at found
    rw [Success.forM_iff.mpr named, Success.ok_bind, found, Success.ok_bind, accepted]
    rfl

namespace Problem

/-- The states of a path at the nodes of a table are the index of an entry: one position for each
axis, none of them negative and none past the end. -/
def Factor.Selects (f : Factor Rat) (s : Path) : Prop :=
  ∃ c entry, Path.restrict s f.nodes = .ok c ∧
    List.Forall₂ (fun (i : Int) (size : Nat) => 0 ≤ i ∧ i < size) (Path.toIndex c) f.table.shape ∧
    f.table.get (Path.toIndex c) = .ok entry

theorem Factor.selects {d : Diagram} {t : Tensor Rat} {nodes : List Int}
    (shape : t.shape = d.axes nodes) (covered : Path.Covers d.counts nodes) {s : Path}
    (member : s ∈ InfluenceProgram.paths d.counts) : Factor.Selects ⟨t, nodes⟩ s := by
  have reached := covered.of_length (length_of_mem_paths member)
  have within := Path.select_mem_paths member covered
  refine ⟨s.select nodes, t.valueAt (s.select nodes), Path.restrict_eq reached, ?_,
    (Tensor.get_of_path shape within).1⟩
  rw [shape, Diagram.axes, Path.toIndex, List.forall₂_map_left_iff, List.forall₂_map_right_iff]
  refine (mem_paths.mp within).imp fun x count range => ?_
  omega

variable {p : Problem Rat} {σ : Strategy}

/-- A complete strategy leaves a path that is possible. -/
theorem Weighed.exists_possible (weighed : p.Weighed) (complete : σ.Complete p.diagram) :
    ∃ s ∈ p.taken σ, 0 < p.weight s := by
  have bound := (weighed.bounded.sum_taken complete).1
  rw [List.map_const', List.prod_replicate] at bound
  have positive : (0 : Rat) < (1 - probabilityTolerance) ^ p.diagram.chance.length := by
    apply pow_pos
    norm_num [probabilityTolerance_eq]
  refine List.exists_lt_of_sum_lt (fun _ => 0) p.weight ?_
  rw [List.map_const', List.sum_replicate, smul_zero]
  exact positive.trans_le bound

theorem Valued.utilityDistribution_ne_nil (valued : p.Valued) (weighed : p.Weighed)
    (complete : σ.Complete p.diagram) :
    ∃ entries, p.utilityDistribution σ = .ok entries ∧ entries ≠ [] := by
  obtain ⟨entries, found, distributed⟩ :=
    valued.utilityDistribution_spec weighed complete.entered
  obtain ⟨s, member, possible⟩ := weighed.exists_possible complete
  have reached : 0 < p.mass σ (p.gain 0 s) := weighed.mass_pos_iff.mpr ⟨s, member, possible, rfl⟩
  exact ⟨entries, found, List.ne_nil_of_mem ((distributed.mem_iff _ _).mpr ⟨reached, rfl⟩)⟩

/-- A table can be held if its axes and its entries can. -/
theorem holdable_of_few {real : Bool} {axes : List Nat} (short : ∀ axis ∈ axes, axis < Path.maxHeld)
    (few : volume axes < Path.maxHeld) : holdable real axes = .ok () := by
  have small : Path.maxHeld ≤ Nat.pow 2 60 := by decide
  have long : Nat.pow 2 60 ≤ Nat.pow 2 63 := by decide
  have fine : ¬axes.any (Nat.pow 2 63 ≤ ·) = true := by
    simp only [List.any_eq_true, decide_eq_true_eq, not_exists, not_and]
    intro axis member
    have := short axis member
    omega
  rw [holdable, if_neg fine, if_neg (by omega), if_neg (by omega)]

/-- A table with one axis can be held if its length can. -/
theorem holdable_single {real : Bool} {length : Nat} (few : length < Path.maxHeld) :
    holdable real [length] = .ok () :=
  holdable_of_few (by simpa using few) (by simpa [volume] using few)

/-- There is room for the probabilities of the states if there is room for the states. -/
theorem marginals_eq (room : Path.holdable p.diagram.counts = .ok ()) :
    p.marginals σ = p.stateProbabilities σ := by
  have fine : (p.diagram.counts.forM fun count => holdable true [count.toNat]) = .ok () :=
    Success.forM_iff.mpr fun count member =>
      holdable_single (Path.holdable_iff.mp room count member)
  rw [marginals, fine, Success.ok_bind]

/-- What a strategy leads to can be found out: its paths, the probabilities of the states, and the
distribution of the utility, which is not empty and has its risk measures at every level. -/
structure Analyzed (p : Problem Rat) (σ : Strategy) : Prop where
  compatible : ∃ compatible, σ.compatiblePaths p.diagram = .ok compatible
  marginals : ∃ marginals, p.marginals σ = .ok marginals
  distribution : ∃ entries, p.utilityDistribution σ = .ok entries ∧ entries ≠ [] ∧
    ∀ level, 0 < level → level ≤ 1 →
      (∃ v, Risk.valueAtRisk (entries.map (·.1)) (entries.map (·.2)) level = .ok v) ∧
      ∃ v, Risk.conditionalValueAtRisk (entries.map (·.1)) (entries.map (·.2)) level = .ok v

theorem Valued.analyzed (valued : p.Valued) (weighed : p.Weighed) (complete : σ.Complete p.diagram)
    (room : Path.holdable p.diagram.counts = .ok ()) : p.Analyzed σ where
  compatible := ⟨_, complete.entered.compatiblePaths_eq⟩
  marginals := ⟨_, (marginals_eq room).trans (weighed.stateProbabilities_spec complete.entered)⟩
  distribution := by
    obtain ⟨entries, found, some⟩ := valued.utilityDistribution_ne_nil weighed complete
    have utilities : entries.map (·.1) ≠ [] := mt List.map_eq_nil_iff.mp some
    have same : (entries.map (·.1)).length = (entries.map (·.2)).length := by
      rw [List.length_map, List.length_map]
    refine ⟨entries, found, some, fun level low high => ⟨?_, ?_⟩⟩
    · obtain ⟨v, _, value⟩ := Risk.valueAtRisk_mem utilities same low high
      exact ⟨v, value⟩
    · exact Risk.conditionalValueAtRisk_ok utilities same low high

/-- A strategy that is given as data is analyzed as the strategy that it stands for. -/
theorem exists_given (complete : σ.Complete p.diagram)
    (room : Path.holdable p.diagram.counts = .ok ()) :
    ∃ τ, (Plan.ofStrategy σ).strategy (.ofDiagram p.diagram) = .ok τ ∧ τ.Complete p.diagram ∧
      ∀ j ∈ p.diagram.decision, τ.get? j = σ.get? j := by
  have read := Plan.strategy_ofStrategy complete.entered
  rw [Path.walking_of_held room] at read
  refine ⟨_, read, fun j decision c context => ?_, fun j => complete.entered.get?_listed⟩
  obtain ⟨x, state, chosen⟩ := complete j decision c context
  refine ⟨x, state, ?_⟩
  rw [Strategy.choose?, complete.entered.get?_listed decision]
  exact chosen

/-- Where there is room to walk through the paths, nothing that comes after validation fails: the
decision model is built, every path selects an entry of every table, every choice that is looked up
is found, and every complete strategy can be analyzed. -/
theorem validated_never_fails (accepted : p.Accepted)
    (room : Path.holdable p.diagram.counts = .ok ()) :
    (∀ specs name, ∃ f, Formulation.formulate specs p name = .ok f ∧
        Formulation.build specs p name = .ok f) ∧
      (∀ j ∈ p.diagram.chance, ∃ t, p.probabilities.get? j = some t ∧
        ∀ s ∈ p.paths, Factor.Selects ⟨t, p.diagram.family j⟩ s) ∧
      (∀ v ∈ p.diagram.value, ∃ t, p.utilities.get? v = some t ∧
        ∀ s ∈ p.paths, Factor.Selects ⟨t, p.diagram.informationSet v⟩ s) ∧
      (∃ keys, (p.diagram.decision.mapM fun j =>
          return (j, ← Formulation.choiceKeys p.diagram j)) = (.ok keys : Except Fault _) ∧
        Formulation.ChoicesFound p.diagram keys) ∧
      ∀ σ : Strategy, σ.Complete p.diagram →
        ∃ τ, (Plan.ofStrategy σ).strategy (.ofDiagram p.diagram) = .ok τ ∧
          (∀ j ∈ p.diagram.decision, τ.get? j = σ.get? j) ∧ p.Analyzed τ ∧
          ∃ compatible, (Plan.ofStrategy σ).compatiblePaths (.ofDiagram p.diagram) =
            .ok compatible := by
  have weighed := accepted.weighed
  have valued := accepted.valued
  refine ⟨fun specs name => ?_, ?_, ?_,
    ⟨_, keys_eq p.diagram, Formulation.choicesFound p.diagram⟩, ?_⟩
  · have built := weighed.buildBy_eq valued toString specs name
    exact ⟨_, (Path.walking_of_held room).trans built, built⟩
  · intro j chance
    obtain ⟨t, table, found⟩ := weighed.table chance
    exact ⟨t, found, fun s member =>
      Factor.selects (weighed.shape j t table) (weighed.covers table) member⟩
  · intro v value
    obtain ⟨t, table, found⟩ := valued.table value
    have covered := p.diagram.covers_informationSet_of_full p.diagram.counts_length v
    exact ⟨t, found, fun s member => Factor.selects (valued.shape v t table) covered member⟩
  · intro σ complete
    obtain ⟨τ, read, whole, same⟩ := exists_given complete room
    have walked := Plan.compatiblePaths_ofStrategy complete.entered
    rw [Path.walking_of_held room, complete.entered.compatiblePaths_eq] at walked
    exact ⟨τ, read, same, valued.analyzed weighed whole room, _, walked⟩

/-- The umbrella problem has room for its paths, so half of the careful outcomes have a mean. -/
theorem umbrella_never_fails : Path.holdable umbrella.diagram.counts = .ok () ∧
    ∃ f τ entries v, Formulation.formulate {} umbrella "umbrella" = .ok f ∧
      Formulation.build {} umbrella "umbrella" = .ok f ∧
      (Plan.ofStrategy Strategy.careful).strategy (.ofDiagram umbrella.diagram) = .ok τ ∧
      umbrella.utilityDistribution τ = .ok entries ∧
      Risk.conditionalValueAtRisk (entries.map (·.1)) (entries.map (·.2)) (1 / 2) = .ok v := by
  have room : Path.holdable umbrella.diagram.counts = .ok () :=
    Path.holdable_iff.mpr (by decide)
  obtain ⟨builds, _, _, _, analyzes⟩ := validated_never_fails umbrella_accepted room
  obtain ⟨f, formulated, built⟩ := builds {} "umbrella"
  obtain ⟨τ, read, _, analyzed, _⟩ := analyzes _ Strategy.careful_complete
  obtain ⟨entries, found, _, measures⟩ := analyzed.distribution
  obtain ⟨v, value⟩ := (measures (1 / 2) (by norm_num) (by norm_num)).2
  exact ⟨room, f, τ, entries, v, formulated, built, read, found, value⟩

/-- A single decision between more states than can be counted. -/
def vast : Problem Rat where
  diagram := {
    toOutline := Outline.ofLists [] [1] [] []
    counts := [2 ^ 63]
    layered := (@Outline.layered_of_defect [] [1] [] [] 1 rfl).1
    counts_length := rfl
    counts_pos := by decide }
  probabilities := []
  utilities := []

/-- Validation does not ask for room, so the paths of an accepted problem may be too many. -/
theorem vast_without_room : vast.Accepted ∧ Strategy.Complete [(1, [([], 1)])] vast.diagram ∧
    (Plan.ofStrategy [(1, [([], 1)])]).strategy (.ofDiagram vast.diagram) =
      .error .rangeTooLarge := by
  have complete : Strategy.Complete [(1, [([], 1)])] vast.diagram := by
    intro j decision c context
    obtain rfl : j = 1 := List.mem_singleton.mp decision
    obtain rfl : c = [] := List.mem_singleton.mp context
    exact ⟨1, mem_states.mpr (by decide), rfl⟩
  refine ⟨vast.accepted_iff.mpr (by decide), complete, ?_⟩
  rw [Plan.strategy_ofStrategy complete.entered]
  rfl

end Problem

end InfluenceProgram
