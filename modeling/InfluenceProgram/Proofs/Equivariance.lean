import InfluenceProgram.Proofs.Ancestors
import InfluenceProgram.Proofs.Relabelling
import InfluenceProgram.Proofs.Validated

/-!
Problems under other labels. Tables and strategies go along with a relabelling of the nodes, their
axes in the order of the new labels. Nothing else changes: the tables are accepted again, renamed
paths have the probabilities and utilities that they had and are compatible with the same
strategies, and what a strategy leads to stays the same.
-/

set_option autoImplicit false

namespace InfluenceProgram

namespace Diagram.Relabelling

variable {d : Diagram} (ρ : d.Relabelling) {nodes : Diagram → Int → List Int} {j : Int}

/-- The table of a node with its axes in the order of the new labels. -/
def table (nodes : Diagram → Int → List Int) (j : Int) (t : Tensor Rat) : Tensor Rat :=
  t.relaid (Path.select ρ.diagram.counts (nodes ρ.diagram (ρ.label j))) (ρ.old nodes j)

/-- Tables as they are given under the new labels. -/
def given (nodes : Diagram → Int → List Int) (tables : Keyed Int (Tensor Rat)) :
    Keyed Int (Supplied Rat) :=
  tables.map fun e => (ρ.label e.1, .table (ρ.table nodes e.1 e.2))

variable {ρ} {t : Tensor Rat} {tables : Keyed Int (Tensor Rat)}

theorem keys_given : (ρ.given nodes tables).keys = tables.keys.map ρ.label := by
  rw [Keyed.keys, given, List.map_map, Keyed.keys, List.map_map]
  rfl

theorem get?_given (distinct : tables.keys.Nodup) (member : (j, t) ∈ tables) :
    (ρ.given nodes tables).get? (ρ.label j) = some (.table (ρ.table nodes j t)) := by
  apply Keyed.get?_of_mem
  · rw [keys_given]
    exact distinct.map ρ.label.injective
  · exact List.mem_map_of_mem (f := fun e : Int × Tensor Rat =>
      (ρ.label e.1, Supplied.table (ρ.table nodes e.1 e.2))) member

/-- A renamed path selects the entry that the path selects. -/
theorem Carries.valueAt_table (carries : ρ.Carries nodes j) {s : Path}
    (member : s ∈ paths d.counts) :
    (ρ.table nodes j t).valueAt ((ρ.path s).select (nodes ρ.diagram (ρ.label j))) =
      t.valueAt (s.select (nodes d j)) := by
  rw [table, Tensor.valueAt_relaid (Path.select_mem_paths (ρ.path_mem member) carries.covers),
    carries.old_select]

/-- The entries of a table under the new labels are entries that it had. -/
theorem Carries.mem_of_mem_table (carries : ρ.Carries nodes j)
    (shape : t.shape = d.axes (nodes d j)) {x : Rat} (member : x ∈ (ρ.table nodes j t).entries) :
    x ∈ t.entries := by
  obtain ⟨c, inside, rfl⟩ := Tensor.exists_of_mem_relaid member
  exact (Tensor.get_of_path shape (carries.old_mem inside)).2

/-- A context has the total that it had under the old labels. -/
theorem total_table (low : 1 ≤ j) (high : j ≤ d.inner) {c : Path}
    (context : c ∈ ρ.diagram.contexts (ρ.label j)) :
    (ρ.table family j t).total ρ.diagram (ρ.label j) c =
      t.total d j (ρ.old informationSet j c) := by
  rw [Tensor.total, Tensor.total, ρ.count_eq low high]
  refine congrArg List.sum (List.map_congr_left fun x state => ?_)
  rw [← ρ.count_eq low high] at state
  rw [table, Tensor.valueAt_relaid (Diagram.mem_paths_family.mpr ⟨c, context, x, state, rfl⟩),
    old_concat context]

/-- Tables that pass their checks under the new labels are taken over, each under its new label. -/
theorem exists_tables {read : Int → Option (Supplied Rat) → Except Fault (Tensor Rat)}
    {allowed : List Int} (perm : allowed.Perm (tables.keys.map ρ.label))
    (distinct : tables.keys.Nodup)
    (fine : ∀ j t, (j, t) ∈ tables →
      read (ρ.label j) (some (.table (ρ.table nodes j t))) = .ok (ρ.table nodes j t)) :
    ∃ taken, (allowed.mapM fun k => return (k, ← read k ((ρ.given nodes tables).get? k))) =
        .ok taken ∧
      ∀ j t, (j, t) ∈ tables → Keyed.get? (ρ.label j) taken = some (ρ.table nodes j t) := by
  have each : ∀ k ∈ allowed, ∃ entry,
      (do return (k, ← read k ((ρ.given nodes tables).get? k))) = Except.ok entry := by
    intro k member
    obtain ⟨j, known, rfl⟩ := List.mem_map.mp (perm.mem_iff.mp member)
    obtain ⟨⟨j, t⟩, present, rfl⟩ := List.mem_map.mp known
    refine ⟨(ρ.label j, ρ.table nodes j t), ?_⟩
    rw [get?_given distinct present, fine j t present]
    rfl
  obtain ⟨taken, found⟩ := Success.exists_mapM each
  -- The tables are taken in the order of `allowed`, so each is found by its key, not by its place.
  obtain ⟨keys, values⟩ := tables_of_mapM found
  refine ⟨taken, found, fun j t present => ?_⟩
  have known : ρ.label j ∈ Keyed.keys taken := by
    rw [keys, perm.mem_iff]
    exact List.mem_map_of_mem (Keyed.mem_keys present)
  obtain ⟨t', at'⟩ := Keyed.exists_of_mem_keys known
  have same := values _ _ (Keyed.mem_of_get? at')
  rw [get?_given distinct present, fine j t present] at same
  rw [at', Except.ok.inj same]

end Diagram.Relabelling

namespace Strategy

/-- The strategy under the new labels: in each context it takes the state that it took in the
context under the old labels. -/
def relabel {d : Diagram} (σ : Strategy) (ρ : d.Relabelling) : Strategy :=
  tabulate ρ.diagram fun k c =>
    (σ.choose? (ρ.label.symm k) (ρ.old Diagram.informationSet (ρ.label.symm k) c)).getD 1

variable {d : Diagram} {σ : Strategy}

theorem Complete.choose?_relabel (complete : σ.Complete d) (ρ : d.Relabelling) {j : Int}
    (decision : j ∈ d.decision) {c : Path} (context : c ∈ ρ.diagram.contexts (ρ.label j)) :
    (σ.relabel ρ).choose? (ρ.label j) c = σ.choose? j (ρ.old Diagram.informationSet j c) := by
  obtain ⟨x, _, chosen⟩ :=
    complete j decision _ ((ρ.carries_informationSet j).old_mem context)
  rw [relabel, choose?_tabulate _ (ρ.mem_decision.mpr decision) context,
    ρ.label.symm_apply_apply, chosen, Option.getD_some]

theorem Complete.relabel (complete : σ.Complete d) (ρ : d.Relabelling) :
    (σ.relabel ρ).Complete ρ.diagram := by
  intro k decision c context
  obtain ⟨j, old, rfl⟩ := List.mem_map.mp (ρ.decision_perm.mem_iff.mp decision)
  have range := d.inner_of_decision old
  rw [complete.choose?_relabel ρ old context, ρ.count_eq range.1 range.2]
  exact complete j old _ ((ρ.carries_informationSet j).old_mem context)

/-- A renamed path takes the choices that the path takes. -/
theorem Complete.takes_relabel (complete : σ.Complete d) (ρ : d.Relabelling) {s : Path}
    (member : s ∈ paths d.counts) :
    (σ.relabel ρ).Takes ρ.diagram (ρ.path s) ↔ σ.Takes d s := by
  have each : ∀ j ∈ d.decision, (σ.relabel ρ).choose? (ρ.label j)
      ((ρ.path s).select (ρ.diagram.informationSet (ρ.label j))) =
        some ((ρ.path s).stateAt (ρ.label j)) ↔
      σ.choose? j (s.select (d.informationSet j)) = some (s.stateAt j) := by
    intro j decision
    have range := d.inner_of_decision decision
    rw [complete.choose?_relabel ρ decision
      (Diagram.select_mem_contexts (ρ.path_mem member) _),
      (ρ.carries_informationSet j).old_select, ρ.stateAt_path s range.1 range.2]
  constructor
  · intro takes j decision
    exact (each j decision).mp (takes _ (ρ.mem_decision.mpr decision))
  · intro takes k decision
    obtain ⟨j, old, rfl⟩ := List.mem_map.mp (ρ.decision_perm.mem_iff.mp decision)
    exact (each j old).mpr (takes j old)

end Strategy

namespace Problem

/-- A problem over the relabelled diagram that has the tables of another one. -/
structure Relabelled (p : Problem Rat) (ρ : p.diagram.Relabelling) (q : Problem Rat) : Prop where
  diagram : q.diagram = ρ.diagram
  probabilities : ∀ j t, (j, t) ∈ p.probabilities →
    q.probabilities.get? (ρ.label j) = some (ρ.table Diagram.family j t)
  utilities : ∀ v t, (v, t) ∈ p.utilities →
    q.utilities.get? (ρ.label v) = some (ρ.table Diagram.informationSet v t)

variable {p q : Problem Rat} {σ : Strategy} {ρ : p.diagram.Relabelling}

theorem Weighed.validate_relabelled (weighed : p.Weighed) (ρ : p.diagram.Relabelling) :
    ∃ taken, validateProbabilities ρ.diagram (ρ.given Diagram.family p.probabilities) = .ok taken ∧
      ∀ j t, (j, t) ∈ p.probabilities →
        Keyed.get? (ρ.label j) taken = some (ρ.table Diagram.family j t) := by
  have perm : ρ.diagram.chance.Perm (p.probabilities.keys.map ρ.label) :=
    weighed.keys ▸ ρ.chance_perm
  unfold validateProbabilities
  rw [Diagram.Relabelling.keys_given, leastExtra?_eq_none perm.symm.subset]
  refine Diagram.Relabelling.exists_tables perm weighed.distinct fun j t member => ?_
  have range := weighed.inner member
  have image := (ρ.inner_iff j).mpr range
  have checked :
      checkProbabilities ρ.diagram (ρ.label j) (ρ.table Diagram.family j t) = .ok () := by
    refine (checkProbabilities_iff image.1 (ρ.inner_diagram ▸ image.2) _).mpr
      ⟨rfl, fun x entry => ?_, fun c context => ?_⟩
    · exact weighed.nonneg j t member x ((ρ.carries_family range.1 range.2).mem_of_mem_table
        (weighed.shape j t member) entry)
    · rw [Diagram.Relabelling.total_table range.1 range.2 context]
      exact weighed.total j t member _ ((ρ.carries_informationSet j).old_mem context)
  rw [probabilityTable, Supplied.tensor, Success.ok_bind, checked]
  rfl

theorem Valued.validate_relabelled (valued : p.Valued) (ρ : p.diagram.Relabelling) :
    ∃ taken, validateUtilities ρ.diagram (ρ.given Diagram.informationSet p.utilities) =
        .ok taken ∧
      ∀ v t, (v, t) ∈ p.utilities →
        Keyed.get? (ρ.label v) taken = some (ρ.table Diagram.informationSet v t) := by
  have stay : p.utilities.keys.map ρ.label = p.diagram.value := by
    rw [valued.keys]
    exact (List.map_congr_left fun v value => ρ.value_eq value).trans (List.map_id _)
  have perm : ρ.diagram.value.Perm (p.utilities.keys.map ρ.label) := by
    rw [stay]
    exact .of_eq ρ.value_outline
  unfold validateUtilities
  rw [Diagram.Relabelling.keys_given, leastExtra?_eq_none perm.symm.subset]
  refine Diagram.Relabelling.exists_tables perm valued.distinct fun v t member => ?_
  rw [utilityTable, Supplied.tensor, Success.ok_bind, (checkUtilities_iff _).mpr rfl]
  rfl

/-- Validation accepts the tables under the new labels. -/
theorem Accepted.create_relabelled (accepted : p.Accepted) (ρ : p.diagram.Relabelling) :
    ∃ q, create ρ.diagram (ρ.given Diagram.family p.probabilities)
      (ρ.given Diagram.informationSet p.utilities) = .ok q ∧ p.Relabelled ρ q := by
  obtain ⟨probabilities, validX, tablesX⟩ := accepted.weighed.validate_relabelled ρ
  obtain ⟨utilities, validY, tablesY⟩ := accepted.valued.validate_relabelled ρ
  refine ⟨⟨ρ.diagram, probabilities, utilities⟩, ?_, rfl, tablesX, tablesY⟩
  rw [create, validX, Success.ok_bind, validY]
  rfl

theorem Relabelled.paths_perm (relabelled : p.Relabelled ρ q) :
    q.paths.Perm (p.paths.map ρ.path) := by
  rw [paths, relabelled.diagram]
  exact ρ.paths_perm

theorem Relabelled.path_mem (relabelled : p.Relabelled ρ q) {s : Path} (member : s ∈ p.paths) :
    ρ.path s ∈ q.paths := by
  rw [paths, relabelled.diagram]
  exact ρ.path_mem member

theorem Relabelled.on_eq (relabelled : p.Relabelled ρ q) (weighed : p.Weighed) {j : Int}
    (chance : j ∈ p.diagram.chance) {s : Path} (member : s ∈ p.paths) :
    q.conditional.on ρ.diagram (ρ.path s) (ρ.label j) = p.conditional.on p.diagram s j := by
  obtain ⟨t, present, found⟩ := weighed.table chance
  have range := p.diagram.inner_of_chance chance
  rw [Kernel.on, conditional, relabelled.probabilities j t present, Kernel.on, conditional, found,
    Option.map_some, Option.map_some, Option.getD_some, Option.getD_some,
    ← Diagram.select_family, ← Diagram.select_family]
  exact (ρ.carries_family range.1 range.2).valueAt_table member

/-- A renamed path has the probability of the path. -/
theorem Relabelled.weight_eq (relabelled : p.Relabelled ρ q) (weighed : p.Weighed) {s : Path}
    (member : s ∈ p.paths) : q.weight (ρ.path s) = p.weight s := by
  have perm : ρ.diagram.chance.Perm (p.diagram.chance.map ρ.label) := ρ.chance_perm
  rw [weight, relabelled.diagram, Kernel.along, (perm.map _).prod_eq, List.map_map]
  exact congrArg List.prod
    (List.map_congr_left fun j chance => relabelled.on_eq weighed chance member)

/-- A renamed path has the utility of the path. -/
theorem Relabelled.gain_eq (relabelled : p.Relabelled ρ q) (valued : p.Valued) (least : Rat)
    {s : Path} (member : s ∈ p.paths) : q.gain least (ρ.path s) = p.gain least s := by
  have payoffs : ∀ v ∈ p.diagram.value, q.payoff v (ρ.path s) = p.payoff v s := by
    intro v value
    obtain ⟨t, present, found⟩ := valued.table value
    have entry := (ρ.carries_informationSet v).valueAt_table (t := t) member
    have table := relabelled.utilities v t present
    -- A value node keeps its label, but what it knows may come in another order.
    rw [ρ.value_eq value] at entry table
    rw [payoff, payoff, table, found, relabelled.diagram]
    exact entry
  have nodes : q.diagram.value = p.diagram.value := by
    rw [relabelled.diagram]
    exact ρ.value_outline
  rw [gain, gain, nodes]
  refine congrArg List.sum (List.map_congr_left fun v value => ?_)
  rw [payoffs v value]

/-- The renamed paths that take the choices of a strategy are those that did. -/
theorem Relabelled.taken_perm (relabelled : p.Relabelled ρ q) (complete : σ.Complete p.diagram) :
    (q.taken (σ.relabel ρ)).Perm ((p.taken σ).map ρ.path) := by
  have kept : (p.paths.map ρ.path).filter ((σ.relabel ρ).Takes q.diagram ·) =
      (p.taken σ).map ρ.path := by
    rw [List.filter_map, taken, relabelled.diagram]
    refine congrArg (List.map _) (List.filter_congr fun s member => ?_)
    simp only [Function.comp_apply, complete.takes_relabel ρ member]
  rw [← kept]
  exact relabelled.paths_perm.filter _

/-- A sum over the compatible paths of the relabelled problem is one over the paths they were. -/
theorem Relabelled.sum_taken (relabelled : p.Relabelled ρ q) (complete : σ.Complete p.diagram)
    {f g : Path → Rat} (same : ∀ s ∈ p.paths, f (ρ.path s) = g s) :
    ((q.taken (σ.relabel ρ)).map f).sum = ((p.taken σ).map g).sum := by
  rw [((relabelled.taken_perm complete).map f).sum_eq, List.map_map]
  exact congrArg List.sum
    (List.map_congr_left fun s member => same s (mem_taken.mp member).1)

theorem Relabelled.mass_eq (relabelled : p.Relabelled ρ q) (weighed : p.Weighed)
    (valued : p.Valued) (complete : σ.Complete p.diagram) : q.mass (σ.relabel ρ) = p.mass σ := by
  funext u
  refine relabelled.sum_taken complete fun s member => ?_
  rw [relabelled.gain_eq valued 0 member, relabelled.weight_eq weighed member]

/-- Under its new label a node has the states of the old one as often. -/
theorem Relabelled.marginal_eq (relabelled : p.Relabelled ρ q) (weighed : p.Weighed)
    (complete : σ.Complete p.diagram) {j : Int} (low : 1 ≤ j) (high : j ≤ p.diagram.inner) :
    q.marginal (σ.relabel ρ) (ρ.label j) = p.marginal σ j := by
  funext x
  refine relabelled.sum_taken complete fun s member => ?_
  rw [ρ.stateAt_path s low high, relabelled.weight_eq weighed member]

/-- There is room for the renamed state counts where there was room for the state counts. -/
theorem holdable_path {d : Diagram} (ρ : d.Relabelling)
    (room : Path.holdable d.counts = .ok ()) : Path.holdable ρ.diagram.counts = .ok () := by
  refine Path.holdable_iff.mpr (List.forall_mem_map.mpr fun k node => ?_)
  rw [mem_span] at node
  have range := (ρ.inner_symm_iff k).mpr (by omega)
  have inside : (ρ.label.symm k - 1).toNat < d.counts.length := by
    rw [d.counts_length]
    omega
  rw [Path.stateAt, List.getD_eq_getElem _ _ inside]
  exact Path.holdable_iff.mp room _ (List.getElem_mem inside)

/-- Whatever labels the nodes of an accepted problem get, as long as arcs ascend, the diagram and
the tables are accepted under the new labels. Renamed paths have the probabilities and utilities
that they had, they are compatible with the strategy under the new labels if they were with the
strategy, and the distribution of the utility and the probabilities of the states of every node stay
what they were. -/
theorem relabelling_equivariant (accepted : p.Accepted) (complete : σ.Complete p.diagram)
    (ρ : p.diagram.Relabelling) :
    Diagram.create (p.diagram.chance.map ρ.label) (p.diagram.decision.map ρ.label)
        p.diagram.value (p.diagram.arcs.map ρ.arc) ((ρ.path p.diagram.counts).map .int) =
      .ok ρ.diagram ∧
    (σ.relabel ρ).Complete ρ.diagram ∧
    ∃ q, create ρ.diagram (ρ.given Diagram.family p.probabilities)
        (ρ.given Diagram.informationSet p.utilities) = .ok q ∧
      q.diagram = ρ.diagram ∧ q.paths.Perm (p.paths.map ρ.path) ∧
      (∀ s ∈ p.paths, ∃ weight, p.probability s = .ok weight ∧
        q.probability (ρ.path s) = .ok weight) ∧
      (∀ s ∈ p.paths, ∀ least, ∃ gain, p.utility least s = .ok gain ∧
        q.utility least (ρ.path s) = .ok gain) ∧
      (∃ compatible compatible', σ.compatiblePaths p.diagram = .ok compatible ∧
        (σ.relabel ρ).compatiblePaths q.diagram = .ok compatible' ∧
        compatible'.Perm (compatible.map ρ.path)) ∧
      (∃ distribution, p.utilityDistribution σ = .ok distribution ∧
        q.utilityDistribution (σ.relabel ρ) = .ok distribution) ∧
      ∃ vectors vectors', p.stateProbabilities σ = .ok vectors ∧
        q.stateProbabilities (σ.relabel ρ) = .ok vectors' ∧
        (Path.holdable p.diagram.counts = .ok () →
          p.marginals σ = .ok vectors ∧ q.marginals (σ.relabel ρ) = .ok vectors') ∧
        ∀ j ∈ p.diagram.innerNodes, ∃ vector, Keyed.get? j vectors = some vector ∧
          Keyed.get? (ρ.label j) vectors' = some vector := by
  have weighed := accepted.weighed
  have valued := accepted.valued
  obtain ⟨q, created, relabelled⟩ := accepted.create_relabelled ρ
  have made : create q.diagram _ _ = .ok q := relabelled.diagram ▸ created
  have accepted' : q.Accepted := ⟨_, _, made⟩
  have complete' : (σ.relabel ρ).Complete q.diagram := relabelled.diagram ▸ complete.relabel ρ
  refine ⟨ρ.create_eq, complete.relabel ρ, q, created, relabelled.diagram, relabelled.paths_perm,
    ?_, ?_, ?_, ?_, ?_⟩
  · intro s member
    have image := accepted'.weighed.probability_eq (relabelled.path_mem member)
    rw [relabelled.weight_eq weighed member] at image
    exact ⟨_, weighed.probability_eq member, image⟩
  · intro s member least
    have image := accepted'.valued.utility_eq least (relabelled.path_mem member)
    rw [relabelled.gain_eq valued least member] at image
    exact ⟨_, valued.utility_eq least member, image⟩
  · exact ⟨_, _, complete.entered.compatiblePaths_eq, complete'.entered.compatiblePaths_eq,
      relabelled.taken_perm complete⟩
  · obtain ⟨distribution, found, distributed⟩ :=
      valued.utilityDistribution_spec weighed complete.entered
    obtain ⟨distribution', found', distributed'⟩ :=
      accepted'.valued.utilityDistribution_spec accepted'.weighed complete'.entered
    rw [relabelled.mass_eq weighed valued complete] at distributed'
    exact ⟨distribution, found, distributed.unique distributed' ▸ found'⟩
  · have table := weighed.stateProbabilities_spec complete.entered
    have table' := accepted'.weighed.stateProbabilities_spec complete'.entered
    refine ⟨_, _, table, table', fun room => ⟨(marginals_eq room).trans table, ?_⟩,
      fun j inner => ?_⟩
    · refine (marginals_eq ?_).trans table'
      rw [relabelled.diagram]
      exact holdable_path ρ room
    · have range := p.diagram.mem_innerNodes.mp inner
      have image : ρ.label j ∈ q.diagram.innerNodes := by
        rw [relabelled.diagram, Diagram.mem_innerNodes, ρ.inner_diagram]
        exact (ρ.inner_iff j).mpr range
      refine ⟨_, Keyed.get?_map_of_mem _ inner, ?_⟩
      rw [Keyed.get?_map_of_mem _ image, relabelled.marginal_eq weighed complete range.1 range.2,
        relabelled.diagram, ρ.count_eq range.1 range.2]

/-- The umbrella of the errand comes before the forecast. -/
def umbrellaFirst : (errand (1 / 2)).diagram.Relabelling where
  label := Equiv.swap 2 3
  fixes := by
    intro j outside
    refine Equiv.swap_apply_of_ne_of_ne ?_ ?_
    · rintro rfl
      exact outside (by decide +kernel)
    · rintro rfl
      exact outside (by decide +kernel)
  ascending := by decide +kernel

/-- With the umbrella before the forecast, the note reads its context the other way round, the
errand is worth the same, and the umbrella is taken as often. -/
theorem errand_umbrella_first : ∃ q distribution vectors vectors' vector,
    create umbrellaFirst.diagram
      (umbrellaFirst.given Diagram.family (errand (1 / 2)).probabilities)
      (umbrellaFirst.given Diagram.informationSet (errand (1 / 2)).utilities) = .ok q ∧
    umbrellaFirst.diagram.decision = [2, 4] ∧
    (noting 1).choose? 4 [2, 1] = some 2 ∧
    ((noting 1).relabel umbrellaFirst).choose? 4 [2, 1] = some 1 ∧
    (errand (1 / 2)).utilityDistribution (noting 1) = .ok distribution ∧
    q.utilityDistribution ((noting 1).relabel umbrellaFirst) = .ok distribution ∧
    (errand (1 / 2)).stateProbabilities (noting 1) = .ok vectors ∧
    q.stateProbabilities ((noting 1).relabel umbrellaFirst) = .ok vectors' ∧
    Keyed.get? 3 vectors = some vector ∧ Keyed.get? 2 vectors' = some vector := by
  have accepted : (errand (1 / 2)).Accepted := (accepted_iff _).mpr (by decide +kernel)
  have complete : (noting 1).Complete (errand (1 / 2)).diagram := by decide +kernel
  obtain ⟨_, _, q, created, _, _, _, _, _, ⟨distribution, worth, worth'⟩, vectors, vectors', states,
    states', _, same⟩ := relabelling_equivariant accepted complete umbrellaFirst
  obtain ⟨vector, found, found'⟩ := same 3 (by decide +kernel)
  exact ⟨q, distribution, vectors, vectors', vector, created, by decide +kernel, by decide +kernel,
    by decide +kernel, worth, worth', states, states', found, found'⟩

end Problem

end InfluenceProgram
