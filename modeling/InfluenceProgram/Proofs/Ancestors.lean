import InfluenceProgram.Proofs.Distribution
import InfluenceProgram.Proofs.Elimination
import InfluenceProgram.Proofs.Marginals

/-!
What the result of a strategy depends on. The probabilities of the states of a node depend only on
the tables and the local strategies of the node and its ancestors, and the distribution of the
utility only on those of the ancestors of the value nodes. What is done elsewhere changes nothing.
-/

set_option autoImplicit false

namespace InfluenceProgram

namespace Diagram

/-- The nodes from which a chain of arcs leads to a node. -/
def ancestors (d : Diagram) (j : Int) : Set Int :=
  {i | Relation.TransGen (fun a b => (a, b) ∈ d.arcs) i j}

/-- A node together with its ancestors. -/
def upstream (d : Diagram) (j : Int) : Set Int := insert j (d.ancestors j)

/-- The nodes from which a chain of arcs leads to some value node. -/
def valueAncestors (d : Diagram) : Set Int := {i | ∃ v ∈ d.value, i ∈ d.ancestors v}

variable {d : Diagram}

theorem inner_of_mem_ancestors {i j : Int} (ancestor : i ∈ d.ancestors j) :
    1 ≤ i ∧ i ≤ d.inner := by
  obtain ⟨k, arc, _⟩ := Relation.TransGen.head'_iff.mp ancestor
  have bounds := d.layered.arc_bounds _ arc
  exact ⟨bounds.1, bounds.2.2.2⟩

theorem parent_mem_ancestors {i j : Int} (parent : i ∈ d.informationSet j) :
    i ∈ d.ancestors j := Relation.TransGen.single (d.mem_informationSet.mp parent)

theorem parent_of_ancestor {i k j : Int} (parent : k ∈ d.informationSet i)
    (ancestor : i ∈ d.ancestors j) : k ∈ d.ancestors j :=
  Relation.TransGen.head (d.mem_informationSet.mp parent) ancestor

theorem upstream_ancestral {j : Int} (inner : j ∈ d.innerNodes) :
    d.Ancestral (d.upstream j) where
  inner := by
    rintro i (rfl | ancestor)
    · rw [innerNodes, mem_span] at inner
      omega
    · exact inner_of_mem_ancestors ancestor
  parents := by
    rintro i (rfl | ancestor) k parent
    · exact Or.inr (parent_mem_ancestors parent)
    · exact Or.inr (parent_of_ancestor parent ancestor)

theorem valueAncestors_ancestral (d : Diagram) : d.Ancestral d.valueAncestors where
  inner := fun _ ⟨_, _, ancestor⟩ => inner_of_mem_ancestors ancestor
  parents := fun _ ⟨v, value, ancestor⟩ _ parent =>
    ⟨v, value, parent_of_ancestor parent ancestor⟩

/-- A set that arcs do not enter from outside has all ancestors of its nodes. -/
theorem mem_of_ancestor {nodes : Set Int} (closed : ∀ a ∈ d.arcs, a.2 ∈ nodes → a.1 ∈ nodes)
    {i j : Int} (ancestor : i ∈ d.ancestors j) (member : j ∈ nodes) : i ∈ nodes := by
  induction ancestor using Relation.TransGen.head_induction_on with
  | single arc => exact closed _ arc member
  | head arc _ later => exact closed _ arc later

end Diagram

namespace Problem

/-- Two problems over one diagram and two strategies coincide at some nodes if chance nodes among
them have the same tables and decision nodes among them take the same states. -/
structure Coincide (p q : Problem Rat) (σ τ : Strategy) (nodes : Set Int) : Prop where
  tables : ∀ j ∈ nodes, j ∈ p.diagram.chance → q.probabilities.get? j = p.probabilities.get? j
  choices : ∀ j ∈ nodes, j ∈ p.diagram.decision → ∀ c ∈ p.diagram.contexts j,
    τ.choose? j c = σ.choose? j c

variable {p q : Problem Rat} {σ τ : Strategy}

theorem Weighed.stochastic (weighed : p.Weighed) (normalized : p.Normalized)
    (complete : σ.Complete p.diagram) :
    (p.conditional.under p.diagram σ).Stochastic p.diagram := by
  intro j inner c context
  have bounds := ((weighed.bounded_of_normalized normalized).under complete).total j inner c context
  rw [ite_self] at bounds
  exact le_antisymm bounds.2 bounds.1

theorem Coincide.mono {some all : Set Int} (coincide : p.Coincide q σ τ all) (within : some ⊆ all) :
    p.Coincide q σ τ some where
  tables j member := coincide.tables j (within member)
  choices j member := coincide.choices j (within member)

/-- What coincides at an ancestral set gives the same expectation of values that read only this. -/
theorem Coincide.sum_eq {nodes : Set Int} (coincide : p.Coincide q σ τ nodes)
    (same : q.diagram = p.diagram) (ancestral : p.diagram.Ancestral nodes)
    (stochasticP : (p.conditional.under p.diagram σ).Stochastic p.diagram)
    (stochasticQ : (q.conditional.under q.diagram τ).Stochastic q.diagram) {f g : Path → Rat}
    (values : ∀ s ∈ p.paths, ∀ t ∈ p.paths, Path.AgreeOn nodes s t → f s = g t) :
    ((p.taken σ).map fun s => f s * p.weight s).sum =
      ((q.taken τ).map fun s => g s * q.weight s).sum := by
  have kernels : Kernel.AgreeOn p.diagram nodes (p.conditional.under p.diagram σ)
      (q.conditional.under p.diagram τ) := by
    intro j member c context x state
    unfold Kernel.under
    by_cases decision : j ∈ p.diagram.decision
    · rw [if_pos decision, if_pos decision, coincide.choices j member decision c context]
    · have range := ancestral.inner j member
      have chance := ((p.diagram.layered.inner_iff j).mpr range).resolve_right decision
      rw [if_neg decision, if_neg decision, conditional, conditional,
        coincide.tables j member chance]
  rw [← sum_under, ← sum_under, paths, paths, same]
  rw [same] at stochasticQ
  exact Kernel.sum_along_eq_of_agree ancestral stochasticP stochasticQ kernels values

/-- Only the states of the ancestors of the value nodes have a say in the utility of a path. -/
theorem gain_eq_of_agree (same : q.diagram = p.diagram) (utilities : q.utilities = p.utilities)
    {s t : Path} (agree : Path.AgreeOn p.diagram.valueAncestors s t) : p.gain 0 s = q.gain 0 t := by
  unfold gain payoff
  rw [same, utilities]
  congr 1
  apply List.map_congr_left
  intro v value
  have context : s.select (p.diagram.informationSet v) = t.select (p.diagram.informationSet v) :=
    agree.select_eq fun i parent => ⟨v, value, Diagram.parent_mem_ancestors parent⟩
  rw [context]

/-- In problems with exact tables over one diagram, strategies that coincide at a node and its
ancestors give the states of the node the same probabilities, and strategies that coincide at the
ancestors of the value nodes give the same distribution of the same utilities. -/
theorem ancestors_determine (same : q.diagram = p.diagram) (acceptedP : p.Accepted)
    (acceptedQ : q.Accepted) (normalizedP : p.Normalized) (normalizedQ : q.Normalized)
    (completeP : σ.Complete p.diagram) (completeQ : τ.Complete q.diagram) :
    (∀ j ∈ p.diagram.innerNodes, p.Coincide q σ τ (p.diagram.upstream j) →
      (∃ first second vector, p.stateProbabilities σ = .ok first ∧
        q.stateProbabilities τ = .ok second ∧
        Keyed.get? j first = some vector ∧ Keyed.get? j second = some vector) ∧
      (p.marginals σ).map (Keyed.get? j) = (q.marginals τ).map (Keyed.get? j)) ∧
      (q.utilities = p.utilities → p.Coincide q σ τ p.diagram.valueAncestors →
        ∃ distribution, p.utilityDistribution σ = .ok distribution ∧
          q.utilityDistribution τ = .ok distribution) := by
  have stochasticP := acceptedP.weighed.stochastic normalizedP completeP
  have stochasticQ := acceptedQ.weighed.stochastic normalizedQ completeQ
  have tableP := acceptedP.weighed.stateProbabilities_spec completeP.entered
  have tableQ := acceptedQ.weighed.stateProbabilities_spec completeQ.entered
  constructor
  · intro j inner coincide
    have equal : p.marginal σ j = q.marginal τ j := by
      funext x
      have sums := coincide.sum_eq same (Diagram.upstream_ancestral inner) stochasticP stochasticQ
        (f := fun s => if s.stateAt j = x then 1 else 0)
        (g := fun s => if s.stateAt j = x then 1 else 0)
        fun s _ t _ agree => by rw [agree j (Or.inl rfl)]
      simpa only [ite_mul, one_mul, zero_mul, marginal] using sums
    have first := Keyed.get?_map_of_mem
      (fun j => (states (p.diagram.count j)).map (p.marginal σ j)) inner
    have second := Keyed.get?_map_of_mem
      (fun j => (states (p.diagram.count j)).map (q.marginal τ j)) inner
    rw [same] at tableQ
    rw [← equal] at second
    refine ⟨⟨_, _, _, tableP, tableQ, first, second⟩, ?_⟩
    rw [marginals, marginals, tableP, tableQ, same]
    cases p.diagram.counts.forM fun count => holdable true [count.toNat] with
    | error fault => rfl
    | ok _ => exact congrArg Except.ok (first.trans second.symm)
  · intro utilities coincide
    have masses : p.mass σ = q.mass τ := by
      funext u
      have sums := coincide.sum_eq same p.diagram.valueAncestors_ancestral stochasticP stochasticQ
        (f := fun s => if p.gain 0 s = u then 1 else 0)
        (g := fun s => if q.gain 0 s = u then 1 else 0)
        fun s _ t _ agree => by rw [gain_eq_of_agree same utilities agree]
      simpa only [ite_mul, one_mul, zero_mul, mass] using sums
    obtain ⟨first, foundP, ofP⟩ :=
      acceptedP.valued.utilityDistribution_spec acceptedP.weighed completeP.entered
    obtain ⟨second, foundQ, ofQ⟩ :=
      acceptedQ.valued.utilityDistribution_spec acceptedQ.weighed completeQ.entered
    rw [← masses] at ofQ
    exact ⟨first, foundP, ofP.unique ofQ ▸ foundQ⟩

/-- The weather decides what an umbrella is worth. A forecast that hits it so often is only noted
down, together with whether there is an umbrella. -/
def errand (hit : Rat) : Problem Rat where
  diagram := {
    toOutline := Outline.ofLists [1, 2] [3, 4] [5] [(1, 2), (1, 3), (1, 5), (2, 4), (3, 4), (3, 5)]
    counts := [2, 2, 2, 2]
    layered := (@Outline.layered_of_defect [1, 2] [3, 4] [5]
      [(1, 2), (1, 3), (1, 5), (2, 4), (3, 4), (3, 5)] 4 rfl).1
    counts_length := rfl
    counts_pos := by decide }
  probabilities := [(1, ⟨[2], #[2 / 5, 3 / 5], rfl⟩),
    (2, ⟨[2, 2], #[hit, 1 - hit, 1 - hit, hit], rfl⟩)]
  utilities := [(5, ⟨[2, 2], #[1, 3, 0, 4], rfl⟩)]

/-- The umbrella goes with the weather, and the note that it is there may be another one. -/
def noting (note : Int) : Strategy :=
  [(3, [([1], 1), ([2], 2)]),
    (4, [([1, 1], 1), ([1, 2], note), ([2, 1], 2), ([2, 2], note)])]

theorem errand_coincide : (errand (1 / 2)).Coincide (errand 1) (noting 1) (noting 2) {1, 3, 5} where
  tables := by
    rintro j (rfl | rfl | rfl) chance
    · rfl
    · exact absurd chance (by decide +kernel)
    · exact absurd chance (by decide +kernel)
  choices := by
    rintro j (rfl | rfl | rfl) decision
    · exact absurd decision (by decide +kernel)
    · decide +kernel
    · exact absurd decision (by decide +kernel)

/-- Neither a better forecast nor another note changes how often there is an umbrella, or what it
is worth. -/
theorem errand_forecast_idle : ∃ first second vector distribution,
    (errand (1 / 2)).stateProbabilities (noting 1) = .ok first ∧
      (errand 1).stateProbabilities (noting 2) = .ok second ∧ first ≠ second ∧
      Keyed.get? 3 first = some vector ∧ Keyed.get? 3 second = some vector ∧
      (errand (1 / 2)).utilityDistribution (noting 1) = .ok distribution ∧
      (errand 1).utilityDistribution (noting 2) = .ok distribution := by
  have acceptedP : (errand (1 / 2)).Accepted := (accepted_iff _).mpr (by decide +kernel)
  have acceptedQ : (errand 1).Accepted := (accepted_iff _).mpr (by decide +kernel)
  have completeP : (noting 1).Complete (errand (1 / 2)).diagram := by decide +kernel
  have completeQ : (noting 2).Complete (errand 1).diagram := by decide +kernel
  have closed : ∀ a ∈ (errand (1 / 2)).diagram.arcs,
      a.2 ∈ ({1, 3, 5} : Set Int) → a.1 ∈ ({1, 3, 5} : Set Int) := by
    simp only [Set.mem_insert_iff, Set.mem_singleton_iff]
    decide +kernel
  obtain ⟨states, worth⟩ := ancestors_determine (p := errand (1 / 2)) (q := errand 1) rfl acceptedP
    acceptedQ (by decide +kernel) (by decide +kernel) completeP completeQ
  obtain ⟨⟨first, second, vector, ofP, ofQ, atP, atQ⟩, _⟩ := states 3 (by decide +kernel)
    (errand_coincide.mono (Set.insert_subset (by simp) fun _ ancestor =>
      Diagram.mem_of_ancestor closed ancestor (by simp)))
  have valued : (errand (1 / 2)).diagram.valueAncestors ⊆ {1, 3, 5} := by
    rintro i ⟨v, value, ancestor⟩
    obtain rfl : v = 5 := List.mem_singleton.mp value
    exact Diagram.mem_of_ancestor closed ancestor (by simp)
  obtain ⟨distribution, worthP, worthQ⟩ := worth rfl (errand_coincide.mono valued)
  refine ⟨first, second, vector, distribution, ofP, ofQ, ?_, atP, atQ, worthP, worthQ⟩
  rw [acceptedP.weighed.stateProbabilities_spec completeP.entered, Except.ok.injEq] at ofP
  rw [acceptedQ.weighed.stateProbabilities_spec completeQ.entered, Except.ok.injEq] at ofQ
  rw [← ofP, ← ofQ]
  decide +kernel

end Problem

end InfluenceProgram
