import InfluenceProgram.Proofs.Expectation
import InfluenceProgram.Proofs.TotalProbability

/-!
Contexts that a strategy does not reach. A prefix of a possible path on which a strategy has been
followed so far can be continued to a possible compatible path, because no context leaves all states
without probability. So what a strategy takes in contexts that no such path has does not matter.
-/

set_option autoImplicit false

namespace InfluenceProgram

namespace Kernel

variable {d : Diagram} {K : Kernel} {low high : Int → Rat}

/-- If every context has some share, a path that ends early has an extension with some share. -/
theorem Bounded.exists_extension (bounded : K.Bounded d d.innerNodes low high)
    (some : ∀ j, 0 < low j) {before after : List Int} (split : d.counts = before ++ after)
    {s : Path} (member : s ∈ paths before) :
    ∃ t ∈ paths after, K.along d (span (s.length + 1) after.length) (s ++ t) ≠ 0 := by
  by_contra none
  push Not at none
  have bound := (bounded.extensions_bounds split member).1
  rw [extensions, List.map_congr_left none] at bound
  have positive : 0 < ((span (s.length + 1) after.length).map low).prod :=
    List.prod_pos (List.forall_mem_map.mpr fun j _ => some j)
  simp only [List.map_const', List.sum_replicate, smul_zero] at bound
  exact absurd positive (not_lt.mpr bound)

theorem along_ne_zero_iff {nodes : List Int} {s : Path} :
    K.along d nodes s ≠ 0 ↔ ∀ j ∈ nodes, K.on d s j ≠ 0 := by
  rw [along, Ne, List.prod_eq_zero_iff, List.mem_map]
  push Not
  rfl

/-- A path with some share at each node below some node can be left there for a path with some
share at all nodes, in the same context of the node. -/
theorem Bounded.exists_continuation (bounded : K.Bounded d d.innerNodes low high)
    (some : ∀ j, 0 < low j) {s : Path} (member : s ∈ paths d.counts) {j : Int} (first : 1 ≤ j)
    (last : j ≤ d.inner) (below : ∀ i, 1 ≤ i → i < j → K.on d s i ≠ 0) :
    ∃ u ∈ paths d.counts, K.along d d.innerNodes u ≠ 0 ∧
      u.select (d.informationSet j) = s.select (d.informationSet j) := by
  have split := (List.take_append_drop (j - 1).toNat d.counts).symm
  rw [split] at member
  obtain ⟨a, front, b, _, rfl⟩ := mem_paths_append.mp member
  have length : (a.length : Int) = j - 1 := by
    rw [length_of_mem_paths front, List.length_take, d.counts_length]
    omega
  obtain ⟨t, back, share⟩ := bounded.exists_extension some split front
  have covered : a.Covers (d.informationSet j) := d.covers_informationSet (by omega)
  refine ⟨a ++ t, split ▸ mem_paths_append.mpr ⟨a, front, t, back, rfl⟩,
    along_ne_zero_iff.mpr ?_, by rw [covered.select_append, covered.select_append]⟩
  intro i inner
  rw [Diagram.innerNodes, mem_span] at inner
  by_cases early : i < j
  · rw [K.on_append d t inner.1 (by omega), ← K.on_append d b inner.1 (by omega)]
    exact below i inner.1 early
  · refine along_ne_zero_iff.mp share i ?_
    rw [mem_span, List.length_drop, d.counts_length]
    omega

end Kernel

namespace Problem

variable {p : Problem Rat} {σ τ : Strategy}

/-- A context of a node stands on a possible path that is compatible with a strategy. -/
def Reaches (p : Problem Rat) (σ : Strategy) (j : Int) (c : Path) : Prop :=
  ∃ weighted, p.weightedPaths σ = .ok weighted ∧ ∃ e ∈ weighted, 0 < e.2 ∧
    Path.restrict e.1 (p.diagram.informationSet j) = .ok c

/-- The possible paths that are compatible with a strategy, with their probabilities. -/
def possiblePaths (p : Problem Rat) (σ : Strategy) : Except Fault (List (Path × Rat)) := do
  return (← p.weightedPaths σ).filter (0 < ·.2)

theorem Weighed.reaches_iff (weighed : p.Weighed) (entered : σ.Entered p.diagram) {j : Int}
    {c : Path} : p.Reaches σ j c ↔ ∃ s ∈ p.taken σ, 0 < p.weight s ∧
      s.select (p.diagram.informationSet j) = c := by
  have restricts : ∀ s ∈ p.taken σ, Path.restrict s (p.diagram.informationSet j) =
      .ok (s.select (p.diagram.informationSet j)) := by
    intro s taken
    have length := Diagram.length_of_path (mem_taken.mp taken).1
    exact Path.restrict_eq (p.diagram.covers_informationSet_of_full length j)
  constructor
  · rintro ⟨weighted, found, e, member, some, context⟩
    rw [weighed.weightedPaths_eq entered] at found
    cases found
    obtain ⟨s, taken, rfl⟩ := List.mem_map.mp member
    rw [restricts s taken] at context
    exact ⟨s, taken, some, Except.ok.inj context⟩
  · rintro ⟨s, taken, some, rfl⟩
    exact ⟨_, weighed.weightedPaths_eq entered, _, List.mem_map_of_mem taken, some,
      restricts s taken⟩

/-- Up to a decision node, a possible path that follows a strategy can be left for one that follows
the strategy to its end, in the same context of the node. -/
theorem Weighed.exists_continuation (weighed : p.Weighed) (complete : σ.Complete p.diagram)
    {s : Path} (member : s ∈ p.paths) (possible : 0 < p.weight s) {j : Int}
    (decision : j ∈ p.diagram.decision)
    (followed : ∀ i ∈ p.diagram.decision, i < j →
      σ.choose? i (s.select (p.diagram.informationSet i)) = some (s.stateAt i)) :
    ∃ u ∈ p.taken σ, 0 < p.weight u ∧
      u.select (p.diagram.informationSet j) = s.select (p.diagram.informationSet j) := by
  have range := p.diagram.inner_of_decision decision
  have below : ∀ i, 1 ≤ i → i < j → (p.conditional.under p.diagram σ).on p.diagram s i ≠ 0 := by
    intro i first early
    rw [Kernel.on_under]
    by_cases node : i ∈ p.diagram.decision
    · rw [if_pos node, if_pos (followed i node early)]
      exact one_ne_zero
    · rw [if_neg node]
      have chance := ((p.diagram.layered.inner_iff i).mpr (by omega)).resolve_right node
      exact Kernel.along_ne_zero_iff.mp possible.ne' i chance
  obtain ⟨u, path, share, context⟩ :=
    (weighed.bounded.under complete).exists_continuation
      (fun i => by split <;> norm_num [probabilityTolerance_eq]) member range.1 range.2 below
  rw [Kernel.along_under] at share
  have takes : σ.Takes p.diagram u := by
    by_contra leaves
    exact share (if_neg leaves)
  rw [if_pos takes] at share
  exact ⟨u, mem_taken.mpr ⟨path, takes⟩, (weighed.weight_nonneg path).lt_of_ne' share, context⟩

/-- A possible path that is compatible with a strategy is so with any other that agrees with this
one in the contexts that it reaches, by induction on the decision nodes that come first. -/
theorem Weighed.takes_of_agree (weighed : p.Weighed) (complete : σ.Complete p.diagram)
    (agree : ∀ j ∈ p.diagram.decision, ∀ c, p.Reaches σ j c → τ.choose? j c = σ.choose? j c)
    {s : Path} (member : s ∈ p.paths) (possible : 0 < p.weight s) :
    σ.Takes p.diagram s ↔ τ.Takes p.diagram s := by
  constructor
  · intro takes j decision
    rw [agree j decision _ ((weighed.reaches_iff complete.entered).mpr
      ⟨s, mem_taken.mpr ⟨member, takes⟩, possible, rfl⟩)]
    exact takes j decision
  · intro takes j
    induction before : j.toNat using Nat.strong_induction_on generalizing j with
    | _ n ih =>
      intro decision
      have range := p.diagram.inner_of_decision decision
      -- Both strategies take the same path up to the node, so the first one reaches its context.
      obtain ⟨u, taken, some, context⟩ := weighed.exists_continuation complete member possible
        decision fun i node earlier => by
          have low := p.diagram.inner_of_decision node
          exact ih i.toNat (by omega) i rfl node
      have reached : p.Reaches σ j (s.select (p.diagram.informationSet j)) :=
        (weighed.reaches_iff complete.entered).mpr ⟨u, taken, some, context⟩
      rw [← agree j decision _ reached]
      exact takes j decision

/-- What the possible compatible paths and their probabilities are if none of them fails. -/
def possibleTaken (p : Problem Rat) (σ : Strategy) : List (Path × Rat) :=
  ((p.taken σ).filter (0 < p.weight ·)).map fun s => (s, p.weight s)

theorem Weighed.possiblePaths_eq (weighed : p.Weighed) (entered : σ.Entered p.diagram) :
    p.possiblePaths σ = .ok (p.possibleTaken σ) := by
  rw [possiblePaths, weighed.weightedPaths_eq entered, Success.ok_bind, List.filter_map]
  rfl

/-- The probability of a state is a sum over the possible compatible paths. -/
theorem Weighed.stateProbabilities_eq (weighed : p.Weighed) (entered : σ.Entered p.diagram) :
    p.stateProbabilities σ = .ok ((p.diagram.innerNodes.zip p.diagram.counts).zipIdx.map
      fun entry => (entry.1.1, (states entry.1.2).map fun x =>
        (((p.possibleTaken σ).filter fun e => e.1[entry.2]? == some x).map (·.2)).sum)) := by
  rw [stateProbabilities, weighed.weightedPaths_eq entered, Success.ok_bind]
  refine congrArg Except.ok (List.map_congr_left fun entry _ => ?_)
  refine congrArg (Prod.mk _) (List.map_congr_left fun x _ => ?_)
  have others : ∀ s ∈ (p.taken σ).filter fun s => s[entry.2]? == some x, ¬0 < p.weight s →
      p.weight s = 0 := fun s member =>
    weighed.weight_eq_zero (mem_taken.mp (List.mem_of_mem_filter member)).1
  rw [Scalar.sum_eq, possibleTaken, List.filter_map, List.filter_map, List.map_map, List.map_map]
  simp only [Function.comp_def]
  rw [← Scalar.sum_filter_eq others, List.filter_comm]

/-- What a strategy takes in contexts that it does not reach changes neither its possible paths nor
the distribution of the utility nor the probabilities of the states. -/
theorem unreached_contexts_free (accepted : p.Accepted) (complete : σ.Complete p.diagram)
    (other : τ.Complete p.diagram)
    (agree : ∀ j ∈ p.diagram.decision, ∀ c, p.Reaches σ j c → τ.choose? j c = σ.choose? j c) :
    ∃ possible distribution probabilities,
      p.possiblePaths σ = .ok possible ∧ p.possiblePaths τ = .ok possible ∧
      p.utilityDistribution σ = .ok distribution ∧ p.utilityDistribution τ = .ok distribution ∧
      p.stateProbabilities σ = .ok probabilities ∧ p.stateProbabilities τ = .ok probabilities ∧
      p.marginals τ = p.marginals σ := by
  have weighed := accepted.weighed
  have valued := accepted.valued
  have same : (p.taken τ).filter (0 < p.weight ·) = (p.taken σ).filter (0 < p.weight ·) := by
    rw [taken, taken, List.filter_filter, List.filter_filter]
    apply List.filter_congr
    intro s member
    by_cases some : 0 < p.weight s
    · simp only [weighed.takes_of_agree complete agree member some]
    · simp only [some, decide_false, Bool.false_and]
  have possible : p.possibleTaken τ = p.possibleTaken σ := by
    rw [possibleTaken, same, possibleTaken]
  have probabilities : p.stateProbabilities τ = p.stateProbabilities σ := by
    rw [weighed.stateProbabilities_eq other.entered, possible,
      ← weighed.stateProbabilities_eq complete.entered]
  refine ⟨_, _, _, weighed.possiblePaths_eq complete.entered, ?_,
    valued.utilityDistribution_eq weighed complete.entered, ?_,
    weighed.stateProbabilities_eq complete.entered, ?_, ?_⟩
  · rw [weighed.possiblePaths_eq other.entered, possible]
  · rw [valued.utilityDistribution_eq weighed other.entered, same]
  · rw [probabilities, weighed.stateProbabilities_eq complete.entered]
  · rw [marginals, marginals, probabilities]

/-- A trial that is made ends well or badly with equal probability, one that is left out counts as
having ended well, and what is done afterwards may depend on both. -/
def trial : Problem Rat where
  diagram := {
    toOutline := Outline.ofLists [2] [1, 3] [4] [(1, 2), (1, 3), (2, 3), (3, 4)]
    counts := [2, 2, 2]
    layered := (@Outline.layered_of_defect [2] [1, 3] [4] [(1, 2), (1, 3), (2, 3), (3, 4)] 3 rfl).1
    counts_length := rfl
    counts_pos := by decide }
  probabilities := [(2, ⟨[2, 2], #[1 / 2, 1 / 2, 1, 0], rfl⟩)]
  utilities := [(4, ⟨[2], #[0, 1], rfl⟩)]

/-- The trial is left out, and what is done depends on its result, or not. -/
def withoutTrial (good other : Int) : Strategy :=
  [(1, [([], 2)]), (3, [([1, 1], other), ([1, 2], other), ([2, 1], good), ([2, 2], other)])]

/-- Of the four contexts in which something is done, only a good result without trial is reached. -/
theorem trial_left_out : trial.Accepted ∧ (withoutTrial 2 1).Complete trial.diagram ∧
    (withoutTrial 2 2).Complete trial.diagram ∧
      (withoutTrial 2 1).compatiblePaths trial.diagram ≠
        (withoutTrial 2 2).compatiblePaths trial.diagram ∧
      trial.utilityDistribution (withoutTrial 2 1) = trial.utilityDistribution (withoutTrial 2 2) ∧
        trial.marginals (withoutTrial 2 1) = trial.marginals (withoutTrial 2 2) := by
  have accepted : trial.Accepted := trial.accepted_iff.mpr (by decide +kernel)
  have complete : (withoutTrial 2 1).Complete trial.diagram := by decide +kernel
  have other : (withoutTrial 2 2).Complete trial.diagram := by decide +kernel
  have agree : ∀ j ∈ trial.diagram.decision, ∀ s ∈ trial.taken (withoutTrial 2 1),
      0 < trial.weight s →
        (withoutTrial 2 2).choose? j (s.select (trial.diagram.informationSet j)) =
          (withoutTrial 2 1).choose? j (s.select (trial.diagram.informationSet j)) := by
    decide +kernel
  obtain ⟨_, _, _, _, _, first, second, _, _, same⟩ :=
    unreached_contexts_free accepted complete other fun j decision c reached => by
      obtain ⟨s, taken, some, rfl⟩ := (accepted.weighed.reaches_iff complete.entered).mp reached
      exact agree j decision s taken some
  refine ⟨accepted, complete, other, ?_, first.trans second.symm, same.symm⟩
  rw [complete.entered.compatiblePaths_eq, other.entered.compatiblePaths_eq]
  decide +kernel

end Problem

end InfluenceProgram
