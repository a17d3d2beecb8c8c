import InfluenceProgram.Proofs.Compatible

/-!
The total probability of the paths compatible with a complete strategy. It is one if the
probabilities of every context are, and otherwise the tolerance enters once for each chance node.
-/

set_option autoImplicit false

namespace InfluenceProgram

namespace Kernel

/-- A decision node gives all to the state that a strategy takes; other nodes keep their shares. -/
def under (K : Kernel) (d : Diagram) (σ : Strategy) : Kernel := fun j c x =>
  if j ∈ d.decision then if σ.choose? j c = some x then 1 else 0 else K j c x

variable {d : Diagram} {σ : Strategy} {K : Kernel} {low high : Int → Rat}

theorem on_under (K : Kernel) (s : Path) (j : Int) :
    (K.under d σ).on d s j =
      if j ∈ d.decision then
        if σ.choose? j (s.select (d.informationSet j)) = some (s.stateAt j) then 1 else 0
      else K.on d s j := rfl

/-- Decision nodes that give all or nothing leave the compatible paths and no others. -/
theorem along_under (K : Kernel) (s : Path) :
    (K.under d σ).along d d.innerNodes s = if σ.Takes d s then K.along d d.chance s else 0 := by
  rw [along, funext (on_under K s), d.prod_innerNodes]
  split
  · rename_i takes
    rw [List.prod_eq_one, one_mul, along]
    intro share member
    obtain ⟨j, decision, rfl⟩ := List.mem_map.mp member
    exact if_pos (takes j decision)
  · rename_i leaves
    rw [List.prod_eq_zero, zero_mul]
    obtain ⟨j, decision, other⟩ := Strategy.exists_other_of_not_takes leaves
    exact List.mem_map.mpr ⟨j, decision, if_neg other⟩

theorem total_under (complete : σ.Complete d) {j : Int} (decision : j ∈ d.decision) {c : Path}
    (context : c ∈ d.contexts j) : (K.under d σ).total d j c = 1 := by
  have shares : K.under d σ j c = fun x => if σ.choose? j c = some x then 1 else 0 := by
    funext x
    exact if_pos decision
  rw [total, shares]
  exact complete.sum_chosen decision context

theorem Bounded.under (bounded : K.Bounded d d.chance low high) (complete : σ.Complete d) :
    (K.under d σ).Bounded d d.innerNodes (fun j => if j ∈ d.decision then 1 else low j)
      (fun j => if j ∈ d.decision then 1 else high j) := by
  have chance : ∀ j ∈ d.innerNodes, j ∉ d.decision → j ∈ d.chance := by
    intro j inner other
    rw [Diagram.innerNodes, mem_span] at inner
    exact ((d.layered.inner_iff j).mpr (by omega)).resolve_right other
  refine ⟨?_, ?_, ?_, ?_⟩
  · intro j
    split
    · exact zero_le_one
    · exact bounded.low_nonneg j
  · intro j
    split
    · exact zero_le_one
    · exact bounded.high_nonneg j
  · intro j inner c context x state
    by_cases decision : j ∈ d.decision
    · rw [Kernel.under, if_pos decision]
      split
      · exact zero_le_one
      · exact le_rfl
    · rw [Kernel.under, if_neg decision]
      exact bounded.nonneg j (chance j inner decision) c context x state
  · intro j inner c context
    by_cases decision : j ∈ d.decision
    · rw [total_under complete decision context, if_pos decision, if_pos decision]
      exact ⟨le_rfl, le_rfl⟩
    · rw [if_neg decision, if_neg decision]
      have same : (K.under d σ).total d j c = K.total d j c := by
        unfold Kernel.total Kernel.under
        simp only [if_neg decision]
      rw [same]
      exact bounded.total j (chance j inner decision) c context

/-- Bounds on the contexts of the chance nodes multiply along the compatible paths. -/
theorem Bounded.sum_taken (bounded : K.Bounded d d.chance low high) (complete : σ.Complete d) :
    (d.chance.map low).prod ≤
        (((paths d.counts).filter (σ.Takes d ·)).map (K.along d d.chance)).sum ∧
      (((paths d.counts).filter (σ.Takes d ·)).map (K.along d d.chance)).sum ≤
        (d.chance.map high).prod := by
  have taken : ((paths d.counts).map ((K.under d σ).along d d.innerNodes)).sum =
      (((paths d.counts).filter (σ.Takes d ·)).map (K.along d d.chance)).sum := by
    rw [funext (along_under K), List.sum_map_ite]
    simp
  have bounds := (bounded.under complete).sum_along
  rw [taken, d.prod_innerNodes, d.prod_innerNodes] at bounds
  simpa using bounds

/-- Every state counts as one. -/
def ones : Kernel := fun _ _ _ => 1

theorem ones_total (d : Diagram) (j : Int) (c : Path) : ones.total d j c = (d.count j).toNat := by
  change ((states (d.count j)).map fun _ => (1 : Rat)).sum = _
  rw [List.map_const', List.sum_replicate, length_states, nsmul_one]

theorem ones_bounded (d : Diagram) (nodes : List Int) :
    ones.Bounded d nodes (fun j => (d.count j).toNat) (fun j => (d.count j).toNat) where
  low_nonneg _ := Nat.cast_nonneg _
  high_nonneg _ := Nat.cast_nonneg _
  nonneg _ _ _ _ _ _ := zero_le_one
  total j _ c _ := ⟨(ones_total d j c).ge, (ones_total d j c).le⟩

end Kernel

/-- A complete strategy leaves one path for each combination of states of the chance nodes. -/
theorem Strategy.Complete.length_taken {d : Diagram} {σ : Strategy} (complete : σ.Complete d) :
    (((paths d.counts).filter (σ.Takes d ·)).length : Int) = (d.chance.map d.count).prod := by
  have along : ∀ s, Kernel.ones.along d d.chance s = 1 := by
    intro s
    apply List.prod_eq_one
    intro share member
    obtain ⟨_, _, rfl⟩ := List.mem_map.mp member
    rfl
  have counts : d.chance.map (fun j => ((d.count j).toNat : Rat)) =
      (d.chance.map d.count).map (Int.cast : Int → Rat) := by
    rw [List.map_map]
    apply List.map_congr_left
    intro j chance
    have range := d.inner_of_chance chance
    have positive := d.count_pos range.1 range.2
    have same : ((d.count j).toNat : Int) = d.count j := Int.toNat_of_nonneg (by omega)
    rw [Function.comp_apply, ← Int.cast_natCast, same]
  have bounds := (Kernel.ones_bounded d d.chance).sum_taken complete
  rw [counts, ← Int.cast_list_prod, funext along, List.map_const', List.sum_replicate,
    nsmul_one] at bounds
  exact_mod_cast le_antisymm bounds.2 bounds.1

namespace Problem

/-- The probabilities of every context of every chance node add up to exactly one. -/
def Normalized (p : Problem Rat) : Prop :=
  ∀ j t, (j, t) ∈ p.probabilities → ∀ c ∈ p.diagram.contexts j, t.total p.diagram j c = 1

instance (p : Problem Rat) : Decidable p.Normalized :=
  decidable_of_iff (∀ e ∈ p.probabilities, ∀ c ∈ p.diagram.contexts e.1,
      e.2.total p.diagram e.1 c = 1)
    ⟨fun each _ _ member => each _ member, fun normalized e member => normalized e.1 e.2 member⟩

variable {p : Problem Rat} {σ : Strategy}

theorem probabilityTolerance_eq : (probabilityTolerance : Rat) = 1 / 10 ^ 8 := by
  change mkRat 1 (Nat.pow 10 8) = _
  norm_num [Rat.mkRat_eq_div]

theorem Weighed.bounded (weighed : p.Weighed) :
    p.conditional.Bounded p.diagram p.diagram.chance (fun _ => 1 - probabilityTolerance)
      (fun _ => 1 + probabilityTolerance) := by
  refine ⟨?_, ?_, ?_, ?_⟩
  · intro _
    norm_num [probabilityTolerance_eq]
  · intro _
    norm_num [probabilityTolerance_eq]
  · intro j chance c context x state
    exact weighed.conditional_nonneg chance context state
  · intro j chance c context
    obtain ⟨t, table, _⟩ := weighed.table chance
    have near := abs_le.mp (weighed.total j t table c context)
    rw [weighed.conditional_total table]
    constructor <;> linarith

theorem Weighed.bounded_of_normalized (weighed : p.Weighed) (normalized : p.Normalized) :
    p.conditional.Bounded p.diagram p.diagram.chance (fun _ => 1) (fun _ => 1) := by
  refine ⟨fun _ => zero_le_one, fun _ => zero_le_one, weighed.bounded.nonneg, ?_⟩
  intro j chance c context
  obtain ⟨t, table, _⟩ := weighed.table chance
  rw [weighed.conditional_total table, normalized j t table c context]
  exact ⟨le_rfl, le_rfl⟩

/-- With exact tables the compatible paths of a complete strategy have total probability one. -/
theorem Weighed.sum_weight (weighed : p.Weighed) (normalized : p.Normalized)
    (complete : σ.Complete p.diagram) : ((p.taken σ).map p.weight).sum = 1 := by
  have bounds := (weighed.bounded_of_normalized normalized).sum_taken complete
  simp only [List.map_const', List.prod_replicate, one_pow] at bounds
  exact le_antisymm bounds.2 bounds.1

/-- The probabilities of the compatible paths of a complete strategy add up to one, up to the
tolerance once for each chance node, and exactly if the tables are exact. -/
theorem compatible_probabilities_total {X : Keyed Int (Supplied Rat)}
    (valid : validateProbabilities p.diagram X = .ok p.probabilities)
    (complete : σ.Complete p.diagram) :
    ∃ compatible weights, σ.compatiblePaths p.diagram = .ok compatible ∧
      compatible.mapM p.probability = .ok weights ∧
      (1 - probabilityTolerance) ^ p.diagram.chance.length ≤ weights.sum ∧
      weights.sum ≤ (1 + probabilityTolerance) ^ p.diagram.chance.length ∧
      (p.Normalized → weights.sum = 1) := by
  have weighed := weighed_of_validate valid
  have bounds := weighed.bounded.sum_taken complete
  rw [List.map_const', List.prod_replicate, List.map_const', List.prod_replicate] at bounds
  refine ⟨p.taken σ, (p.taken σ).map p.weight, complete.entered.compatiblePaths_eq, ?_,
    bounds.1, bounds.2, fun normalized => weighed.sum_weight normalized complete⟩
  exact Success.mapM_eq fun s member => weighed.probability_eq (mem_taken.mp member).1

theorem umbrella_normalized : umbrella.Normalized := by decide +kernel

/-- The umbrella problem is exact, and two of its four paths share the whole probability. -/
theorem umbrella_probabilities_total :
    ∃ compatible weights, Strategy.careful.compatiblePaths umbrella.diagram = .ok compatible ∧
      compatible.mapM umbrella.probability = .ok weights ∧ weights.sum = 1 := by
  obtain ⟨compatible, weights, found, weighted, _, _, exact⟩ :=
    compatible_probabilities_total umbrella_accepted.weighed.validate_given
      Strategy.careful_complete
  exact ⟨compatible, weights, found, weighted, exact umbrella_normalized⟩

end Problem

end InfluenceProgram
