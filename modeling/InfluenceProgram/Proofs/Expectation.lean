import InfluenceProgram.Proofs.Compatible
import InfluenceProgram.Proofs.Merging

/-!
The expected utility of a strategy. Merging the paths of one utility into one entry and sorting the
entries leave the mean of any function of the utility alone, so the expectation is a sum over the
compatible paths. No entry of a value table lies below the least utility, so taking this from every
table leaves no negative gain.
-/

set_option autoImplicit false

namespace InfluenceProgram

namespace Problem

/-- The mean of the distribution of the utility under a strategy. -/
def expectedUtility (p : Problem Rat) (σ : Strategy) : Except Fault Rat := do
  return ((← p.utilityDistribution σ).map fun e => e.1 * e.2).sum

/-- The utilities of the compatible paths, each times its probability. -/
def mean (p : Problem Rat) (σ : Strategy) : Rat :=
  ((p.taken σ).map fun s => p.gain 0 s * p.weight s).sum

variable {p : Problem Rat} {σ : Strategy}

theorem Valued.utilityDistribution_eq (valued : p.Valued) (weighed : p.Weighed)
    (entered : σ.Entered p.diagram) :
    p.utilityDistribution σ = .ok ((((p.taken σ).filter (0 < p.weight ·)).foldl
      (fun mass s => Keyed.update (p.gain 0 s) 0 (· + p.weight s) mass) []).mergeSort
        fun a b => !(decide (b.1 < a.1))) := by
  rw [utilityDistribution, weighed.weightedPaths_eq entered, Success.ok_bind]
  dsimp only
  rw [List.filter_map, Success.foldlM_eq
    (g := fun mass e => Keyed.update (p.gain 0 e.1) 0 (· + e.2) mass), List.foldl_map]
  · rfl
  · rintro mass ⟨s, weight⟩ member
    obtain ⟨t, possible, same⟩ := List.mem_map.mp member
    cases same
    have taken := (List.mem_filter.mp possible).1
    rw [valued.utility_eq 0 (mem_taken.mp taken).1]
    rfl

/-- A function of the utility has the same weighted sum over the distribution as over the possible
compatible paths. -/
theorem Valued.sum_distribution (valued : p.Valued) (weighed : p.Weighed)
    (entered : σ.Entered p.diagram) {M : Type*} [AddCommMonoid M] [Module Rat M] (f : Rat → M)
    {entries : List (Rat × Rat)} (found : p.utilityDistribution σ = .ok entries) :
    (entries.map fun e => e.2 • f e.1).sum =
      (((p.taken σ).filter (0 < p.weight ·)).map fun s => p.weight s • f (p.gain 0 s)).sum := by
  rw [valued.utilityDistribution_eq weighed entered] at found
  cases found
  rw [((List.mergeSort_perm _ _).map _).sum_eq, Keyed.sum_foldl_update, List.map_nil,
    List.sum_nil, zero_add]

/-- The expected utility of a complete strategy is the mean over its compatible paths. -/
theorem Valued.expectedUtility_eq (valued : p.Valued) (weighed : p.Weighed)
    (entered : σ.Entered p.diagram) : p.expectedUtility σ = .ok (p.mean σ) := by
  have found := valued.utilityDistribution_eq weighed entered
  have sum := valued.sum_distribution weighed entered id found
  simp only [smul_eq_mul, id_eq, mul_comm] at sum
  rw [expectedUtility, found, Success.ok_bind, mean]
  refine congrArg Except.ok (sum.trans ?_)
  -- Impossible paths are left out of the distribution, and they do not count in the mean.
  refine Scalar.sum_filter_eq fun s member impossible => ?_
  rw [weighed.weight_eq_zero (mem_taken.mp member).1 impossible, mul_zero]

/-- No entry of a value table is less than the least utility. -/
theorem leastUtility_le {v : Int} {t : Tensor Rat} (table : (v, t) ∈ p.utilities) {entry : Rat}
    (member : entry ∈ t.entries) : p.leastUtility ≤ entry := by
  have listed : entry ∈ t.entries.toList := Array.mem_toList_iff.mpr member
  obtain ⟨least, found⟩ := Scalar.exists_lastLeast? (List.ne_nil_of_mem listed)
  have among : least ∈ p.utilities.filterMap fun (_, t) => Scalar.lastLeast? t.entries.toList :=
    List.mem_filterMap.mpr ⟨(v, t), table, found⟩
  obtain ⟨smallest, first⟩ := Scalar.exists_least? (List.ne_nil_of_mem among)
  rw [leastUtility, first, Option.getD_some]
  exact ((Scalar.least?_some first).2 least among).trans
    ((Scalar.lastLeast?_some found).2 entry listed)

theorem Valued.leastUtility_le_payoff (valued : p.Valued) {v : Int} (value : v ∈ p.diagram.value)
    {s : Path} (member : s ∈ p.paths) : p.leastUtility ≤ p.payoff v s := by
  rw [← valued.keys] at value
  obtain ⟨⟨v, t⟩, table, rfl⟩ := List.mem_map.mp value
  have covered := p.diagram.covers_informationSet_of_full p.diagram.counts_length v
  have entry := Tensor.get_of_path (valued.shape v t table) (Path.select_mem_paths member covered)
  rw [payoff, Keyed.get?_of_mem valued.distinct table]
  exact leastUtility_le table entry.2

/-- With the least utility taken from every value node, no path has a negative gain. -/
theorem Valued.gain_nonneg (valued : p.Valued) {s : Path} (member : s ∈ p.paths) :
    0 ≤ p.gain p.leastUtility s := by
  apply List.sum_nonneg
  intro gain present
  obtain ⟨v, value, rfl⟩ := List.mem_map.mp present
  exact sub_nonneg.mpr (valued.leastUtility_le_payoff value member)

end Problem

end InfluenceProgram
