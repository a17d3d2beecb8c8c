import InfluenceProgram.Proofs.Expectation

/-!
The distribution of the utility in normal form. Its utilities ascend strictly, and each of them
stands with the total probability of the compatible paths that have it, if that is positive. So
nothing but these totals determines the distribution.
-/

set_option autoImplicit false

namespace InfluenceProgram

/-- Values in strictly ascending order, each that has a positive mass with this mass. -/
structure Distributed (mass : Rat → Rat) (entries : List (Rat × Rat)) : Prop where
  ascending : entries.Pairwise fun a b => a.1 < b.1
  mem_iff : ∀ u m, (u, m) ∈ entries ↔ 0 < m ∧ m = mass u

theorem Distributed.mem_values {mass : Rat → Rat} {entries : List (Rat × Rat)}
    (distributed : Distributed mass entries) {u : Rat} : u ∈ entries.map (·.1) ↔ 0 < mass u := by
  rw [List.mem_map]
  constructor
  · rintro ⟨e, member, rfl⟩
    obtain ⟨positive, same⟩ := (distributed.mem_iff _ _).mp member
    exact same ▸ positive
  · exact fun positive => ⟨_, (distributed.mem_iff _ _).mpr ⟨positive, rfl⟩, rfl⟩

/-- There is no more than one distribution of a mass. -/
theorem Distributed.unique {mass : Rat → Rat} {first second : List (Rat × Rat)}
    (one : Distributed mass first) (other : Distributed mass second) : first = second := by
  have nodup : ∀ {entries}, Distributed mass entries → entries.Nodup := fun distributed =>
    distributed.ascending.imp fun below same => absurd (congrArg Prod.fst same) below.ne
  have perm : first.Perm second := by
    rw [List.perm_ext_iff_of_nodup (nodup one) (nodup other)]
    rintro ⟨u, m⟩
    rw [one.mem_iff, other.mem_iff]
  refine perm.eq_of_pairwise ?_ one.ascending other.ascending
  intro a b _ _ below above
  exact absurd above below.asymm

namespace Problem

/-- The total probability of the compatible paths of one utility. -/
def mass (p : Problem Rat) (σ : Strategy) (u : Rat) : Rat :=
  ((p.taken σ).map fun s => if p.gain 0 s = u then p.weight s else 0).sum

variable {p : Problem Rat} {σ : Strategy}

theorem Weighed.mass_pos_iff (weighed : p.Weighed) {u : Rat} :
    0 < p.mass σ u ↔ ∃ s ∈ p.taken σ, 0 < p.weight s ∧ p.gain 0 s = u := by
  have nonneg : ∀ share ∈ (p.taken σ).map fun s => if p.gain 0 s = u then p.weight s else 0,
      0 ≤ share := by
    refine List.forall_mem_map.mpr fun s member => ?_
    split
    · exact weighed.weight_nonneg (mem_taken.mp member).1
    · exact le_rfl
  constructor
  · intro positive
    by_contra none
    push Not at none
    refine positive.ne' (List.sum_eq_zero (List.forall_mem_map.mpr fun s member => ?_))
    split
    · rename_i same
      exact weighed.weight_eq_zero (mem_taken.mp member).1 fun some => none s member some same
    · rfl
  · rintro ⟨s, member, possible, same⟩
    have share := List.single_le_sum nonneg _ (List.mem_map_of_mem member)
    rw [if_pos same] at share
    exact possible.trans_le share

/-- The distribution of the utility under a strategy is the one of the masses of its paths. -/
theorem Valued.utilityDistribution_spec (valued : p.Valued) (weighed : p.Weighed)
    (entered : σ.Entered p.diagram) :
    ∃ entries, p.utilityDistribution σ = .ok entries ∧ Distributed (p.mass σ) entries := by
  let possible := (p.taken σ).filter (0 < p.weight ·)
  let merged := possible.foldl
    (fun mass s => Keyed.update (p.gain 0 s) 0 (· + p.weight s) mass) ([] : Keyed Rat Rat)
  have distinct : merged.keys.Nodup := Keyed.nodup_foldl_update _ _ _ List.nodup_nil
  have masses : ∀ u, (merged.get? u).getD 0 = p.mass σ u := by
    intro u
    rw [Keyed.getD_foldl_update]
    refine (zero_add _).trans (Scalar.sum_filter_eq fun s member impossible => ?_)
    rw [weighed.weight_eq_zero (mem_taken.mp member).1 impossible, ite_self]
  have keys : ∀ u, u ∈ merged.keys ↔ 0 < p.mass σ u := by
    intro u
    rw [Keyed.mem_keys_foldl_update, weighed.mass_pos_iff]
    simp only [possible, Keyed.keys, List.map_nil, List.not_mem_nil, false_or, List.mem_filter,
      decide_eq_true_eq, and_assoc]
  have perm := List.mergeSort_perm merged fun a b => !(decide (b.1 < a.1))
  refine ⟨_, valued.utilityDistribution_eq weighed entered, ?_, fun u m => ?_⟩
  · have sorted : (merged.mergeSort fun a b => !(decide (b.1 < a.1))).Pairwise
        fun a b => a.1 ≤ b.1 := by
      refine (List.pairwise_mergeSort ?_ ?_ merged).imp ?_
      · intro a b c
        simp only [Bool.not_eq_true', decide_eq_false_iff_not, not_lt]
        exact le_trans
      · intro a b
        simp only [Bool.or_eq_true, Bool.not_eq_true', decide_eq_false_iff_not, not_lt]
        exact le_total _ _
      · intro a b
        simp only [Bool.not_eq_true', decide_eq_false_iff_not, not_lt, imp_self]
    have apart : (merged.mergeSort fun a b => !(decide (b.1 < a.1))).Pairwise
        fun a b => a.1 ≠ b.1 := by
      rw [← List.pairwise_map, ← List.Nodup]
      exact (perm.map Prod.fst).nodup_iff.mpr distinct
    exact sorted.imp₂ (fun _ _ below different => lt_of_le_of_ne below different) apart
  · rw [perm.mem_iff]
    constructor
    · intro member
      have found := masses u
      rw [Keyed.get?_of_mem distinct member, Option.getD_some] at found
      exact ⟨found ▸ (keys u).mp (Keyed.mem_keys member), found⟩
    · rintro ⟨positive, rfl⟩
      obtain ⟨m, found⟩ := Keyed.exists_of_mem_keys ((keys u).mpr positive)
      have same := masses u
      rw [found, Option.getD_some] at same
      exact same ▸ Keyed.mem_of_get? found

end Problem

end InfluenceProgram
