import InfluenceProgram.Analysis.Risk.Tables
import InfluenceProgram.Proofs.WorstShare

/-!
What the risk measures of a distribution are, and how they compare. The value at risk is the least
utility up to which the probabilities reach the level, less the tolerance. Filling a share up to a
greater number raises its mean as long as no more than the level lies below the number, and so does
a higher level. Below the first utility that reaches the level, with or without the tolerance, lies
no more than the level, so both measures grow with the level.
-/

set_option autoImplicit false

namespace InfluenceProgram.Risk

variable {pairs : List (Rat × Rat)} {utilities probabilities : List Rat}
variable {bound level higher v w x : Rat}

theorem FirstUpTo.isLeast (first : FirstUpTo pairs bound v)
    (found : ∃ x ∈ pairs.map (·.1), bound ≤ upTo pairs x) :
    IsLeast {x | x ∈ pairs.map (·.1) ∧ bound ≤ upTo pairs x} v := by
  have atLeast : ∀ x ∈ pairs.map (·.1), bound ≤ upTo pairs x → v ≤ x := by
    intro x member reached
    by_contra below
    exact absurd reached (not_le.mpr (first.before x member (not_le.mp below)))
  refine ⟨⟨first.member, ?_⟩, fun x inside => atLeast x inside.1 inside.2⟩
  rcases first.reached with reached | greatest
  · exact reached
  · obtain ⟨x, member, reached⟩ := found
    rwa [le_antisymm (atLeast x member reached) (greatest x member)]

theorem FirstUpTo.isGreatest (first : FirstUpTo pairs bound v)
    (missed : ∀ x ∈ pairs.map (·.1), upTo pairs x < bound) :
    IsGreatest {x | x ∈ pairs.map (·.1)} v := by
  refine ⟨first.member, ?_⟩
  rcases first.reached with reached | greatest
  · exact absurd reached (not_le.mpr (missed v first.member))
  · exact greatest

theorem checkLevel_eq_error (outside : ¬(0 < level ∧ level ≤ 1)) :
    checkLevel level = .error (.domain .riskLevel) := if_neg outside

/-- The value at risk is the least utility up to which the probabilities reach the level, less the
tolerance, and the greatest utility if they never do. A level out of range is refused whatever the
utilities and probabilities are, as lists or as tables of any shape. -/
theorem valueAtRisk_reaches (level : Rat) :
    (0 < level → level ≤ 1 → ∀ utilities probabilities : List Rat, utilities ≠ [] →
      utilities.length = probabilities.length → (∀ p ∈ probabilities, 0 ≤ p) →
      ∃ v, valueAtRisk utilities probabilities level = .ok v ∧
        ((∃ x ∈ utilities,
            level - levelTolerance ≤ upTo (utilities.zip probabilities) x) →
          IsLeast {x | x ∈ utilities ∧
            level - levelTolerance ≤ upTo (utilities.zip probabilities) x} v) ∧
        ((∀ x ∈ utilities,
            upTo (utilities.zip probabilities) x < level - levelTolerance) →
          IsGreatest {x | x ∈ utilities} v)) ∧
    (¬(0 < level ∧ level ≤ 1) →
      (∀ utilities probabilities : List Rat,
        valueAtRisk utilities probabilities level = .error (.domain .riskLevel) ∧
          conditionalValueAtRisk utilities probabilities level = .error (.domain .riskLevel)) ∧
      ∀ utilities probabilities : Tensor Rat,
        valueAtRiskOf utilities probabilities level = .error (.domain .riskLevel) ∧
          conditionalValueAtRiskOf utilities probabilities level =
            .error (.domain .riskLevel)) := by
  constructor
  · intro low high utilities probabilities some same nonneg
    obtain ⟨v, value, _, first⟩ := conditionalValueAtRisk_spec some same nonneg low high
    have listed : (utilities.zip probabilities).map (·.1) = utilities := List.map_fst_zip same.le
    have least := first.isLeast
    have greatest := first.isGreatest
    rw [listed] at least greatest
    exact ⟨v, value, least, greatest⟩
  · intro outside
    refine ⟨fun utilities probabilities => ⟨?_, ?_⟩, fun utilities probabilities => ?_⟩
    · rw [valueAtRisk, checkLevel_eq_error outside]
      rfl
    · rw [conditionalValueAtRisk, checkLevel_eq_error outside]
      rfl
    · have value : valueAtRiskOf utilities probabilities level = .error (.domain .riskLevel) := by
        rw [valueAtRiskOf, checkLevel_eq_error outside]
        rfl
      refine ⟨value, ?_⟩
      rw [conditionalValueAtRiskOf, value]
      rfl

/-- An impossible utility is passed over, a distribution that misses the level has its greatest
utility, and a level above one is refused before there is anything to measure. -/
theorem valueAtRisk_of_plateau :
    valueAtRisk [3, 2, 1, 3] [1 / 4, 0, 1 / 4, 1 / 2] (1 / 2 : Rat) = .ok 3 ∧
      valueAtRisk [3, 1] [1 / 4, 1 / 4] (1 : Rat) = .ok 3 ∧
      conditionalValueAtRisk [] [] (3 / 2 : Rat) = .error (.domain .riskLevel) := by
  obtain ⟨half, _⟩ := valueAtRisk_reaches (1 / 2)
  obtain ⟨whole, _⟩ := valueAtRisk_reaches 1
  obtain ⟨_, above⟩ := valueAtRisk_reaches (3 / 2)
  obtain ⟨v, value, least, _⟩ := half (by norm_num) (by norm_num) [3, 2, 1, 3]
    [1 / 4, 0, 1 / 4, 1 / 2] (List.cons_ne_nil _ _) rfl (by norm_num)
  obtain ⟨w, value', _, greatest⟩ := whole (by norm_num) le_rfl [3, 1] [1 / 4, 1 / 4]
    (List.cons_ne_nil _ _) rfl (by norm_num)
  have first : IsLeast {x | x ∈ [3, 2, 1, 3] ∧
      1 / 2 - levelTolerance ≤ upTo ([3, 2, 1, 3].zip [1 / 4, 0, 1 / 4, 1 / 2]) x} 3 :=
    ⟨by decide +kernel, fun x inside => by
      have others : ∀ x ∈ [(3 : Rat), 2, 1, 3], 1 / 2 - levelTolerance ≤
          upTo ([3, 2, 1, 3].zip [1 / 4, 0, 1 / 4, 1 / 2]) x → 3 ≤ x := by decide +kernel
      exact others x inside.1 inside.2⟩
  have last : IsGreatest {x | x ∈ [(3 : Rat), 1]} 3 := ⟨by simp, fun x inside => by
    have others : ∀ x ∈ [(3 : Rat), 1], x ≤ 3 := by decide +kernel
    exact others x inside⟩
  refine ⟨?_, ?_, ((above (by norm_num)).1 [] []).2⟩
  · rw [value, (least ⟨3, by simp, by decide +kernel⟩).unique first]
  · rw [value', (greatest (by decide +kernel)).unique last]

theorem shortfall_nonneg (nonneg : ∀ e ∈ pairs, 0 ≤ e.2) (x : Rat) : 0 ≤ shortfall pairs x :=
  List.sum_nonneg (List.forall_mem_map.mpr fun e member =>
    mul_nonneg (le_max_right _ _) (nonneg e member))

/-- Nothing falls short of a number that no utility is below. -/
theorem shortfall_of_le (above : ∀ e ∈ pairs, x ≤ e.1) : shortfall pairs x = 0 := by
  refine List.sum_eq_zero (List.forall_mem_map.mpr fun e member => ?_)
  rw [max_eq_right (sub_nonpos.mpr (above e member)), zero_mul]

/-- From one number to another, what falls short grows at most with the probability below the
latter. -/
theorem shortfall_le (nonneg : ∀ e ∈ pairs, 0 ≤ e.2) (v w : Rat) :
    shortfall pairs w ≤ shortfall pairs v + below pairs w * (w - v) := by
  rw [shortfall, shortfall, below, ← List.sum_map_mul_right, ← List.sum_map_add]
  refine List.sum_le_sum fun e member => ?_
  have positive := nonneg e member
  split
  · rename_i inside
    have grows : max (w - e.1) 0 ≤ max (v - e.1) 0 + (w - v) := by
      rw [max_eq_left (by linarith)]
      linarith [le_max_left (v - e.1) 0]
    linarith [mul_le_mul_of_nonneg_right grows positive]
  · rw [max_eq_right (by linarith), zero_mul, zero_mul, add_zero]
    exact mul_nonneg (le_max_right _ _) positive

/-- The mean of a share that makes up a level and is filled up to a number: the number, less what
falls short of it shared out over the level. -/
def filledMean (pairs : List (Rat × Rat)) (level x : Rat) : Rat :=
  (level * x - shortfall pairs x) / level

theorem filledMean_le (nonneg : ∀ e ∈ pairs, 0 ≤ e.2) (low : 0 < level) (x : Rat) :
    filledMean pairs level x ≤ x := by
  rw [filledMean, div_le_iff₀ low, mul_comm x]
  exact sub_le_self _ (shortfall_nonneg nonneg x)

/-- Filling up to a greater number raises the mean as long as no more than the level lies below. -/
theorem filledMean_mono (nonneg : ∀ e ∈ pairs, 0 ≤ e.2) (low : 0 < level) (ordered : v ≤ w)
    (within : below pairs w ≤ level) : filledMean pairs level v ≤ filledMean pairs level w := by
  have grows := shortfall_le nonneg v w
  have covered := mul_le_mul_of_nonneg_right within (sub_nonneg.mpr ordered)
  rw [filledMean, filledMean, div_le_div_iff_of_pos_right low]
  linarith

/-- What falls short counts less at a higher level. -/
theorem filledMean_mono_level (nonneg : ∀ e ∈ pairs, 0 ≤ e.2) (low : 0 < level)
    (ordered : level ≤ higher) (x : Rat) :
    filledMean pairs level x ≤ filledMean pairs higher x := by
  have later := low.trans_le ordered
  rw [filledMean, filledMean, sub_div, sub_div, mul_div_cancel_left₀ _ low.ne',
    mul_div_cancel_left₀ _ later.ne']
  exact sub_le_sub_left (div_le_div_of_nonneg_left (shortfall_nonneg nonneg x) low ordered) x

theorem le_filledMean (nonneg : ∀ e ∈ pairs, 0 ≤ e.2) (low : 0 < level)
    (lowest : ∀ e ∈ pairs, x ≤ e.1) (ordered : x ≤ v) (within : below pairs v ≤ level) :
    x ≤ filledMean pairs level v := by
  have start : filledMean pairs level x = x := by
    rw [filledMean, shortfall_of_le lowest, sub_zero, mul_div_cancel_left₀ _ low.ne']
  exact start.ge.trans (filledMean_mono nonneg low ordered within)

/-- At the highest level the mean is at most that of all utilities. -/
theorem filledMean_one_le (same : utilities.length = probabilities.length)
    (nonneg : ∀ p ∈ probabilities, 0 ≤ p) (whole : probabilities.sum = 1) (x : Rat) :
    filledMean (utilities.zip probabilities) 1 x ≤
      (List.zipWith (· * ·) probabilities utilities).sum := by
  have all : List.Forall₂ (fun share p => 0 ≤ share ∧ share ≤ p) probabilities probabilities :=
    List.forall₂_same.mpr fun p member => ⟨nonneg p member, le_rfl⟩
  have bound := le_sum_shares x all same
  rw [whole, mul_one] at bound
  rwa [filledMean, one_mul, div_one]

/-- Both risk measures grow with the level. The conditional one lies between the least utility and
the lesser of the value at risk and the mean. -/
theorem measures_ordered (some : utilities ≠ []) (same : utilities.length = probabilities.length)
    (nonneg : ∀ p ∈ probabilities, 0 ≤ p) (whole : probabilities.sum = 1) (low : 0 < level)
    (ordered : level ≤ higher) (high : higher ≤ 1) :
    ∃ v w c m least, valueAtRisk utilities probabilities level = .ok v ∧
      valueAtRisk utilities probabilities higher = .ok w ∧
      conditionalValueAtRisk utilities probabilities level = .ok c ∧
      conditionalValueAtRisk utilities probabilities higher = .ok m ∧
      v ≤ w ∧ c ≤ m ∧ IsLeast {x | x ∈ utilities} least ∧ least ≤ c ∧
      c ≤ min v (List.zipWith (· * ·) probabilities utilities).sum := by
  have tolerance := levelTolerance_pos
  have positive := low.trans_le ordered
  have listed : (utilities.zip probabilities).map (·.1) = utilities := List.map_fst_zip same.le
  have probable : ∀ e ∈ utilities.zip probabilities, 0 ≤ e.2 :=
    fun e member => nonneg e.2 (List.of_mem_zip member).2
  obtain ⟨v, value, mean, first⟩ :=
    conditionalValueAtRisk_spec some same nonneg low (ordered.trans high)
  obtain ⟨w, value', mean', first'⟩ := conditionalValueAtRisk_spec some same nonneg positive high
  obtain ⟨least, member, lowest⟩ := utilities.toFinset.exists_min_image id
    (List.toFinset_nonempty_iff _ |>.mpr some)
  simp only [List.mem_toFinset, id_eq] at member lowest
  -- The tolerance only lets the measures stop earlier, so no more than the level lies below either.
  have less := first.below_le (sub_le_self _ tolerance.le) low.le
  have less' := first'.below_le (sub_le_self _ tolerance.le) positive.le
  have reached : higher - levelTolerance ≤ upTo (utilities.zip probabilities) w :=
    first'.bound_le (by rw [List.map_snd_zip same.ge, whole]; linarith)
  have raised : v ≤ w := first.le_of_le first' (sub_le_sub_right ordered _) reached
  refine ⟨v, w, _, _, least, value, value', mean, mean', raised, ?_, ⟨member, lowest⟩, ?_,
    le_min (filledMean_le probable low v) ?_⟩
  · calc
      filledMean (utilities.zip probabilities) level v ≤
          filledMean (utilities.zip probabilities) higher v :=
        filledMean_mono_level probable low ordered v
      _ ≤ filledMean (utilities.zip probabilities) higher w :=
        filledMean_mono probable positive raised less'
  · exact le_filledMean probable low (fun e inside => lowest e.1 (List.of_mem_zip inside).1)
      (lowest v (listed ▸ first.member)) less
  · calc
      filledMean (utilities.zip probabilities) level v ≤
          filledMean (utilities.zip probabilities) 1 v :=
        filledMean_mono_level probable low (ordered.trans high) v
      _ ≤ (List.zipWith (· * ·) probabilities utilities).sum :=
        filledMean_one_le same nonneg whole v

/-- Half of the distribution has the lower utility for its value at risk, since the probability of
this utility misses the level by less than the tolerance, and the measures are in order still. -/
theorem nearly_half_measures : ∃ c m,
    valueAtRisk [1, 0] [1 / 2 + 1 / 10 ^ 13, 1 / 2 - 1 / 10 ^ 13] (1 / 2 : Rat) = .ok 0 ∧
    conditionalValueAtRisk [1, 0] [1 / 2 + 1 / 10 ^ 13, 1 / 2 - 1 / 10 ^ 13] (1 / 2 : Rat) =
      .ok c ∧
    conditionalValueAtRisk [1, 0] [1 / 2 + 1 / 10 ^ 13, 1 / 2 - 1 / 10 ^ 13] (1 : Rat) = .ok m ∧
    0 ≤ c ∧ c ≤ 0 ∧ c ≤ m := by
  have some : [(1 : Rat), 0] ≠ [] := List.cons_ne_nil _ _
  have paired : [(1 : Rat), 0].length =
      [(1 / 2 + 1 / 10 ^ 13 : Rat), 1 / 2 - 1 / 10 ^ 13].length := rfl
  have nonneg : ∀ p ∈ [(1 / 2 + 1 / 10 ^ 13 : Rat), 1 / 2 - 1 / 10 ^ 13], 0 ≤ p := by norm_num
  have low : (0 : Rat) < 1 / 2 := by norm_num
  obtain ⟨v, _, c, m, least, value, _, mean, mean', _, rises, lowest, above, below⟩ :=
    measures_ordered some paired nonneg (by norm_num) low (by norm_num) le_rfl
  obtain ⟨_, value', _, first⟩ := conditionalValueAtRisk_spec some paired nonneg low (by norm_num)
  cases value.symm.trans value'
  have zero : FirstUpTo ([1, 0].zip [1 / 2 + 1 / 10 ^ 13, 1 / 2 - 1 / 10 ^ 13])
      (1 / 2 - levelTolerance) 0 :=
    ⟨by simp, by decide +kernel, Or.inl (by decide +kernel)⟩
  have same := first.unique zero
  subst same
  refine ⟨c, m, value, mean, mean', ?_, below.trans (min_le_left _ _), rises⟩
  have floor : IsLeast {x | x ∈ [(1 : Rat), 0]} 0 := ⟨by simp, fun x inside => by
    have others : ∀ x ∈ [(1 : Rat), 0], 0 ≤ x := by decide +kernel
    exact others x inside⟩
  rwa [lowest.unique floor] at above

end InfluenceProgram.Risk
