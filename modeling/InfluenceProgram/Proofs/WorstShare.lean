import InfluenceProgram.Proofs.Cumulative

/-!
The conditional value at risk as the mean of the worst share. Shares of the probabilities that make
up a level have a least mean: any utility, less what falls short of it, is a lower bound for all of
them, and the first utility that reaches the level attains it. What is computed takes the first
utility that reaches the level up to the tolerance, so it is never above the least mean, and below
it by no more than what the tolerance lets through.
-/

set_option autoImplicit false

namespace InfluenceProgram.Risk

/-- Shares that take no more than each probability has and make up a level together. -/
structure Shares (probabilities : List Rat) (level : Rat) (shares : List Rat) : Prop where
  bounded : List.Forall₂ (fun share p => 0 ≤ share ∧ share ≤ p) shares probabilities
  total : shares.sum = level

/-- The mean utilities of all shares of a distribution that make up a level. -/
def shareMeans (utilities probabilities : List Rat) (level : Rat) : Set Rat :=
  {m | ∃ shares, Shares probabilities level shares ∧
    m = 1 / level * (List.zipWith (· * ·) shares utilities).sum}

/-- What the utilities below a number fall short of it in the mean. -/
def shortfall (pairs : List (Rat × Rat)) (x : Rat) : Rat :=
  (pairs.map fun e => max (x - e.1) 0 * e.2).sum

variable {pairs : List (Rat × Rat)} {utilities probabilities shares : List Rat}
variable {level v w x : Rat}

theorem shortfall_perm {other : List (Rat × Rat)} (perm : pairs.Perm other) (x : Rat) :
    shortfall pairs x = shortfall other x := (perm.map _).sum_eq

/-- What falls short of a number comes from the utilities below it. -/
theorem shortfall_eq (pairs : List (Rat × Rat)) (x : Rat) :
    shortfall pairs x = x * ((pairs.filter (·.1 < x)).map (·.2)).sum -
      ((pairs.filter (·.1 < x)).map fun e => e.1 * e.2).sum := by
  have others : ∀ e ∈ pairs, ¬e.1 < x → max (x - e.1) 0 * e.2 = 0 := by
    intro e _ above
    rw [max_eq_right (by linarith), zero_mul]
  have below : ∀ e ∈ pairs.filter (·.1 < x),
      max (x - e.1) 0 * e.2 = x * e.2 + -1 * (e.1 * e.2) := by
    intro e member
    have less := of_decide_eq_true (List.mem_filter.mp member).2
    rw [max_eq_left (by linarith)]
    ring
  rw [shortfall, ← Scalar.sum_filter_eq others, List.map_congr_left below, List.sum_map_add,
    List.sum_map_mul_left, List.sum_map_mul_left]
  ring

/-- The conditional value at risk is the value at risk less what falls short of it, shared out over
the level. -/
theorem conditionalValueAtRisk_spec (some : utilities ≠ [])
    (same : utilities.length = probabilities.length) (nonneg : ∀ p ∈ probabilities, 0 ≤ p)
    (low : 0 < level) (high : level ≤ 1) :
    ∃ v, valueAtRisk utilities probabilities level = .ok v ∧
      conditionalValueAtRisk utilities probabilities level =
        .ok ((level * v - shortfall (utilities.zip probabilities) v) / level) ∧
      FirstUpTo (utilities.zip probabilities) (level - levelTolerance) v := by
  obtain ⟨pairs, v, found, perm, value, first⟩ := quantile_arranged_spec some same nonneg level
  refine ⟨v, ?_, ?_, first⟩
  · rw [valueAtRisk, checkLevel_eq low high, Success.ok_bind, found, Success.ok_bind, value]
  · have products : Scalar.dot ((pairs.filter (·.1 < v)).map (·.1))
        ((pairs.filter (·.1 < v)).map (·.2)) =
          ((pairs.filter (·.1 < v)).map fun e => e.1 * e.2).sum := by
      rw [Scalar.dot, Scalar.sum_eq, List.zipWith_map, List.zipWith_self]
    rw [conditionalValueAtRisk, checkLevel_eq low high, Success.ok_bind, found, Success.ok_bind,
      valueAtRisk_arranged found low high, value, Success.ok_bind]
    refine congrArg (fun q => Except.ok (q / level)) ?_
    rw [← shortfall_perm perm, shortfall_eq, Scalar.pairwiseSum_eq]
    refine (congrArg (· + _) products).trans ?_
    ring

/-- No shares that make up a level have a smaller mean than a number less what falls short of it. -/
theorem le_sum_shares (x : Rat)
    (bounded : List.Forall₂ (fun share p => 0 ≤ share ∧ share ≤ p) shares probabilities)
    (same : utilities.length = probabilities.length) :
    x * shares.sum - shortfall (utilities.zip probabilities) x ≤
      (List.zipWith (· * ·) shares utilities).sum := by
  induction bounded generalizing utilities with
  | nil => simp [shortfall]
  | @cons share p shares probabilities range _ ih =>
      cases utilities with
      | nil => cases same
      | cons u utilities =>
          have rest := ih (Nat.succ.inj same)
          rw [shortfall] at rest ⊢
          rw [List.zip_cons_cons, List.map_cons, List.sum_cons, List.sum_cons,
            List.zipWith_cons_cons, List.sum_cons]
          have own : share * (x - u) ≤ max (x - u) 0 * p := by
            calc
              share * (x - u) ≤ share * max (x - u) 0 :=
                mul_le_mul_of_nonneg_left (le_max_left _ _) range.1
              _ ≤ p * max (x - u) 0 := mul_le_mul_of_nonneg_right range.2 (le_max_right _ _)
              _ = max (x - u) 0 * p := mul_comm _ _
          linarith

theorem le_of_mem_shareMeans (same : utilities.length = probabilities.length) (low : 0 < level)
    (x : Rat) {m : Rat} (mean : m ∈ shareMeans utilities probabilities level) :
    (level * x - shortfall (utilities.zip probabilities) x) / level ≤ m := by
  obtain ⟨shares, fine, rfl⟩ := mean
  have bound := le_sum_shares x fine.bounded same
  rw [fine.total, mul_comm] at bound
  rw [div_eq_inv_mul, ← one_div]
  exact mul_le_mul_of_nonneg_left bound (one_div_nonneg.mpr low.le)

/-- The probability of the utilities below a number. -/
def below (pairs : List (Rat × Rat)) (x : Rat) : Rat :=
  (pairs.map fun e => if e.1 < x then e.2 else 0).sum

/-- The utilities below the first one that reaches a bound do not go beyond a level above it. -/
theorem FirstUpTo.below_le {bound : Rat} (first : FirstUpTo pairs bound w) (lower : bound ≤ level)
    (low : 0 ≤ level) : below pairs w ≤ level := by
  by_cases none : ∀ e ∈ pairs, ¬e.1 < w
  · have nothing : below pairs w = 0 :=
      List.sum_eq_zero (List.forall_mem_map.mpr fun e member => if_neg (none e member))
    rw [nothing]
    exact low
  · push Not at none
    obtain ⟨e, present, less⟩ := none
    -- The greatest utility below `w` has the same utilities up to it as there are below `w`.
    obtain ⟨g, member, greatest⟩ := (pairs.filter (·.1 < w)).toFinset.exists_max_image (·.1)
      ⟨e, by simp [present, less]⟩
    simp only [List.mem_toFinset, List.mem_filter, decide_eq_true_eq] at member greatest
    have same : below pairs w = upTo pairs g.1 := by
      refine congrArg List.sum (List.map_congr_left fun f inside => ?_)
      have iff : f.1 < w ↔ f.1 ≤ g.1 :=
        ⟨fun less => greatest f ⟨inside, less⟩, fun up => up.trans_lt member.2⟩
      simp only [iff]
    rw [same]
    exact (first.before g.1 (List.mem_map_of_mem member.1) member.2).le.trans lower

/-- The share of a pair that takes all of it below a number and a fraction of it at the number. -/
def portion (x fraction : Rat) (e : Rat × Rat) : Rat :=
  if e.1 < x then e.2 else if e.1 = x then fraction * e.2 else 0

theorem portion_bounds {fraction : Rat} (low : 0 ≤ fraction) (high : fraction ≤ 1) (x : Rat)
    {e : Rat × Rat} (nonneg : 0 ≤ e.2) : 0 ≤ portion x fraction e ∧ portion x fraction e ≤ e.2 := by
  unfold portion
  split
  · exact ⟨nonneg, le_rfl⟩
  · split
    · exact ⟨mul_nonneg low nonneg, mul_le_of_le_one_left nonneg high⟩
    · exact ⟨le_rfl, nonneg⟩

theorem portion_eq (x fraction : Rat) (e : Rat × Rat) :
    portion x fraction e = (1 - fraction) * (if e.1 < x then e.2 else 0) +
      fraction * if e.1 ≤ x then e.2 else 0 := by
  unfold portion
  rcases lt_trichotomy e.1 x with less | same | more
  · rw [if_pos less, if_pos less, if_pos less.le]
    ring
  · rw [if_neg same.not_lt, if_pos same, if_neg same.not_lt, if_pos same.le]
    ring
  · rw [if_neg more.not_gt, if_neg more.ne', if_neg more.not_gt, if_neg (not_le.mpr more)]
    ring

theorem portion_mul (x fraction : Rat) (e : Rat × Rat) :
    portion x fraction e * e.1 = x * portion x fraction e + -1 * (max (x - e.1) 0 * e.2) := by
  unfold portion
  rcases lt_trichotomy e.1 x with less | same | more
  · rw [if_pos less, max_eq_left (by linarith)]
    ring
  · rw [if_neg same.not_lt, if_pos same, same, sub_self, max_self]
    ring
  · rw [if_neg more.not_gt, if_neg more.ne', max_eq_right (by linarith)]
    ring

theorem portions_bounded (same : utilities.length = probabilities.length)
    (nonneg : ∀ p ∈ probabilities, 0 ≤ p) {fraction : Rat} (low : 0 ≤ fraction)
    (high : fraction ≤ 1) (x : Rat) :
    List.Forall₂ (fun share p => 0 ≤ share ∧ share ≤ p)
      ((utilities.zip probabilities).map (portion x fraction)) probabilities := by
  have own : ∀ e ∈ utilities.zip probabilities,
      0 ≤ portion x fraction e ∧ portion x fraction e ≤ e.2 := fun e member =>
    portion_bounds low high x (nonneg e.2 (List.of_mem_zip member).2)
  conv => arg 3; rw [← List.map_snd_zip same.ge]
  rw [List.forall₂_map_left_iff, List.forall₂_map_right_iff, List.forall₂_same]
  exact own

theorem sum_portions (pairs : List (Rat × Rat)) (x fraction : Rat) :
    (pairs.map (portion x fraction)).sum =
      below pairs x + fraction * (upTo pairs x - below pairs x) := by
  rw [funext (portion_eq x fraction), List.sum_map_add, List.sum_map_mul_left,
    List.sum_map_mul_left, below, upTo]
  ring

/-- Filling up to a utility attains the lower bound that this utility gives. -/
theorem sum_mul_portions (same : utilities.length = probabilities.length) (x fraction : Rat) :
    (List.zipWith (· * ·) ((utilities.zip probabilities).map (portion x fraction)) utilities).sum =
      x * ((utilities.zip probabilities).map (portion x fraction)).sum -
        shortfall (utilities.zip probabilities) x := by
  have products : List.zipWith (· * ·) ((utilities.zip probabilities).map (portion x fraction))
      utilities = (utilities.zip probabilities).map fun e => portion x fraction e * e.1 := by
    conv_lhs => arg 3; rw [← List.map_fst_zip same.le]
    rw [List.zipWith_map, List.zipWith_self]
  rw [products, funext (portion_mul x fraction), List.sum_map_add, List.sum_map_mul_left,
    List.sum_map_mul_left, shortfall]
  ring

theorem exists_fraction {a b c : Rat} (left : a ≤ c) (right : c ≤ b) :
    ∃ fraction : Rat, 0 ≤ fraction ∧ fraction ≤ 1 ∧ a + fraction * (b - a) = c := by
  rcases (left.trans right).eq_or_lt with same | apart
  · exact ⟨0, le_rfl, zero_le_one, by linarith⟩
  · have positive := sub_pos.mpr apart
    refine ⟨(c - a) / (b - a), div_nonneg (by linarith) positive.le, ?_, ?_⟩
    · rw [div_le_one positive]
      linarith
    · rw [div_mul_cancel₀ _ positive.ne']
      ring

/-- The least mean of the shares that make up a level is given by the first utility that reaches the
level. -/
theorem isLeast_shareMeans (same : utilities.length = probabilities.length)
    (nonneg : ∀ p ∈ probabilities, 0 ≤ p) (low : 0 < level)
    (first : FirstUpTo (utilities.zip probabilities) level w)
    (reached : level ≤ upTo (utilities.zip probabilities) w) :
    IsLeast (shareMeans utilities probabilities level)
      ((level * w - shortfall (utilities.zip probabilities) w) / level) := by
  constructor
  · have less := first.below_le le_rfl low.le
    -- What is missing below `w` is taken in equal parts from the pairs at `w`.
    obtain ⟨fraction, atLeast, atMost, whole⟩ := exists_fraction less reached
    rw [← sum_portions] at whole
    refine ⟨(utilities.zip probabilities).map (portion w fraction),
      ⟨portions_bounded same nonneg atLeast atMost w, whole⟩, ?_⟩
    rw [sum_mul_portions same, whole]
    ring
  · exact fun m mean => le_of_mem_shareMeans same low w mean

/-- Between two numbers, what falls short grows at least with the probability up to the lower
one. -/
theorem upTo_mul_le_shortfall (nonneg : ∀ e ∈ pairs, 0 ≤ e.2) (ordered : v ≤ w) :
    upTo pairs v * (w - v) + shortfall pairs v ≤ shortfall pairs w := by
  rw [upTo, shortfall, shortfall, ← List.sum_map_mul_right, ← List.sum_map_add]
  refine List.sum_le_sum fun e member => ?_
  have positive := nonneg e member
  have grows : max (v - e.1) 0 ≤ max (w - e.1) 0 := max_le_max (by linarith) le_rfl
  split
  · rename_i inside
    rw [max_eq_left (by linarith), max_eq_left (by linarith)]
    exact le_of_eq (by ring)
  · rw [zero_mul, zero_add]
    exact mul_le_mul_of_nonneg_right grows positive

/-- Two distributions have the same utilities, each with the same total probability. -/
def SameLaw (first second : List (Rat × Rat)) : Prop :=
  ∀ x, (x ∈ first.map (·.1) ↔ x ∈ second.map (·.1)) ∧
    (first.map fun e => if e.1 = x then e.2 else 0).sum =
      (second.map fun e => if e.1 = x then e.2 else 0).sum

/-- A sum over the pairs of a distribution is one over utilities that include all of them. -/
theorem sum_eq_sum_utilities (g : Rat → Rat) {all : List Rat} (distinct : all.Nodup)
    (within : ∀ e ∈ pairs, e.1 ∈ all) :
    (pairs.map fun e => g e.1 * e.2).sum =
      (all.map fun x => g x * (pairs.map fun e => if e.1 = x then e.2 else 0).sum).sum := by
  rw [← Scalar.sum_classes distinct _ within]
  refine congrArg List.sum (List.map_congr_left fun x _ => ?_)
  rw [← List.sum_map_mul_left]
  refine congrArg List.sum (List.map_congr_left fun e _ => ?_)
  by_cases same : e.1 = x
  · rw [if_pos same, if_pos same, same]
  · rw [if_neg same, if_neg same, mul_zero]

theorem SameLaw.sum_eq {first second : List (Rat × Rat)} (law : SameLaw first second)
    (g : Rat → Rat) :
    (first.map fun e => g e.1 * e.2).sum = (second.map fun e => g e.1 * e.2).sum := by
  have distinct := List.nodup_dedup (first.map (·.1))
  have within : ∀ e ∈ first, e.1 ∈ (first.map (·.1)).dedup := fun e member =>
    List.mem_dedup.mpr (List.mem_map_of_mem member)
  have other : ∀ e ∈ second, e.1 ∈ (first.map (·.1)).dedup := fun e member =>
    List.mem_dedup.mpr ((law e.1).1.mpr (List.mem_map_of_mem member))
  rw [sum_eq_sum_utilities g distinct within, sum_eq_sum_utilities g distinct other]
  exact congrArg List.sum (List.map_congr_left fun x _ => by rw [(law x).2])

theorem SameLaw.upTo_eq {first second : List (Rat × Rat)} (law : SameLaw first second) (x : Rat) :
    upTo first x = upTo second x := by
  have same := law.sum_eq fun u => if u ≤ x then 1 else 0
  simpa only [upTo, ite_mul, one_mul, zero_mul] using same

theorem SameLaw.shortfall_eq {first second : List (Rat × Rat)} (law : SameLaw first second)
    (x : Rat) : shortfall first x = shortfall second x :=
  law.sum_eq fun u => max (x - u) 0

theorem levelTolerance_pos : (0 : Rat) < levelTolerance := by
  change (0 : Rat) < mkRat 1 (Nat.pow 10 12)
  norm_num [Rat.mkRat_eq_div]

/-- A bound that all probabilities together reach is reached. -/
theorem FirstUpTo.bound_le (first : FirstUpTo pairs level v)
    (enough : level ≤ (pairs.map (·.2)).sum) : level ≤ upTo pairs v := by
  rcases first.reached with reached | greatest
  · exact reached
  · rwa [upTo_of_le fun e member => greatest e.1 (List.mem_map_of_mem member)]

/-- A lower bound is not reached later. -/
theorem FirstUpTo.le_of_le {bound : Rat} (first : FirstUpTo pairs bound v)
    (later : FirstUpTo pairs level w) (lower : bound ≤ level) (reached : level ≤ upTo pairs w) :
    v ≤ w := by
  by_contra past
  have missed := first.before w later.member (not_le.mp past)
  linarith

/-- The first utility that reaches a bound is the first that reaches the level too, unless the
probability up to it lies between them. -/
theorem FirstUpTo.of_notMem_Ico {bound : Rat} (first : FirstUpTo pairs bound v)
    (lower : bound ≤ level) (reached : bound ≤ upTo pairs v)
    (apart : upTo pairs v ∉ Set.Ico bound level) : FirstUpTo pairs level v where
  member := first.member
  before x member less := (first.before x member less).trans_le lower
  reached := by
    left
    by_contra less
    exact apart ⟨reached, not_le.mp less⟩

/-- Going up from a utility gains no more than what it misses of the level allows. -/
theorem level_mul_sub_shortfall_le {slack : Rat} (nonneg : ∀ e ∈ pairs, 0 ≤ e.2)
    (ordered : v ≤ w) (missed : level - slack ≤ upTo pairs v) :
    level * w - shortfall pairs w ≤ level * v - shortfall pairs v + slack * (w - v) := by
  have grows := upTo_mul_le_shortfall nonneg ordered
  have lost : (level - upTo pairs v) * (w - v) ≤ slack * (w - v) :=
    mul_le_mul_of_nonneg_right (by linarith) (by linarith)
  linarith

/-- The least mean of shares and the first utility up to which it is filled. -/
theorem exists_worst_share (some : utilities ≠ [])
    (same : utilities.length = probabilities.length) (nonneg : ∀ p ∈ probabilities, 0 ≤ p)
    (low : 0 < level) (enough : level ≤ probabilities.sum) :
    ∃ w, FirstUpTo (utilities.zip probabilities) level w ∧
      level ≤ upTo (utilities.zip probabilities) w ∧
      IsLeast (shareMeans utilities probabilities level)
        ((level * w - shortfall (utilities.zip probabilities) w) / level) := by
  obtain ⟨_, w, _, _, _, first⟩ :=
    quantile_arranged_spec some same nonneg (level + levelTolerance)
  rw [add_sub_cancel_right] at first
  have reached := first.bound_le (by rwa [List.map_snd_zip same.ge])
  exact ⟨w, first, reached, isLeast_shareMeans same nonneg low first reached⟩

/-- The conditional value at risk is the least mean of shares that make up the level, and never
more. It is less by at most what the tolerance of the level can take off the greatest utility, and
it is not less where no cumulative probability misses the level within the tolerance. Only the total
probability of each utility has a say in it. -/
theorem conditionalValueAtRisk_worst_share (some : utilities ≠ [])
    (same : utilities.length = probabilities.length) (nonneg : ∀ p ∈ probabilities, 0 ≤ p)
    (low : 0 < level) (high : level ≤ 1) :
    ∃ v c, valueAtRisk utilities probabilities level = .ok v ∧
      conditionalValueAtRisk utilities probabilities level = .ok c ∧
      (level ≤ probabilities.sum → ∃ least greatest,
        IsLeast (shareMeans utilities probabilities level) least ∧
        IsGreatest {u | u ∈ utilities} greatest ∧
        least - levelTolerance / level * (greatest - v) ≤ c ∧ c ≤ least ∧
        ((∀ x ∈ utilities, upTo (utilities.zip probabilities) x ∉
          Set.Ico (level - levelTolerance) level) → c = least)) ∧
      ∀ utilities' probabilities' : List Rat, utilities'.length = probabilities'.length →
        (∀ p ∈ probabilities', 0 ≤ p) →
        SameLaw (utilities.zip probabilities) (utilities'.zip probabilities') →
        valueAtRisk utilities' probabilities' level = .ok v ∧
          conditionalValueAtRisk utilities' probabilities' level = .ok c := by
  obtain ⟨v, value, mean, first⟩ := conditionalValueAtRisk_spec some same nonneg low high
  refine ⟨v, _, value, mean, fun enough => ?_, ?_⟩
  · have tolerance := levelTolerance_pos
    obtain ⟨w, later, reached, least⟩ := exists_worst_share some same nonneg low enough
    obtain ⟨greatest, member, above⟩ := utilities.toFinset.exists_max_image id
      (List.toFinset_nonempty_iff _ |>.mpr some)
    simp only [List.mem_toFinset, id_eq] at member above
    have listed : (utilities.zip probabilities).map (·.1) = utilities := List.map_fst_zip same.le
    have nonneg' : ∀ e ∈ utilities.zip probabilities, 0 ≤ e.2 :=
      fun e member => nonneg e.2 (List.of_mem_zip member).2
    have missed : level - levelTolerance ≤ upTo (utilities.zip probabilities) v :=
      first.bound_le (by rw [List.map_snd_zip same.ge]; linarith)
    have upper : w ≤ greatest := above w (listed ▸ later.member)
    refine ⟨_, greatest, least, ⟨member, above⟩, ?_, le_of_mem_shareMeans same low v least.1, ?_⟩
    · have ordered := first.le_of_le later (by linarith) reached
      have lost := level_mul_sub_shortfall_le nonneg' ordered missed
      have most : levelTolerance * (w - v) ≤ levelTolerance * (greatest - v) :=
        mul_le_mul_of_nonneg_left (by linarith) tolerance.le
      rw [div_mul_eq_mul_div, ← sub_div, div_le_div_iff_of_pos_right low]
      linarith
    · intro apart
      have exact := first.of_notMem_Ico (by linarith) missed (apart v (listed ▸ first.member))
      rw [exact.unique later]
  · intro utilities' probabilities' same' nonneg' law
    have some' : utilities' ≠ [] := by
      rintro rfl
      exact List.not_mem_nil ((law v).1.mp first.member)
    obtain ⟨v', value', mean', first'⟩ :=
      conditionalValueAtRisk_spec some' same' nonneg' low high
    rw [value', mean', law.shortfall_eq,
      (first.congr (fun x => (law x).1) law.upTo_eq).unique first']
    exact ⟨rfl, rfl⟩

/-- The worse half of a chance takes all of its lower end and a third of its upper end, in whatever
order and parts the chance is given. -/
theorem worse_half_of_chance : ∃ least, IsLeast (shareMeans [3, 1] [3 / 4, 1 / 4] (1 / 2)) least ∧
    conditionalValueAtRisk [3, 1] [3 / 4, 1 / 4] (1 / 2 : Rat) = .ok least ∧
    conditionalValueAtRisk [3, 1, 3] [1 / 2, 1 / 4, 1 / 4] (1 / 2 : Rat) = .ok least := by
  have some : [(3 : Rat), 1] ≠ [] := List.cons_ne_nil _ _
  have paired : [(3 : Rat), 1].length = [(3 / 4 : Rat), 1 / 4].length := rfl
  have nonneg : ∀ p ∈ [(3 / 4 : Rat), 1 / 4], 0 ≤ p := by norm_num
  have low : (0 : Rat) < 1 / 2 := by norm_num
  obtain ⟨v, c, _, mean, worst, others⟩ :=
    conditionalValueAtRisk_worst_share some paired nonneg low (by norm_num)
  obtain ⟨least, _, isLeast, _, _, _, exact⟩ := worst (by norm_num)
  have apart : ∀ x ∈ [(3 : Rat), 1], upTo ([3, 1].zip [3 / 4, 1 / 4]) x ≤ 1 / 4 ∨
      1 / 2 ≤ upTo ([3, 1].zip [3 / 4, 1 / 4]) x := by decide +kernel
  have small : (levelTolerance : Rat) < 1 / 4 := by decide +kernel
  have same : c = least := by
    refine exact fun x member within => ?_
    rcases apart x member with less | more
    · linarith [within.1]
    · exact absurd within.2 (not_lt.mpr more)
  have split : SameLaw ([3, 1].zip [3 / 4, 1 / 4]) ([3, 1, 3].zip [1 / 2, 1 / 4, 1 / 4]) := by
    intro x
    simp only [List.zip_cons_cons, List.zip_nil_left, List.map_cons, List.map_nil, List.mem_cons,
      List.not_mem_nil, or_false, List.sum_cons, List.sum_nil]
    refine ⟨by tauto, ?_⟩
    split_ifs <;> norm_num
  refine ⟨least, isLeast, same ▸ mean, ?_⟩
  rw [(others [3, 1, 3] [1 / 2, 1 / 4, 1 / 4] rfl (by norm_num) split).2, same]

end InfluenceProgram.Risk
