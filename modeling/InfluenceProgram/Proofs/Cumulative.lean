import InfluenceProgram.Proofs.Exact
import InfluenceProgram.Proofs.Quantile

/-!
The level that a quantile reaches. Halving finds the first cumulative probability that is not below
a bound, and with the utilities in order this is the first utility up to which the probabilities
add up to the bound. So the quantile depends on the total probability of each utility alone.
-/

set_option autoImplicit false

namespace InfluenceProgram

namespace Scalar

private theorem length_go (xs : List Rat) (total : Rat) :
    (cumulative.go total xs).length = xs.length := by
  induction xs generalizing total with
  | nil => rfl
  | cons x xs ih => exact congrArg Nat.succ (ih (total + x))

theorem length_cumulative (xs : List Rat) : (cumulative xs).length = xs.length := by
  cases xs with
  | nil => rfl
  | cons x xs => exact congrArg Nat.succ (length_go xs x)

private theorem getElem_go (xs : List Rat) (total : Rat) {k : Nat}
    (inside : k < (cumulative.go total xs).length) :
    (cumulative.go total xs)[k] = total + (xs.take (k + 1)).sum := by
  induction xs generalizing total k with
  | nil => cases inside
  | cons x xs ih =>
      cases k with
      | zero => simp [cumulative.go]
      | succ k =>
          rw [List.take_succ_cons, List.sum_cons, ← add_assoc]
          exact ih (total + x) (Nat.lt_of_succ_lt_succ inside)

/-- A running sum is the sum of the scalars up to its place. -/
theorem getElem_cumulative (xs : List Rat) {k : Nat} (inside : k < (cumulative xs).length) :
    (cumulative xs)[k] = (xs.take (k + 1)).sum := by
  cases xs with
  | nil => cases inside
  | cons x xs =>
      cases k with
      | zero => simp [cumulative]
      | succ k =>
          rw [List.take_succ_cons, List.sum_cons]
          exact getElem_go xs x (Nat.lt_of_succ_lt_succ inside)

/-- Running sums of scalars that are not negative never fall. -/
theorem pairwise_cumulative {xs : List Rat} (nonneg : ∀ x ∈ xs, 0 ≤ x) :
    (cumulative xs).Pairwise (· ≤ ·) := by
  rw [List.pairwise_iff_getElem]
  intro i j first second before
  rw [getElem_cumulative xs first, getElem_cumulative xs second]
  refine (List.take_sublist_take_left (by omega)).sum_le_sum fun x member => ?_
  exact nonneg x (List.mem_of_mem_take member)

end Scalar

namespace Risk

/-- Halving a list that never falls finds the place from which on its items are not below `x`. The
induction follows the halving: what is left of the interval is below, what is right of it is not. -/
theorem firstReaching_spec {items : List Rat} {x : Rat} (rising : items.Pairwise (· ≤ ·))
    {low high : Nat} (ordered : low ≤ high) (within : high ≤ items.length)
    (left : ∀ i, (inside : i < items.length) → i < low → items[i] < x)
    (right : ∀ i, (inside : i < items.length) → high ≤ i → x ≤ items[i]) :
    firstReaching items x low high ≤ items.length ∧
      (∀ i, (inside : i < items.length) → i < firstReaching items x low high → items[i] < x) ∧
      ∀ i, (inside : i < items.length) → firstReaching items x low high ≤ i → x ≤ items[i] := by
  have climb : ∀ i j, (first : i < items.length) → (second : j < items.length) → i ≤ j →
      items[i] ≤ items[j] := fun i j first second before =>
    rising.rel_get_of_le (a := ⟨i, first⟩) (b := ⟨j, second⟩) before
  induction low, high using firstReaching.induct items x with
  | case1 low high proper middle below ih =>
      have inside : middle < items.length := by omega
      rw [List.getD_eq_getElem _ _ inside] at below
      rw [firstReaching, if_pos proper, if_pos (by rwa [List.getD_eq_getElem _ _ inside])]
      refine ih (by omega) within (fun i first before => ?_) right
      exact (climb i middle first inside (by omega)).trans_lt below
  | case2 low high proper middle notBelow ih =>
      have inside : middle < items.length := by omega
      rw [List.getD_eq_getElem _ _ inside] at notBelow
      rw [firstReaching, if_pos proper, if_neg (by rwa [List.getD_eq_getElem _ _ inside])]
      refine ih (by omega) (by omega) left fun i second after => ?_
      exact (not_lt.mp notBelow).trans (climb middle i inside second after)
  | case3 low high empty =>
      rw [firstReaching, if_neg empty]
      exact ⟨by omega, left, fun i inside after => right i inside (by omega)⟩

/-- The probability of the utilities up to a number. -/
def upTo (pairs : List (Rat × Rat)) (x : Rat) : Rat :=
  (pairs.map fun e => if e.1 ≤ x then e.2 else 0).sum

/-- A utility is the first one up to which the probabilities add up to a bound, or it is the
greatest utility and they never do. -/
structure FirstUpTo (pairs : List (Rat × Rat)) (bound v : Rat) : Prop where
  member : v ∈ pairs.map (·.1)
  before : ∀ x ∈ pairs.map (·.1), x < v → upTo pairs x < bound
  reached : bound ≤ upTo pairs v ∨ ∀ x ∈ pairs.map (·.1), x ≤ v

variable {pairs : List (Rat × Rat)} {bound x v : Rat}

theorem upTo_append (front back : List (Rat × Rat)) (x : Rat) :
    upTo (front ++ back) x = upTo front x + upTo back x := by
  rw [upTo, List.map_append, List.sum_append]
  rfl

theorem upTo_perm {other : List (Rat × Rat)} (perm : pairs.Perm other) (x : Rat) :
    upTo pairs x = upTo other x := (perm.map _).sum_eq

theorem upTo_nonneg (nonneg : ∀ e ∈ pairs, 0 ≤ e.2) (x : Rat) : 0 ≤ upTo pairs x := by
  refine List.sum_nonneg (List.forall_mem_map.mpr fun e member => ?_)
  split
  · exact nonneg e member
  · exact le_rfl

theorem upTo_le_sum (nonneg : ∀ e ∈ pairs, 0 ≤ e.2) (x : Rat) :
    upTo pairs x ≤ (pairs.map (·.2)).sum := by
  refine List.sum_le_sum fun e member => ?_
  split
  · exact le_rfl
  · exact nonneg e member

theorem upTo_of_le (below : ∀ e ∈ pairs, e.1 ≤ x) : upTo pairs x = (pairs.map (·.2)).sum :=
  congrArg List.sum (List.map_congr_left fun e member => if_pos (below e member))

theorem upTo_of_lt (above : ∀ e ∈ pairs, x < e.1) : upTo pairs x = 0 :=
  List.sum_eq_zero (List.forall_mem_map.mpr fun e member => if_neg (not_le.mpr (above e member)))

/-- With the utilities in order, the probabilities up to a place are those of utilities up to the
one there. -/
theorem sum_take_le_upTo (sorted : pairs.Pairwise fun a b => a.1 ≤ b.1)
    (nonneg : ∀ e ∈ pairs, 0 ≤ e.2) {k : Nat} (inside : k < pairs.length) :
    ((pairs.map (·.2)).take (k + 1)).sum ≤ upTo pairs pairs[k].1 := by
  have below : ∀ e ∈ pairs.take (k + 1), e.1 ≤ pairs[k].1 := by
    intro e member
    obtain ⟨i, place, rfl⟩ := List.mem_take_iff_getElem.mp member
    exact sorted.rel_get_of_le (a := ⟨i, by omega⟩) (b := ⟨k, inside⟩)
      (Fin.mk_le_mk.mpr (by omega))
  have rest : 0 ≤ upTo (pairs.drop (k + 1)) pairs[k].1 :=
    upTo_nonneg (fun e member => nonneg e (List.mem_of_mem_drop member)) _
  calc
    ((pairs.map (·.2)).take (k + 1)).sum = upTo (pairs.take (k + 1)) pairs[k].1 := by
      rw [← List.map_take, upTo_of_le below]
    _ ≤ upTo (pairs.take (k + 1)) pairs[k].1 + upTo (pairs.drop (k + 1)) pairs[k].1 :=
      le_add_of_nonneg_right rest
    _ = upTo pairs pairs[k].1 := by rw [← upTo_append, List.take_append_drop]

/-- With the utilities in order, those below the one at a place stand before it. -/
theorem upTo_le_sum_take (sorted : pairs.Pairwise fun a b => a.1 ≤ b.1)
    (nonneg : ∀ e ∈ pairs, 0 ≤ e.2) {k : Nat} (inside : k < pairs.length) (below : x < pairs[k].1) :
    upTo pairs x ≤ ((pairs.map (·.2)).take k).sum := by
  have above : ∀ e ∈ pairs.drop k, x < e.1 := by
    intro e member
    obtain ⟨i, place, rfl⟩ := List.mem_drop_iff_getElem.mp member
    exact below.trans_le (sorted.rel_get_of_le (a := ⟨k, inside⟩) (b := ⟨k + i, by omega⟩)
      (Fin.mk_le_mk.mpr (by omega)))
  calc
    upTo pairs x = upTo (pairs.take k) x + upTo (pairs.drop k) x := by
      rw [← upTo_append, List.take_append_drop]
    _ = upTo (pairs.take k) x := by rw [upTo_of_lt above, add_zero]
    _ ≤ ((pairs.take k).map (·.2)).sum :=
      upTo_le_sum (fun e member => nonneg e (List.mem_of_mem_take member)) x
    _ = ((pairs.map (·.2)).take k).sum := by rw [List.map_take]

/-- There is no more than one first utility that reaches a bound. -/
theorem FirstUpTo.unique {w : Rat} (one : FirstUpTo pairs bound v)
    (other : FirstUpTo pairs bound w) : v = w := by
  have notBelow : ∀ {v w}, FirstUpTo pairs bound v → FirstUpTo pairs bound w → ¬v < w := by
    intro v w first second below
    rcases first.reached with reached | greatest
    · exact absurd (second.before v first.member below) (not_lt.mpr reached)
    · exact absurd below (not_lt.mpr (greatest w second.member))
  exact le_antisymm (not_lt.mp (notBelow other one)) (not_lt.mp (notBelow one other))

/-- Only the utilities and the probabilities up to them matter. -/
theorem FirstUpTo.congr {other : List (Rat × Rat)} (first : FirstUpTo pairs bound v)
    (utilities : ∀ x, x ∈ pairs.map (·.1) ↔ x ∈ other.map (·.1))
    (same : ∀ x, upTo pairs x = upTo other x) : FirstUpTo other bound v where
  member := (utilities v).mp first.member
  before x member below := same x ▸ first.before x ((utilities x).mpr member) below
  reached := first.reached.imp (fun reached => same v ▸ reached)
    fun greatest x member => greatest x ((utilities x).mpr member)

theorem FirstUpTo.perm {other : List (Rat × Rat)} (first : FirstUpTo pairs bound v)
    (perm : pairs.Perm other) : FirstUpTo other bound v :=
  first.congr (fun _ => (perm.map _).mem_iff) (upTo_perm perm)

/-- With the utilities in order, the quantile is the first one that reaches the level, up to the
tolerance. -/
theorem quantile_spec (sorted : pairs.Pairwise fun a b => a.1 ≤ b.1)
    (nonneg : ∀ e ∈ pairs, 0 ≤ e.2) (some : pairs ≠ []) (level : Rat) :
    ∃ v, quantile pairs level = .ok v ∧ FirstUpTo pairs (level - levelTolerance) v := by
  have present := List.length_pos_iff.mpr some
  have length : (Scalar.cumulative (pairs.map (·.2))).length = pairs.length := by
    rw [Scalar.length_cumulative, List.length_map]
  have sums := fun k inside => Scalar.getElem_cumulative (pairs.map (·.2)) (k := k) inside
  obtain ⟨within, below, above⟩ := firstReaching_spec (x := level - levelTolerance)
    (Scalar.pairwise_cumulative (List.forall_mem_map.mpr nonneg)) (Nat.zero_le _) le_rfl
    (fun _ _ none => absurd none (Nat.not_lt_zero _))
    (fun _ inside past => absurd inside (not_lt.mpr past))
  rw [quantile, quantileOf]
  generalize Scalar.cumulative (pairs.map (·.2)) = items at *
  generalize firstReaching items (level - levelTolerance) 0 items.length = k at *
  have climb : ∀ i j, (first : i < pairs.length) → (second : j < pairs.length) → i ≤ j →
      pairs[i].1 ≤ pairs[j].1 := fun i j first second ordered =>
    sorted.rel_get_of_le (a := ⟨i, first⟩) (b := ⟨j, second⟩) (Fin.mk_le_mk.mpr ordered)
  have place : min k (pairs.length - 1) < pairs.length := by omega
  refine ⟨pairs[min k (pairs.length - 1)].1, ?_, ?_, ?_, ?_⟩
  · simp only [List.length_map, List.getElem?_map, List.getElem?_eq_getElem place, Option.map_some]
  · exact List.mem_map_of_mem (List.getElem_mem place)
  · intro x member smaller
    obtain ⟨e, present, rfl⟩ := List.mem_map.mp member
    obtain ⟨j, inside, rfl⟩ := List.getElem_of_mem present
    -- A utility below the quantile stands before it, where the running sum misses the bound.
    have earlier : j < min k (pairs.length - 1) := by
      by_contra late
      exact absurd (climb _ _ place inside (not_lt.mp late)) (not_le.mpr smaller)
    obtain ⟨i, next⟩ := Nat.exists_eq_succ_of_ne_zero (Nat.ne_zero_of_lt earlier)
    have missed := below i (by omega) (by omega)
    have before := upTo_le_sum_take sorted nonneg place smaller
    rw [next] at before
    rw [sums i (by omega)] at missed
    exact before.trans_lt missed
  · by_cases found : k < pairs.length
    · left
      have here : min k (pairs.length - 1) = k := by omega
      have reached := above k (by omega) le_rfl
      rw [sums k (by omega)] at reached
      simp only [here]
      exact reached.trans (sum_take_le_upTo sorted nonneg found)
    · right
      intro x member
      obtain ⟨e, present, rfl⟩ := List.mem_map.mp member
      obtain ⟨j, inside, rfl⟩ := List.getElem_of_mem present
      exact climb _ _ inside place (by omega)

/-- The utilities in order have a quantile, and it depends on the pairs in any order. -/
theorem quantile_arranged_spec {utilities probabilities : List Rat} (some : utilities ≠ [])
    (same : utilities.length = probabilities.length) (nonneg : ∀ p ∈ probabilities, 0 ≤ p)
    (level : Rat) : ∃ pairs v, arranged utilities probabilities = .ok pairs ∧
      pairs.Perm (utilities.zip probabilities) ∧ quantile pairs level = .ok v ∧
      FirstUpTo (utilities.zip probabilities) (level - levelTolerance) v := by
  obtain ⟨pairs, found, perm⟩ := arranged_perm same
  have present : pairs ≠ [] := by
    intro none
    rw [none] at perm
    have length := perm.length_eq
    rw [List.length_zip, ← same, min_self, List.length_nil] at length
    exact some (List.length_eq_zero_iff.mp length.symm)
  obtain ⟨v, value, first⟩ := quantile_spec (arranged_sorted found)
    (fun e member => nonneg e.2 (List.of_mem_zip (perm.mem_iff.mp member)).2) present level
  exact ⟨pairs, v, found, perm, value, first.perm perm⟩

end Risk

end InfluenceProgram
