import InfluenceProgram.Program
import Mathlib

/-!
Scalars that are rational numbers. Every order of summation gives the same sum, a distance is an
absolute difference, and the least scalar of a list is a lower bound that it attains.
-/

set_option autoImplicit false

namespace InfluenceProgram.Scalar

@[simp] theorem sum_eq (xs : List Rat) : Scalar.sum xs = xs.sum :=
  List.sum_eq_foldl.symm

theorem foldl_add (xs : List Rat) (first : Rat) :
    xs.foldl (· + ·) first = first + xs.sum := by
  induction xs generalizing first with
  | nil => simp
  | cons x xs ih => rw [List.foldl_cons, ih, List.sum_cons, add_assoc]

theorem leftSum_eq (xs : List Rat) : leftSum xs = xs.sum := by
  cases xs with
  | nil => rfl
  | cons x xs => exact foldl_add xs x

theorem sum_zipWith_add {xs ys : List Rat} (same : xs.length = ys.length) :
    (List.zipWith (· + ·) xs ys).sum = xs.sum + ys.sum := by
  induction xs generalizing ys with
  | nil => simp [List.length_eq_zero_iff.mp same.symm]
  | cons x xs ih =>
      cases ys with
      | nil => cases same
      | cons y ys =>
          rw [List.zipWith_cons_cons, List.sum_cons, List.sum_cons, List.sum_cons,
            ih (Nat.succ.inj same)]
          ring

/-- A full block of eight moves from the rest to the lanes without changing the total. -/
theorem lanes_sum (sums rest : List Rat) (eight : sums.length = 8) :
    (lanes sums rest).1.length = 8 ∧
      (lanes sums rest).1.sum + (lanes sums rest).2.sum = sums.sum + rest.sum := by
  induction sums, rest using lanes.induct (α := Rat) with
  | case1 sums rest enough ih =>
      have block : sums.length = (rest.take 8).length := by
        rw [List.length_take, eight]
        omega
      obtain ⟨length, total⟩ := ih (by rw [List.length_zipWith, ← block, eight]; rfl)
      rw [lanes, dif_pos enough]
      refine ⟨length, total.trans ?_⟩
      change (List.zipWith (· + ·) sums (rest.take 8)).sum + _ = _
      rw [sum_zipWith_add block, ← List.sum_take_add_sum_drop rest 8, add_assoc]
  | case2 sums rest few =>
      rw [lanes, dif_neg few]
      exact ⟨eight, rfl⟩

theorem joinLanes_eq (xs : List Rat) : joinLanes xs = xs.sum := by
  unfold joinLanes
  split
  · simp only [List.sum_cons, List.sum_nil]
    ring
  · exact leftSum_eq xs

theorem pairwiseSum_eq (xs : List Rat) : pairwiseSum xs = xs.sum := by
  induction xs using pairwiseSum.induct with
  | case1 xs few => rw [pairwiseSum, if_pos few, leftSum_eq]
  | case2 xs enough short =>
      rw [pairwiseSum, if_neg enough, dif_pos short]
      have block : (xs.take 8).length = 8 := by
        rw [List.length_take]
        omega
      have total := (lanes_sum (xs.take 8) (xs.drop 8) block).2
      rw [← List.sum_take_add_sum_drop xs 8, ← total, ← joinLanes_eq]
      exact foldl_add _ _
  | case3 xs enough long half left right =>
      rw [pairwiseSum, if_neg enough, dif_neg long]
      change pairwiseSum (xs.take half) + pairwiseSum (xs.drop half) = _
      rw [left, right, List.sum_take_add_sum_drop]

theorem distance_eq (a b : Rat) : distance a b = |a - b| := by
  unfold distance
  split
  · rename_i below
    rw [abs_sub_comm, abs_of_pos (sub_pos.mpr below)]
  · rename_i notBelow
    rw [abs_of_nonneg (sub_nonneg.mpr (not_lt.mp notBelow))]

/-- Sums of values that are bounded one by one agree only if all values do. -/
theorem sum_eq_iff_of_le {α : Type} {xs : List α} {f g : α → Rat} (below : ∀ x ∈ xs, f x ≤ g x) :
    (xs.map f).sum = (xs.map g).sum ↔ ∀ x ∈ xs, f x = g x := by
  induction xs with
  | nil => simp
  | cons x xs ih =>
      have first := below x List.mem_cons_self
      have later := fun y member => below y (List.mem_cons_of_mem x member)
      have rest := List.sum_le_sum later
      rw [List.map_cons, List.map_cons, List.sum_cons, List.sum_cons, List.forall_mem_cons,
        ← ih later]
      constructor
      · intro same
        constructor <;> linarith
      · rintro ⟨same, others⟩
        rw [same, others]

/-- Counting the places where something holds is summing ones over them. -/
theorem sum_ite_eq_countP {α R : Type*} [AddCommMonoidWithOne R] (xs : List α) (chosen : α → Prop)
    [DecidablePred chosen] :
    (xs.map fun x => if chosen x then (1 : R) else 0).sum = xs.countP (chosen ·) := by
  rw [List.sum_map_ite, List.countP_eq_length_filter]
  simp

/-- Places that contribute nothing can be left out of a sum. -/
theorem sum_filter_eq {α M : Type*} [AddCommMonoid M] {xs : List α} {f : α → M} {kept : α → Prop}
    [DecidablePred kept] (others : ∀ x ∈ xs, ¬kept x → f x = 0) :
    ((xs.filter (kept ·)).map f).sum = (xs.map f).sum := by
  have shares : xs.map f = xs.map fun x => if kept x then f x else 0 := by
    apply List.map_congr_left
    intro x member
    split
    · rfl
    · rename_i dropped
      exact others x member dropped
  rw [shares, List.sum_map_ite]
  simp

/-- A sum to which only one of different items contributes. -/
theorem sum_of_single {α M : Type*} [DecidableEq α] [AddCommMonoid M] {xs : List α}
    (distinct : xs.Nodup) {x : α} (member : x ∈ xs) {f : α → M}
    (others : ∀ y, y ≠ x → y ∈ xs → f y = 0) : (xs.map f).sum = f x := by
  rw [List.sum_map_eq_nsmul_single x f others, List.count_eq_one_of_mem distinct member, one_nsmul]

/-- Of different items only one contributes to a sum. -/
theorem sum_single {α : Type} [DecidableEq α] {xs : List α} (distinct : xs.Nodup) {y : α}
    (member : y ∈ xs) (f : α → Rat) : (xs.map fun x => if y = x then f x else 0).sum = f y := by
  rw [sum_of_single distinct member fun x different _ => if_neg different.symm, if_pos rfl]

/-- A sum is the same taken class by class. -/
theorem sum_classes {α β : Type} [DecidableEq β] {xs : List α} {classes : List β}
    (distinct : classes.Nodup) (key : α → β) (within : ∀ x ∈ xs, key x ∈ classes)
    (f : α → Rat) :
    (classes.map fun b => (xs.map fun x => if key x = b then f x else 0).sum).sum =
      (xs.map f).sum := by
  induction xs with
  | nil => simp
  | cons x xs ih =>
      obtain ⟨first, rest⟩ := List.forall_mem_cons.mp within
      have own := sum_single distinct first fun _ => f x
      simp only [List.map_cons, List.sum_cons, List.sum_map_add, own, ih rest]

/-- A running least scalar stays below all that it has met and is one of them. -/
theorem foldl_least {choose : Rat → Rat → Rat}
    (lesser : ∀ m y, choose m y = m ∧ m ≤ y ∨ choose m y = y ∧ y ≤ m) (xs : List Rat) (x : Rat) :
    xs.foldl choose x ∈ x :: xs ∧ ∀ y ∈ x :: xs, xs.foldl choose x ≤ y := by
  induction xs generalizing x with
  | nil => simp
  | cons y xs ih =>
      obtain ⟨member, least⟩ := ih (choose x y)
      have start := least _ List.mem_cons_self
      have rest : ∀ z ∈ xs, xs.foldl choose (choose x y) ≤ z :=
        fun z present => least z (List.mem_cons_of_mem _ present)
      rw [List.foldl_cons, List.forall_mem_cons, List.forall_mem_cons]
      rcases lesser x y with ⟨same, below⟩ | ⟨same, below⟩ <;> rw [same] at member start ⊢ rest
      · exact ⟨List.mem_cons.mpr ((List.mem_cons.mp member).imp_right (List.mem_cons_of_mem _)),
          start, start.trans below, rest⟩
      · exact ⟨List.mem_cons_of_mem _ member, start.trans below, start, rest⟩

theorem exists_least? {xs : List Rat} (some : xs ≠ []) : ∃ least, least? xs = .some least := by
  obtain ⟨x, xs, rfl⟩ := List.exists_cons_of_ne_nil some
  exact ⟨_, rfl⟩

theorem exists_lastLeast? {xs : List Rat} (some : xs ≠ []) :
    ∃ least, lastLeast? xs = .some least := by
  obtain ⟨x, xs, rfl⟩ := List.exists_cons_of_ne_nil some
  exact ⟨_, rfl⟩

theorem least?_some {xs : List Rat} {m : Rat} (found : least? xs = some m) :
    m ∈ xs ∧ ∀ x ∈ xs, m ≤ x := by
  cases xs with
  | nil => cases found
  | cons x xs =>
      cases found
      apply foldl_least
      intro m y
      split
      · rename_i smaller
        exact Or.inr ⟨rfl, le_of_lt smaller⟩
      · rename_i notSmaller
        exact Or.inl ⟨rfl, not_lt.mp notSmaller⟩

theorem lastLeast?_some {xs : List Rat} {m : Rat} (found : lastLeast? xs = some m) :
    m ∈ xs ∧ ∀ x ∈ xs, m ≤ x := by
  cases xs with
  | nil => cases found
  | cons x xs =>
      cases found
      apply foldl_least
      intro m y
      split
      · rename_i smaller
        exact Or.inl ⟨rfl, le_of_lt smaller⟩
      · rename_i notSmaller
        exact Or.inr ⟨rfl, not_lt.mp notSmaller⟩

end InfluenceProgram.Scalar
