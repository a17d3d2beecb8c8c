import InfluenceProgram.Proofs.Search

/-!
Lists in order and lists that are alike. Items are ordered by a rank. Alike are lists with the same
items in which those of one rank stand in the same order, and there is just one list in order among
those that are alike.
-/

set_option autoImplicit false

namespace InfluenceProgram.Sorting

variable {α κ : Type} [LinearOrder κ]

/-- A comparison of certain items by their ranks, which does not fail. -/
def Answers (before : α → α → Except Fault Bool) (rank : α → κ) (known : α → Prop) : Prop :=
  ∀ x y, known x → known y → before x y = .ok (decide (rank x < rank y))

/-- The same items, those of one rank in the same order. -/
def Alike (rank : α → κ) (xs ys : List α) : Prop :=
  ∀ r, xs.filter (rank · = r) = ys.filter (rank · = r)

/-- Certain items, those of lower rank first. -/
structure InOrder (rank : α → κ) (known : α → Prop) (xs : List α) : Prop where
  known : ∀ x ∈ xs, known x
  ascending : xs.Pairwise fun x y => rank x ≤ rank y

variable {rank : α → κ} {known : α → Prop} {x : α} {xs ys zs : List α}

namespace Alike

theorem refl (xs : List α) : Alike rank xs xs := fun _ => rfl

theorem symm (same : Alike rank xs ys) : Alike rank ys xs := fun r => (same r).symm

theorem trans (first : Alike rank xs ys) (second : Alike rank ys zs) : Alike rank xs zs :=
  fun r => (first r).trans (second r)

theorem append {xs' ys' : List α} (front : Alike rank xs ys) (back : Alike rank xs' ys') :
    Alike rank (xs ++ xs') (ys ++ ys') := by
  intro r
  rw [List.filter_append, List.filter_append, front, back]

theorem append_left (front : List α) (back : Alike rank xs ys) :
    Alike rank (front ++ xs) (front ++ ys) :=
  (refl front).append back

theorem reverse (same : Alike rank xs ys) : Alike rank xs.reverse ys.reverse := by
  intro r
  rw [List.filter_reverse, List.filter_reverse, same]

theorem mem_iff (same : Alike rank xs ys) (x : α) : x ∈ xs ↔ x ∈ ys := by
  have listed : ∀ zs : List α, x ∈ zs ↔ x ∈ zs.filter (rank · = rank x) := by simp
  rw [listed xs, same, ← listed]

/-- Items of other ranks may be passed. -/
theorem swap (apart : ∀ x ∈ xs, ∀ y ∈ ys, rank x ≠ rank y) :
    Alike rank (xs ++ ys) (ys ++ xs) := by
  intro r
  rw [List.filter_append, List.filter_append]
  by_cases present : ∃ x ∈ xs, rank x = r
  · obtain ⟨x, member, rfl⟩ := present
    have none : ys.filter (rank · = rank x) = [] := by
      rw [List.filter_eq_nil_iff]
      intro y other
      simpa using (apart x member y other).symm
    rw [none, List.append_nil, List.nil_append]
  · have none : xs.filter (rank · = r) = [] := by
      rw [List.filter_eq_nil_iff]
      intro x member
      simpa using fun same => present ⟨x, member, same⟩
    rw [none, List.append_nil, List.nil_append]

theorem of_cons (same : Alike rank (x :: xs) (x :: ys)) : Alike rank xs ys := by
  intro r
  have whole := same r
  by_cases here : rank x = r
  · rw [List.filter_cons_of_pos (by simpa using here),
      List.filter_cons_of_pos (by simpa using here)] at whole
    exact (List.cons.inj whole).2
  · rwa [List.filter_cons_of_neg (by simpa using here),
      List.filter_cons_of_neg (by simpa using here)] at whole

/-- There is one list in order among those that are alike. -/
theorem eq_of_ascending (first : xs.Pairwise fun x y => rank x ≤ rank y)
    (second : ys.Pairwise fun x y => rank x ≤ rank y) (same : Alike rank xs ys) : xs = ys := by
  induction xs generalizing ys with
  | nil =>
    cases ys with
    | nil => rfl
    | cons y ys => cases (same.mem_iff y).mpr List.mem_cons_self
  | cons x xs ih =>
    cases ys with
    | nil => cases (same.mem_iff x).mp List.mem_cons_self
    | cons y ys =>
      obtain ⟨leastX, restX⟩ := List.pairwise_cons.mp first
      obtain ⟨leastY, restY⟩ := List.pairwise_cons.mp second
      have below : rank x ≤ rank y := by
        rcases List.mem_cons.mp ((same.mem_iff y).mpr List.mem_cons_self) with rfl | later
        · exact le_rfl
        · exact leastX y later
      have above : rank y ≤ rank x := by
        rcases List.mem_cons.mp ((same.mem_iff x).mp List.mem_cons_self) with rfl | later
        · exact le_rfl
        · exact leastY x later
      have heads := same (rank x)
      rw [List.filter_cons_of_pos (by simp),
        List.filter_cons_of_pos (by simpa using le_antisymm above below)] at heads
      obtain rfl := (List.cons.inj heads).1
      rw [ih restX restY same.of_cons]

end Alike

section Answers

variable {before : α → α → Except Fault Bool} {y : α} (answers : Answers before rank known)
  (knownX : known x) (knownY : known y)
include answers knownX knownY

/-- Whether an item is not behind another one is read off their ranks. -/
theorem Answers.not_behind :
    (do return !(← before y x)) = Except.ok (decide (rank x ≤ rank y)) := by
  rw [answers y x knownY knownX, Success.ok_bind, ← decide_not]
  simp only [not_lt]
  rfl

theorem Answers.not_behind_of_le (low : rank x ≤ rank y) :
    (do return !(← before y x)) = Except.ok true := by
  rw [answers.not_behind knownX knownY, decide_eq_true low]

theorem Answers.not_behind_of_lt (high : rank y < rank x) :
    (do return !(← before y x)) = Except.ok false := by
  rw [answers.not_behind knownX knownY, decide_eq_false (not_le.mpr high)]

end Answers

namespace InOrder

theorem append_iff : InOrder rank known (xs ++ ys) ↔
    InOrder rank known xs ∧ InOrder rank known ys ∧ ∀ x ∈ xs, ∀ y ∈ ys, rank x ≤ rank y := by
  constructor
  · rintro ⟨known, ascending⟩
    obtain ⟨knownX, knownY⟩ := List.forall_mem_append.mp known
    obtain ⟨first, second, across⟩ := List.pairwise_append.mp ascending
    exact ⟨⟨knownX, first⟩, ⟨knownY, second⟩, across⟩
  · rintro ⟨first, second, across⟩
    exact ⟨List.forall_mem_append.mpr ⟨first.known, second.known⟩,
      List.pairwise_append.mpr ⟨first.ascending, second.ascending, across⟩⟩

theorem le_last (order : InOrder rank known xs) {last : α} (ending : xs.getLast? = some last) :
    ∀ x ∈ xs, rank x ≤ rank last := by
  obtain ⟨front, rfl⟩ := List.getLast?_eq_some_iff.mp ending
  obtain ⟨_, _, below⟩ := append_iff.mp order
  rw [List.forall_mem_append, List.forall_mem_singleton]
  exact ⟨fun x member => below x member last (List.mem_singleton_self last), le_rfl⟩

theorem head_le (order : InOrder rank known (x :: xs)) : ∀ y ∈ x :: xs, rank x ≤ rank y := by
  rw [List.forall_mem_cons]
  exact ⟨le_rfl, (List.pairwise_cons.mp order.ascending).1⟩

/-- Items in order split where their ranks are past a rank. -/
theorem split_le (order : InOrder rank known xs) (r : κ) :
    ∃ near far, near ++ far = xs ∧ (∀ x ∈ near, rank x ≤ r) ∧ ∀ x ∈ far, r < rank x := by
  simpa only [not_le] using exists_split (rank · ≤ r) order.ascending
    fun _ _ below le => below.trans le

/-- Items in order split where their ranks reach a rank. -/
theorem split_lt (order : InOrder rank known xs) (r : κ) :
    ∃ near far, near ++ far = xs ∧ (∀ x ∈ near, rank x < r) ∧ ∀ x ∈ far, r ≤ rank x := by
  simpa only [not_lt] using exists_split (rank · < r) order.ascending
    fun _ _ below lt => below.trans_lt lt

end InOrder

/-- Items of one rank pass the stable sort in their order. -/
theorem alike_mergeSort (rank : α → κ) (xs : List α) :
    Alike rank (xs.mergeSort fun x y => rank x ≤ rank y) xs := by
  intro r
  have inOrder : (xs.filter (rank · = r)).Pairwise fun x y => decide (rank x ≤ rank y) = true := by
    apply List.pairwise_of_forall_mem_list
    intro x first y second
    have rankX : rank x = r := by simpa using (List.mem_filter.mp first).2
    have rankY : rank y = r := by simpa using (List.mem_filter.mp second).2
    exact decide_eq_true (rankX.trans rankY.symm).le
  have passed : (xs.filter (rank · = r)).Sublist (xs.mergeSort fun x y => rank x ≤ rank y) := by
    apply List.sublist_mergeSort _ _ inOrder List.filter_sublist
    · intro x y z
      simpa using le_trans
    · intro x y
      simpa using le_total (rank x) (rank y)
  have filtered := passed.filter (rank · = r)
  simp only [List.filter_filter, Bool.and_self] at filtered
  exact (filtered.eq_of_length (((List.mergeSort_perm xs _).filter _).length_eq.symm)).symm

theorem ascending_mergeSort (rank : α → κ) (xs : List α) :
    (xs.mergeSort fun x y => rank x ≤ rank y).Pairwise fun x y => rank x ≤ rank y := by
  have sorted : (xs.mergeSort fun x y => rank x ≤ rank y).Pairwise
      fun x y => decide (rank x ≤ rank y) = true := by
    apply List.pairwise_mergeSort
    · intro x y z
      simpa using le_trans
    · intro x y
      simpa using le_total (rank x) (rank y)
  simpa only [decide_eq_true_eq] using sorted

end InfluenceProgram.Sorting
