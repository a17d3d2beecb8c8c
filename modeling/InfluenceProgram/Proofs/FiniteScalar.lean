import InfluenceProgram.Proofs.Exact

/-!
Scalars of which some are no numbers. The finite ones stand for rational numbers, and calculating
with them is exact. A pairwise sum of finite scalars stands for the sum of what they stand for.
-/

set_option autoImplicit false

namespace InfluenceProgram.Scalar

variable {α : Type} [Scalar α]

/-- A finite scalar with its value. -/
def Stands (value : α → Rat) (x : α) (q : Rat) : Prop := isFinite x = true ∧ value x = q

/-- The laws of exact arithmetic, for finite scalars. -/
structure Exact (value : α → Rat) : Prop where
  zero : Stands value 0 0
  one : Stands value 1 1
  decimal (units places : Nat) : Stands value (decimal units places) (units / 10 ^ places)
  add {x y : α} {p q : Rat} : Stands value x p → Stands value y q → Stands value (x + y) (p + q)
  sub {x y : α} {p q : Rat} : Stands value x p → Stands value y q → Stands value (x - y) (p - q)
  lt {x y : α} {p q : Rat} : Stands value x p → Stands value y q → (x < y ↔ p < q)
  le {x y : α} {p q : Rat} : Stands value x p → Stands value y q → (x ≤ y ↔ p ≤ q)

/-- Rational numbers stand for themselves. -/
theorem exact_rat : Exact (id : Rat → Rat) where
  zero := ⟨rfl, rfl⟩
  one := ⟨rfl, rfl⟩
  decimal units places := by
    refine ⟨rfl, ?_⟩
    show mkRat units (Nat.pow 10 places) = _
    rw [Rat.mkRat_eq_div, Nat.pow_eq]
    push_cast
    rfl
  add := by
    rintro x y _ _ ⟨_, rfl⟩ ⟨_, rfl⟩
    exact ⟨rfl, rfl⟩
  sub := by
    rintro x y _ _ ⟨_, rfl⟩ ⟨_, rfl⟩
    exact ⟨rfl, rfl⟩
  lt := by
    rintro x y _ _ ⟨_, rfl⟩ ⟨_, rfl⟩
    rfl
  le := by
    rintro x y _ _ ⟨_, rfl⟩ ⟨_, rfl⟩
    rfl

/-- A rational number, or none where the number is unknown. -/
structure Reading where
  number? : Option Rat

namespace Reading

/-- What is calculated with an unknown number is unknown. -/
def combine (f : Rat → Rat → Rat) (x y : Reading) : Reading := ⟨Option.map₂ f x.number? y.number?⟩

/-- Nothing holds of an unknown number. -/
def relates (f : Rat → Rat → Bool) (x y : Reading) : Bool :=
  (Option.map₂ f x.number? y.number?).getD false

def value (x : Reading) : Rat := x.number?.getD 0

instance : Scalar Reading where
  zero := ⟨⟨some 0⟩⟩
  one := ⟨⟨some 1⟩⟩
  add := ⟨combine (· + ·)⟩
  sub := ⟨combine (· - ·)⟩
  mul := ⟨combine (· * ·)⟩
  div := ⟨combine (· / ·)⟩
  lt := ⟨fun x y => relates (fun p q => decide (p < q)) x y⟩
  le := ⟨fun x y => relates (fun p q => decide (p ≤ q)) x y⟩
  beq := ⟨relates fun p q => decide (p = q)⟩
  decLt _ _ := inferInstanceAs (Decidable (_ = true))
  decLe _ _ := inferInstanceAs (Decidable (_ = true))
  ofInt i := ⟨some i⟩
  decimal units places := ⟨some (units / 10 ^ places)⟩
  isFinite x := x.number?.isSome
  shown x := (x.number?.map Scalar.shown).getD "nan"

theorem eq_of_stands {x : Reading} {q : Rat} (stands : Stands value x q) : x = ⟨some q⟩ := by
  obtain ⟨number?⟩ := x
  obtain ⟨finite, rfl⟩ := stands
  cases number? with
  | none => cases finite
  | some q => rfl

/-- Known numbers are calculated with exactly, and unknown ones are not finite. -/
theorem exact_value : Exact value where
  zero := ⟨rfl, rfl⟩
  one := ⟨rfl, rfl⟩
  decimal _ _ := ⟨rfl, rfl⟩
  add first second := by
    rw [eq_of_stands first, eq_of_stands second]
    exact ⟨rfl, rfl⟩
  sub first second := by
    rw [eq_of_stands first, eq_of_stands second]
    exact ⟨rfl, rfl⟩
  lt first second := by
    rw [eq_of_stands first, eq_of_stands second]
    exact decide_eq_true_iff
  le first second := by
    rw [eq_of_stands first, eq_of_stands second]
    exact decide_eq_true_iff

end Reading

namespace Exact

variable {value : α → Rat}

theorem distance (exact : Exact value) {x y : α} {p q : Rat} (first : Stands value x p)
    (second : Stands value y q) : Stands value (distance x y) |p - q| := by
  rw [Scalar.distance]
  by_cases below : p < q
  · rw [if_pos ((exact.lt first second).mpr below), abs_sub_comm, abs_of_pos (sub_pos.mpr below)]
    exact exact.sub second first
  · rw [if_neg (mt (exact.lt first second).mp below),
      abs_of_nonneg (sub_nonneg.mpr (not_lt.mp below))]
    exact exact.sub first second

theorem foldl (exact : Exact value) {xs : List α} {qs : List Rat}
    (each : List.Forall₂ (Stands value) xs qs) {x : α} {q : Rat} (first : Stands value x q) :
    Stands value (xs.foldl (· + ·) x) (qs.foldl (· + ·) q) := by
  refine List.rel_foldl ?_ first each
  intro _ _ sum _ _ next
  exact exact.add sum next

theorem leftSum (exact : Exact value) {xs : List α} {qs : List Rat}
    (each : List.Forall₂ (Stands value) xs qs) : Stands value (leftSum xs) qs.sum := by
  rw [← leftSum_eq]
  cases each with
  | nil => exact exact.zero
  | cons first rest => exact exact.foldl rest first

theorem joinLanes (exact : Exact value) {xs : List α} {qs : List Rat}
    (each : List.Forall₂ (Stands value) xs qs) : Stands value (joinLanes xs) qs.sum := by
  unfold Scalar.joinLanes
  split
  · rw [← joinLanes_eq]
    simp only [List.forall₂_cons_left_iff, List.forall₂_nil_left_iff] at each
    obtain ⟨_, _, ha, ⟨_, _, hb, ⟨_, _, hc, ⟨_, _, hd, ⟨_, _, he, ⟨_, _, hf, ⟨_, _, hg,
      ⟨_, _, hh, rfl, rfl⟩, rfl⟩, rfl⟩, rfl⟩, rfl⟩, rfl⟩, rfl⟩, rfl⟩ := each
    exact exact.add (exact.add (exact.add ha hb) (exact.add hc hd))
      (exact.add (exact.add he hf) (exact.add hg hh))
  · exact exact.leftSum each

theorem zipWith (exact : Exact value) {xs ys : List α} {ps qs : List Rat}
    (first : List.Forall₂ (Stands value) xs ps) (second : List.Forall₂ (Stands value) ys qs) :
    List.Forall₂ (Stands value) (List.zipWith (· + ·) xs ys) (List.zipWith (· + ·) ps qs) := by
  induction first generalizing ys qs with
  | nil => exact .nil
  | cons head tail ih =>
      cases second with
      | nil => exact .nil
      | cons head' tail' => exact .cons (exact.add head head') (ih tail')

theorem lanes (exact : Exact value) {sums rest : List α} {ps qs : List Rat}
    (eachSum : List.Forall₂ (Stands value) sums ps)
    (each : List.Forall₂ (Stands value) rest qs) :
    List.Forall₂ (Stands value) (lanes sums rest).1 (Scalar.lanes ps qs).1 ∧
      List.Forall₂ (Stands value) (Scalar.lanes sums rest).2 (Scalar.lanes ps qs).2 := by
  induction sums, rest using Scalar.lanes.induct generalizing ps qs with
  | case1 sums rest enough ih =>
      have enough' : 8 ≤ qs.length := each.length_eq ▸ enough
      rw [Scalar.lanes, dif_pos enough, Scalar.lanes.eq_def ps, dif_pos enough']
      exact ih (exact.zipWith eachSum (List.forall₂_take 8 each)) (List.forall₂_drop 8 each)
  | case2 sums rest few =>
      have few' : ¬8 ≤ qs.length := each.length_eq ▸ few
      rw [Scalar.lanes, dif_neg few, Scalar.lanes.eq_def ps, dif_neg few']
      exact ⟨eachSum, each⟩

/-- A pairwise sum of finite scalars is finite, and exact. -/
theorem pairwiseSum (exact : Exact value) {xs : List α} {qs : List Rat}
    (each : List.Forall₂ (Stands value) xs qs) : Stands value (pairwiseSum xs) qs.sum := by
  induction xs using Scalar.pairwiseSum.induct generalizing qs with
  | case1 xs few =>
      rw [Scalar.pairwiseSum, if_pos few]
      exact exact.leftSum each
  | case2 xs enough short =>
      rw [Scalar.pairwiseSum, if_neg enough, dif_pos short]
      have block : (qs.take 8).length = 8 := by
        rw [List.length_take, ← each.length_eq]
        omega
      obtain ⟨sums, rest⟩ := exact.lanes (List.forall₂_take 8 each) (List.forall₂_drop 8 each)
      have total : qs.sum = (Scalar.lanes (qs.take 8) (qs.drop 8)).2.foldl (· + ·)
          (Scalar.lanes (qs.take 8) (qs.drop 8)).1.sum := by
        rw [← List.sum_take_add_sum_drop qs 8, ← (lanes_sum _ _ block).2, foldl_add]
      rw [total]
      exact exact.foldl rest (exact.joinLanes sums)
  | case3 xs enough long half left =>
      rename_i right
      rw [Scalar.pairwiseSum, if_neg enough, dif_neg long, ← List.sum_take_add_sum_drop qs half]
      exact exact.add (left (List.forall₂_take _ each)) (right (List.forall₂_drop _ each))

end Exact

end InfluenceProgram.Scalar
