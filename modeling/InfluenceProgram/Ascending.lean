/-!
Strictly ascending lists: the normal form of a finite set. A list is brought into it by inserting
its items one by one, which neither loses nor repeats any of them, and two ascending lists with
the same members are equal.
-/

namespace InfluenceProgram.Ascending

variable {α : Type}

/-- A strict order in which two different items are never on a par. -/
structure Strict (before : α → α → Bool) : Prop where
  irrefl : ∀ a, before a a = false
  trans : ∀ {a b c}, before a b → before b c → before a c
  eq_of_neither : ∀ {a b}, before a b = false → before b a = false → a = b

def insert (before : α → α → Bool) (x : α) : List α → List α
  | [] => [x]
  | y :: ys =>
    if before x y then x :: y :: ys
    else if before y x then y :: insert before x ys
    else y :: ys

def ofList (before : α → α → Bool) (xs : List α) : List α := xs.foldr (insert before) []

variable {before : α → α → Bool}

theorem mem_insert (strict : Strict before) {x z : α} {ys : List α} :
    z ∈ insert before x ys ↔ z = x ∨ z ∈ ys := by
  induction ys with
  | nil => simp [insert]
  | cons y ys ih =>
    simp only [insert]
    split
    · simp
    · split
      · simp only [List.mem_cons, ih]
        exact or_left_comm
      · have : x = y := strict.eq_of_neither (by simp_all) (by simp_all)
        subst this
        simp

theorem pairwise_insert (strict : Strict before) {x : α} {ys : List α}
    (ascending : ys.Pairwise fun a b => before a b) :
    (insert before x ys).Pairwise fun a b => before a b := by
  induction ys with
  | nil => simp [insert]
  | cons y ys ih =>
    obtain ⟨below, rest⟩ := List.pairwise_cons.1 ascending
    simp only [insert]
    split
    · next first =>
      refine List.pairwise_cons.2 ⟨fun z hz => ?_, ascending⟩
      rcases List.mem_cons.1 hz with rfl | hz
      · exact first
      · exact strict.trans first (below z hz)
    · split
      · next later =>
        refine List.pairwise_cons.2 ⟨fun z hz => ?_, ih rest⟩
        rcases (mem_insert strict).1 hz with rfl | hz
        · exact later
        · exact below z hz
      · exact ascending

theorem mem_ofList (strict : Strict before) {z : α} {xs : List α} :
    z ∈ ofList before xs ↔ z ∈ xs := by
  induction xs with
  | nil => simp [ofList]
  | cons x xs ih =>
    change z ∈ insert before x (ofList before xs) ↔ _
    rw [mem_insert strict, ih, List.mem_cons]

theorem pairwise_ofList (strict : Strict before) (xs : List α) :
    (ofList before xs).Pairwise fun a b => before a b := by
  induction xs with
  | nil => exact List.Pairwise.nil
  | cons x xs ih => exact pairwise_insert strict ih

/-- An ascending list is determined by its members. -/
theorem eq_of_mem_iff (strict : Strict before) {xs ys : List α}
    (hx : xs.Pairwise fun a b => before a b) (hy : ys.Pairwise fun a b => before a b)
    (same : ∀ z, z ∈ xs ↔ z ∈ ys) : xs = ys := by
  induction xs generalizing ys with
  | nil =>
    cases ys with
    | nil => rfl
    | cons y ys => simpa using same y
  | cons x xs ih =>
    cases ys with
    | nil => simpa using same x
    | cons y ys =>
      obtain ⟨belowX, restX⟩ := List.pairwise_cons.1 hx
      obtain ⟨belowY, restY⟩ := List.pairwise_cons.1 hy
      have first : x = y := by
        rcases List.mem_cons.1 ((same x).1 List.mem_cons_self) with h | h
        · exact h
        rcases List.mem_cons.1 ((same y).2 List.mem_cons_self) with k | k
        · exact k.symm
        have := strict.trans (belowX y k) (belowY x h)
        simp [strict.irrefl] at this
      subst first
      congr 1
      refine ih restX restY fun z => ⟨fun hz => ?_, fun hz => ?_⟩
      · rcases List.mem_cons.1 ((same z).1 (List.mem_cons_of_mem _ hz)) with rfl | h
        · have := belowX z hz
          simp [strict.irrefl] at this
        · exact h
      · rcases List.mem_cons.1 ((same z).2 (List.mem_cons_of_mem _ hz)) with rfl | h
        · have := belowY z hz
          simp [strict.irrefl] at this
        · exact h

end InfluenceProgram.Ascending
