import InfluenceProgram.Proofs.MergeTurns

/-!
Merging two neighbouring runs. Every turn of a merge gives an item at least, so a merge ends, and
with what was in its place from the start it makes one run of the two: it is in order, and alike to
one run behind the other.
-/

set_option autoImplicit false

namespace InfluenceProgram.Sorting

variable {α κ : Type} [LinearOrder κ] {rank : α → κ} {known : α → Prop}
  {before : α → α → Except Fault Bool} {y : α}

namespace Merge

variable {d : Direction} {left right out : List α}

/-- What a merge ends with holds what has been merged before, and then the merge of the rest. -/
def Ends (rank : α → κ) (before : α → α → Except Fault Bool) (d : Direction) (fuel : Nat)
    (m m' : Merge α) : Prop :=
  ∃ out patience, finish before d fuel m' = .ok (m.merged.reverse ++ out, patience) ∧
    Result rank d m.left m.right out

theorem Leads.ends {fuel : Nat} {m m' : Merge α} (leads : Leads rank known d m m')
    (ends : Ends rank before d fuel m' m') : Ends rank before d fuel m m' := by
  obtain ⟨_, given, merged, whole⟩ := leads
  obtain ⟨out, patience, finished, result⟩ := ends
  refine ⟨given ++ out, patience, ?_, whole out result⟩
  rw [finished, merged, List.reverse_append, List.reverse_reverse, List.append_assoc]

/-- A merge comes to its end. -/
theorem finish_ends (answers : Answers before rank known) {fuel : Nat} {m : Merge α}
    (ready : Ready rank known d m.left m.right) (enough : m.size ≤ fuel) :
    Ends rank before d fuel m m := by
  induction fuel generalizing m with
  | zero =>
    rw [size] at enough
    have left : m.left = [] := List.length_eq_zero_iff.mp (by omega)
    have right : m.right = [] := List.length_eq_zero_iff.mp (by omega)
    refine ⟨[], m.patience, by simp [finish, left, right], ?_⟩
    rw [left, right]
    exact .of_left .nil
  | succ fuel ih =>
    cases settled : m.settled? d with
    | some rest =>
      refine ⟨rest, m.patience, ?_, settled_result settled ready⟩
      rw [finish, settled]
    | none =>
      obtain ⟨m', next, leads, shorter⟩ := next_leads answers settled ready
      obtain ⟨out, patience, finished, result⟩ := leads.ends (ih leads.1 (by omega))
      refine ⟨out, patience, ?_, result⟩
      rw [finish, settled]
      dsimp only
      rw [next, Success.ok_bind, finished]

/-- Two runs, the first item of all being the first one of the right run and the last item of all
the last one of the left run. -/
structure Overlap (rank : α → κ) (known : α → Prop) (left right : List α) (first last : α) :
    Prop where
  left_order : InOrder rank known left
  right_order : InOrder rank known right
  head : right.head? = some first
  ending : left.getLast? = some last
  above : ∀ x ∈ left, rank first < rank x
  below : ∀ y ∈ right, rank y < rank last

variable {first last : α}

theorem Overlap.forward (overlap : Overlap rank known left right first last) :
    Ready rank known .forward left right where
  known_left := overlap.left_order.known
  known_right := overlap.right_order.known
  left_order := overlap.left_order.ascending
  right_order := overlap.right_order.ascending
  forward_end _ x found y member := by
    rw [overlap.ending] at found
    cases found
    simpa [LeftFirst] using overlap.below y member
  backward_end := nofun

theorem Overlap.backward (overlap : Overlap rank known left right first last) :
    Ready rank known .backward left.reverse right.reverse where
  known_left x member := overlap.left_order.known x (List.mem_reverse.mp member)
  known_right y member := overlap.right_order.known y (List.mem_reverse.mp member)
  left_order := List.pairwise_reverse.mpr overlap.left_order.ascending
  right_order := List.pairwise_reverse.mpr overlap.right_order.ascending
  forward_end := nofun
  backward_end _ y found x member := by
    rw [List.getLast?_reverse, overlap.head] at found
    cases found
    simpa [LeftFirst] using overlap.above x (List.mem_reverse.mp member)

/-- A merge from the back, turned round, is a merge from the front. -/
theorem Result.reverse (result : Result rank .backward left.reverse right.reverse out) :
    Result rank .forward left right out.reverse where
  order := List.pairwise_reverse.mpr result.order
  alike := by
    have turned := result.alike.reverse
    rwa [joined, List.reverse_append, List.reverse_reverse, List.reverse_reverse] at turned

theorem overlapping_result (answers : Answers before rank known)
    (overlap : Overlap rank known left right first last) (patience : Nat) :
    ∃ out patience', overlapping before left right patience = .ok (out, patience') ∧
      Result rank .forward left right out := by
  rw [overlapping]
  dsimp only
  split
  · have leads : Leads rank known .forward { left, right, patience }
        (giveRight { left, right, patience } 1) := by
      apply leads_giveRight overlap.forward
      simpa [List.take_one, overlap.head, LeftFirst] using overlap.above
    have enough : (giveRight { left, right, patience } 1).size ≤ left.length + right.length := by
      simp [size, giveRight]
    obtain ⟨out, patience', finished, result⟩ := leads.ends (finish_ends answers leads.1 enough)
    exact ⟨out, patience', finished, result⟩
  · have leads : Leads rank known .backward
        { left := left.reverse, right := right.reverse, patience }
        (giveLeft { left := left.reverse, right := right.reverse, patience } 1) := by
      apply leads_giveLeft overlap.backward
      simpa [List.take_one, overlap.ending, LeftFirst] using overlap.below
    have enough : (giveLeft { left := left.reverse, right := right.reverse, patience } 1).size ≤
        left.length + right.length := by
      simp [size, giveLeft]
    obtain ⟨out, patience', finished, result⟩ := leads.ends (finish_ends answers leads.1 enough)
    rw [finished]
    exact ⟨out.reverse, patience', rfl, result.reverse⟩

end Merge

/-- Two runs in order, of which all but the overlap is in its place already. -/
theorem merge_of_overlap {kept rest taken past out : List α}
    (leftOrder : InOrder rank known (kept ++ rest))
    (rightOrder : InOrder rank known (taken ++ past))
    (keptFirst : ∀ x ∈ kept, ∀ y ∈ taken ++ past, rank x ≤ rank y)
    (pastLast : ∀ y ∈ past, ∀ x ∈ rest, rank x ≤ rank y)
    (result : Merge.Result rank .forward rest taken out) :
    InOrder rank known (kept ++ out ++ past) ∧
      Alike rank (kept ++ out ++ past) ((kept ++ rest) ++ (taken ++ past)) := by
  obtain ⟨keptOrder, restOrder, keptBelow⟩ := InOrder.append_iff.mp leftOrder
  obtain ⟨takenOrder, pastOrder, takenBelow⟩ := InOrder.append_iff.mp rightOrder
  have members : ∀ z ∈ out, z ∈ rest ∨ z ∈ taken := fun z member =>
    Merge.mem_joined.mp ((result.alike.mem_iff z).mp member)
  have outOrder : InOrder rank known out := by
    refine ⟨fun z member => ?_, result.order⟩
    rcases members z member with left | right
    · exact restOrder.known z left
    · exact takenOrder.known z right
  constructor
  · refine InOrder.append_iff.mpr ⟨InOrder.append_iff.mpr ⟨keptOrder, outOrder, ?_⟩, pastOrder, ?_⟩
    · intro x member z merged
      rcases members z merged with left | right
      · exact keptBelow x member z left
      · exact keptFirst x member z (List.mem_append_left _ right)
    · intro z merged y member
      rcases List.mem_append.mp merged with front | merged
      · exact keptFirst z front y (List.mem_append_right _ member)
      · rcases members z merged with left | right
        · exact pastLast y member z left
        · exact takenBelow z right y member
  · have whole := ((result.alike.append_left kept).append (.refl past))
    simpa only [Merge.joined, List.append_assoc] using whole

section Places

variable {near far : List α} (answers : Answers before rank known)
  (order : InOrder rank known (near ++ far)) (knownY : known y)
include answers order knownY

theorem boundary_not_behind (low : ∀ x ∈ near, rank x ≤ rank y) (high : ∀ x ∈ far, rank y < rank x)
    (hint : Nat) : boundary (testAt (fun x => return !(← before y x)) (near ++ far))
      (near ++ far).length hint = .ok near.length := by
  obtain ⟨nearOrder, farOrder, _⟩ := InOrder.append_iff.mp order
  apply boundary_append
  · intro x member
    exact answers.not_behind_of_le (nearOrder.known x member) knownY (low x member)
  · intro x member
    exact answers.not_behind_of_lt (farOrder.known x member) knownY (high x member)

theorem boundary_before (low : ∀ x ∈ near, rank x < rank y) (high : ∀ x ∈ far, rank y ≤ rank x)
    (hint : Nat) : boundary (testAt (fun x => before x y) (near ++ far))
      (near ++ far).length hint = .ok near.length := by
  obtain ⟨nearOrder, farOrder, _⟩ := InOrder.append_iff.mp order
  apply boundary_append
  · intro x member
    rw [answers x y (nearOrder.known x member) knownY, decide_eq_true (low x member)]
  · intro x member
    rw [answers x y (farOrder.known x member) knownY,
      decide_eq_false (not_lt.mpr (high x member))]

end Places

/-- Two neighbouring runs in order become one. -/
theorem merge_result (answers : Answers before rank known) {left right : List α}
    (leftOrder : InOrder rank known left) (rightOrder : InOrder rank known right)
    (patience : Nat) : ∃ out patience', merge before left right patience = .ok (out, patience') ∧
      InOrder rank known out ∧ Alike rank out (left ++ right) := by
  rw [merge]
  cases right with
  | nil =>
    rw [List.append_nil]
    exact ⟨left, patience, rfl, leftOrder, .refl left⟩
  | cons first ys =>
    obtain ⟨kept, rest, rfl, low, above⟩ := leftOrder.split_le (rank first)
    have keptFirst : ∀ x ∈ kept, ∀ y ∈ first :: ys, rank x ≤ rank y :=
      fun x member y other => (low x member).trans (rightOrder.head_le y other)
    have knownFirst := rightOrder.known first List.mem_cons_self
    rw [List.head?_cons]
    dsimp only
    rw [boundary_not_behind answers leftOrder knownFirst low above, Success.ok_bind,
      List.drop_left, List.take_left]
    cases ending : rest.getLast? with
    | none =>
      rw [List.getLast?_eq_none_iff.mp ending, List.append_nil] at leftOrder ⊢
      exact ⟨_, patience, rfl, InOrder.append_iff.mpr ⟨leftOrder, rightOrder, keptFirst⟩, .refl _⟩
    | some last =>
      have lastRest := List.mem_of_getLast? ending
      have restOrder := (InOrder.append_iff.mp leftOrder).2.1
      obtain ⟨taken, past, split, below, pastLast⟩ := rightOrder.split_lt (rank last)
      -- the first item of the right run goes before the last one of the left run
      have overlaps : taken ≠ [] := by
        rintro rfl
        have firstPast : first ∈ past := by simp [show past = first :: ys from split]
        exact (above last lastRest).not_ge (pastLast first firstPast)
      have head : taken.head? = some first := by
        rw [← List.head?_append_of_ne_nil _ overlaps, split, List.head?_cons]
      rw [← split] at rightOrder keptFirst ⊢
      have takenOrder := (InOrder.append_iff.mp rightOrder).1
      obtain ⟨out, patience', merged, result⟩ := Merge.overlapping_result answers
        ⟨restOrder, takenOrder, head, ending, above, below⟩ patience
      obtain ⟨order, alike⟩ := merge_of_overlap leftOrder rightOrder keptFirst
        (fun y past x member => (restOrder.le_last ending x member).trans (pastLast y past)) result
      dsimp only
      rw [boundary_before answers rightOrder (restOrder.known last lastRest) below pastLast,
        Success.ok_bind, List.take_left, List.drop_left, if_neg (by simpa using overlaps), merged]
      exact ⟨_, patience', rfl, order, alike⟩

end InfluenceProgram.Sorting
